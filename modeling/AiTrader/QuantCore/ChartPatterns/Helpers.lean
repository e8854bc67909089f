import AiTrader.Library.Returns
import AiTrader.QuantCore.Swings
import Mathlib.Algebra.Order.BigOperators.Group.List
import Mathlib.Algebra.Order.Field.Basic
import Mathlib.Algebra.Order.Field.Rat
import Mathlib.Tactic.Linarith

/-! # Chart patterns: helpers

The data and the helpers of `src/quant-core/src/chart_patterns.rs`.  Arithmetic is exact.  An
index out of range and a division by zero are failures (`none`).  How a number is written with a
given count of decimals is a parameter of the detectors. -/

namespace AiTrader.QuantCore.ChartPatterns

structure ChartPattern where
  patternType : String
  sentiment : String
  confidence : ℚ
  startIdx : ℕ
  endIdx : ℕ
  description : String
  structuralBias : String
  geometricStrictness : ℚ
  volumeValidation : String
  breakoutStatus : String
  isForming : Bool := false
  formationProgress : ℚ := 0

abbrev Bar := Candle ℚ

abbrev Swing := SwingPoint ℚ

def matchTolerance : ℚ := 15 / 1000

def shoulderTolerance : ℚ := 8 / 100

def minFlagpoleCandles : ℕ := 5

def flagpoleMinRangeRatio : ℚ := 15 / 1000

def flatSlopeThreshold : ℚ := 5 / 10000

def cupAsymmetryTolerance : ℚ := 5 / 100

def fibTolerance : ℚ := 5 / 100

/-- `1e-9`. -/
def tiny : ℚ := 1 / 10 ^ 9

/-! ### Arithmetic and indexing -/

/-- Division; by zero it fails. -/
def divide (a b : ℚ) : Option ℚ := if b = 0 then none else some (a / b)

/-- `candles[i].volume`. -/
def volumeAt (candles : List Bar) (i : ℕ) : Option ℚ := candles[i]?.map Candle.volume

/-- `prices_match`. -/
def pricesMatch (a b tolerance : ℚ) : Option Bool :=
  let avg := (a + b) / 2
  if |avg| < tiny then some (decide (|a - b| < tiny))
  else (divide |a - b| avg).map fun ratio => decide (ratio ≤ tolerance)

/-- `matches_fib`. -/
def matchesFib (ratio target : ℚ) : Bool := decide (|ratio - target| ≤ fibTolerance)

/-- `linear_regression`: slope and intercept. -/
def linearRegression (points : List (ℚ × ℚ)) : Option (ℚ × ℚ) :=
  let n : ℚ := points.length
  if n < 2 then some (0, (points.head?.map Prod.snd).getD 0)
  else
    let sumX := (points.map Prod.fst).sum
    let sumY := (points.map Prod.snd).sum
    let sumXY := (points.map fun p => p.1 * p.2).sum
    let sumXX := (points.map fun p => p.1 * p.1).sum
    let denom := n * sumXX - sumX * sumX
    if |denom| < 1 / 10 ^ 12 then (divide sumY n).map fun mean => (0, mean)
    else do
      let slope ← divide (n * sumXY - sumX * sumY) denom
      let intercept ← divide (sumY - slope * sumX) n
      return (slope, intercept)

/-- `get_volume_sma`. -/
def getVolumeSma (candles : List Bar) (idx period : ℕ) : Option ℚ :=
  if idx < period ∨ candles.length < period then some 0
  else
    let start := idx - period
    if candles.length < idx then none
    else divide (((candles.take idx).drop start).map Candle.volume).sum period

/-- `get_volume_slope`. -/
def getVolumeSlope (candles : List Bar) (startIdx endIdx : ℕ) : Option ℚ :=
  if startIdx ≥ endIdx ∨ endIdx ≥ candles.length then some 0
  else do
    let points ← (List.range' startIdx (endIdx + 1 - startIdx)).zipIdx.mapM fun (idx, i) =>
      (volumeAt candles idx).map fun volume => ((i : ℚ), volume)
    let line ← linearRegression points
    return line.1

/-- The swings of one kind. -/
def ofKind (kind : SwingKind) (swings : List Swing) : List Swing :=
  swings.filter fun s => decide (s.kind = kind)

/-- The swings strictly between two bars. -/
def between (left right : ℕ) (swings : List Swing) : List Swing :=
  swings.filter fun s => decide (left < s.idx) && decide (s.idx < right)

/-- Swings as points of the chart. -/
def points (swings : List Swing) : List (ℚ × ℚ) := swings.map fun s => ((s.idx : ℚ), s.price)

/-- The slopes of resistance and support. -/
def slopes (swings : List Swing) : Option (ℚ × ℚ) := do
  let res ← linearRegression (points (ofKind .peak swings))
  let sup ← linearRegression (points (ofKind .trough swings))
  return (res.1, sup.1)

/-- `windows(2)`. -/
def windows2 {α : Type} : List α → List (α × α)
  | a :: b :: rest => (a, b) :: windows2 (b :: rest)
  | _ => []

/-- `windows(3)`. -/
def windows3 {α : Type} : List α → List (α × α × α)
  | a :: b :: c :: rest => (a, b, c) :: windows3 (b :: c :: rest)
  | _ => []

/-- `candles.last().map(|c| c.close).unwrap_or(0.0)`. -/
def currentPrice (candles : List Bar) : ℚ := (candles.getLast?.map Candle.close).getD 0

/-- `candles.last().map(|c| c.volume).unwrap_or(0.0)`. -/
def currentVolume (candles : List Bar) : ℚ := (candles.getLast?.map Candle.volume).getD 0

/-- Breakout status and volume validation, when a signal is confirmed by volume and when not. -/
def breakoutTexts (candles : List Bar) (isBreakout : Bool) (exhaustion : String) :
    Option (String × String) :=
  if isBreakout then do
    let sma ← getVolumeSma candles (candles.length - 1) 20
    if currentVolume candles > 12 / 10 * sma ∧ sma > 0 then
      return ("Confirmed Breakout", "Confirmed: Breakout Volume Boost")
    else return ("Pending Neckline Test", exhaustion)
  else some ("Pending Neckline Test", exhaustion)

/-- What is said of the volume inside a consolidation. -/
def dryingText (drying : Bool) : String :=
  if drying then "Confirmed: Consolidation Drying" else "Unconfirmed"

/-! ### Tops and bottoms -/

/-- A pattern at the top of the chart, or the same one upside down. -/
inductive Side
  | top | bottom
  deriving DecidableEq, Repr

namespace Side

/-- The kind of the swings that the pattern is about. -/
def extreme : Side → SwingKind
  | top => .peak
  | bottom => .trough

def opposite : Side → SwingKind
  | top => .trough
  | bottom => .peak

/-- `a` is further out than `b`. -/
def beyond : Side → ℚ → ℚ → Bool
  | top, a, b => decide (a > b)
  | bottom, a, b => decide (a < b)

/-- How far `a` is further out than `b`. -/
def gap : Side → ℚ → ℚ → ℚ
  | top, a, b => a - b
  | bottom, a, b => b - a

end Side

/-! ### What the helpers return -/

/-- What a consumer asks of a pattern on `n` candles. -/
structure Admissible (n : ℕ) (p : ChartPattern) : Prop where
  confidence_nonneg : 0 ≤ p.confidence
  confidence_le_one : p.confidence ≤ 1
  ordered : p.startIdx ≤ p.endIdx
  inside : p.endIdx < n

/-- What the detectors need of the swings: in time order, on the chart, at prices of at least a
hundredth. -/
structure WellPlaced (candles : List Bar) (swings : List Swing) : Prop where
  ordered : swings.Pairwise fun a b => a.idx ≤ b.idx
  inside : ∀ {s}, s ∈ swings → s.idx < candles.length
  price : ∀ s ∈ swings, 1 / 100 ≤ s.price

/-- Every pattern of a result is admissible. -/
def AllAdmissible (n : ℕ) (ps : List ChartPattern) : Prop := ∀ p ∈ ps, Admissible n p

section
variable {candles : List Bar} {swings : List Swing} {s : Swing} {kind : SwingKind} {i j n : ℕ}
  {p : ChartPattern}

/-- A confidence that is capped needs to be bounded from below only. -/
theorem Admissible.capped {confidence cap : ℚ} (h : p.confidence = min confidence cap)
    (hconfidence : 0 ≤ confidence) (hcap : 0 ≤ cap) (hcap_le : cap ≤ 1)
    (hle : p.startIdx ≤ p.endIdx) (hin : p.endIdx < n) : Admissible n p where
  confidence_nonneg := h ▸ le_min hconfidence hcap
  confidence_le_one := h ▸ (min_le_right _ _).trans hcap_le
  ordered := hle
  inside := hin

theorem returns_nil (n : ℕ) : Returns (some []) (AllAdmissible n) :=
  .some (List.forall_mem_nil _)

theorem returns_singleton (h : Admissible n p) : Returns (some [p]) (AllAdmissible n) :=
  .some (List.forall_mem_singleton.mpr h)

theorem returns_flatten {α : Type} {f : α → Option (List ChartPattern)} {xs : List α}
    (h : ∀ x ∈ xs, Returns (f x) (AllAdmissible n)) :
    Returns ((xs.mapM f).map List.flatten) (AllAdmissible n) := by
  refine .map ((Returns.mapM h).mono fun pss hpss p hp => ?_)
  obtain ⟨ps, hps, hp⟩ := List.mem_flatten.mp hp
  exact hpss ps hps p hp

theorem returns_divide (a : ℚ) {b : ℚ} (h : b ≠ 0) : Returns (divide a b) (· = a / b) := by
  rw [divide, if_neg h]
  exact .some rfl

theorem returns_volumeAt (h : i < candles.length) : Returns (volumeAt candles i) fun _ => True := by
  rw [volumeAt, List.getElem?_eq_getElem h]
  exact .some trivial

theorem tiny_pos : 0 < tiny := by norm_num [tiny]

theorem returns_pricesMatch {a b tolerance : ℚ} (ha : 1 / 100 ≤ a) (hb : 1 / 100 ≤ b) :
    Returns (pricesMatch a b tolerance) fun matched =>
      matched = true → |a - b| ≤ tolerance * ((a + b) / 2) := by
  have havg : 0 < (a + b) / 2 := by linarith
  have hlarge : ¬ |(a + b) / 2| < tiny := by
    rw [abs_of_pos havg, not_lt, tiny]
    norm_num
    linarith
  rw [pricesMatch, if_neg hlarge]
  refine .map ((returns_divide _ havg.ne').mono fun ratio hratio hmatched => ?_)
  rw [hratio] at hmatched
  exact (div_le_iff₀ havg).mp (of_decide_eq_true hmatched)

theorem returns_linearRegression (ps : List (ℚ × ℚ)) :
    Returns (linearRegression ps) fun _ => True := by
  unfold linearRegression
  dsimp only
  refine .guard trivial fun hn => ?_
  have hlen : (ps.length : ℚ) ≠ 0 := by
    intro hzero
    rw [hzero] at hn
    exact hn (by norm_num)
  refine .ite (fun _ => ?_) fun hdenom => ?_
  · exact .map ((returns_divide _ hlen).mono fun _ _ => trivial)
  · refine .bind (returns_divide _ fun hzero => hdenom ?_) fun slope _ =>
      .bind (returns_divide _ hlen) fun intercept _ => .some trivial
    rw [hzero, abs_zero]
    norm_num

theorem returns_getVolumeSma (candles : List Bar) (h : i ≤ candles.length) {period : ℕ}
    (hperiod : 0 < period) : Returns (getVolumeSma candles i period) fun _ => True := by
  unfold getVolumeSma
  dsimp only
  refine .guard trivial fun _ => ?_
  rw [if_neg (not_lt.mpr h)]
  exact (returns_divide _ (Nat.cast_ne_zero.mpr hperiod.ne')).mono fun _ _ => trivial

theorem returns_getVolumeSlope (candles : List Bar) (startIdx endIdx : ℕ) :
    Returns (getVolumeSlope candles startIdx endIdx) fun _ => True := by
  unfold getVolumeSlope
  refine .guard trivial fun hrange => ?_
  push Not at hrange
  refine .bind (.mapM (P := fun _ => True) fun p hp =>
    .map ((returns_volumeAt ?_).mono fun _ _ => trivial)) fun ps _ =>
      .bind (returns_linearRegression ps) fun line _ => .some trivial
  have hmem := List.fst_mem_of_mem_zipIdx hp
  rw [List.mem_range'_1] at hmem
  omega

theorem returns_slopes (swings : List Swing) : Returns (slopes swings) fun _ => True :=
  .bind (returns_linearRegression _) fun _ _ => .bind (returns_linearRegression _) fun _ _ =>
    .some trivial

theorem returns_breakoutTexts (candles : List Bar) (isBreakout : Bool) (exhaustion : String) :
    Returns (breakoutTexts candles isBreakout exhaustion) fun _ => True := by
  unfold breakoutTexts
  refine .ite (fun _ => ?_) fun _ => .some trivial
  exact .bind (returns_getVolumeSma candles (Nat.sub_le _ _) (by decide)) fun sma _ =>
    .ite (fun _ => .some trivial) fun _ => .some trivial

/-! ### Swings of one kind -/

theorem WellPlaced.filter (h : WellPlaced candles swings) (q : Swing → Bool) :
    WellPlaced candles (swings.filter q) where
  ordered := h.ordered.filter q
  inside hs := h.inside (List.mem_of_mem_filter hs)
  price s hs := h.price s (List.mem_of_mem_filter hs)

theorem WellPlaced.le (h : WellPlaced candles swings) {a b : Swing} (ha : swings[i]? = some a)
    (hb : swings[j]? = some b) (hij : i ≤ j) : a.idx ≤ b.idx := by
  obtain ⟨hi, rfl⟩ := List.getElem?_eq_some_iff.mp ha
  obtain ⟨hj, rfl⟩ := List.getElem?_eq_some_iff.mp hb
  rcases hij.eq_or_lt with rfl | hlt
  · exact le_rfl
  · exact List.pairwise_iff_getElem.mp h.ordered i j hi hj hlt

theorem of_mem_windows2 {α : Type} {R : α → α → Prop} {xs : List α} (h : xs.Pairwise R) {a b : α}
    (hw : (a, b) ∈ windows2 xs) : a ∈ xs ∧ b ∈ xs ∧ R a b := by
  fun_induction windows2 xs with
  | case1 x y rest ih =>
      obtain ⟨hx, hrest⟩ := List.pairwise_cons.mp h
      rcases List.mem_cons.mp hw with hw | hw
      · cases hw
        exact ⟨by simp, by simp, hx b (by simp)⟩
      · obtain ⟨ha, hb, hab⟩ := ih hrest hw
        exact ⟨List.mem_cons_of_mem x ha, List.mem_cons_of_mem x hb, hab⟩
  | case2 => cases hw

theorem of_mem_windows3 {α : Type} {R : α → α → Prop} {xs : List α} (h : xs.Pairwise R)
    {a b c : α} (hw : (a, b, c) ∈ windows3 xs) : a ∈ xs ∧ b ∈ xs ∧ c ∈ xs ∧ R a c := by
  fun_induction windows3 xs with
  | case1 x y z rest ih =>
      obtain ⟨hx, hrest⟩ := List.pairwise_cons.mp h
      rcases List.mem_cons.mp hw with hw | hw
      · cases hw
        exact ⟨by simp, by simp, by simp, hx c (by simp)⟩
      · obtain ⟨ha, hb, hc, hac⟩ := ih hrest hw
        exact ⟨List.mem_cons_of_mem x ha, List.mem_cons_of_mem x hb, List.mem_cons_of_mem x hc,
          hac⟩
  | case2 => cases hw

end

end AiTrader.QuantCore.ChartPatterns
