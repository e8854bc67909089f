import AiTrader.FloatRounding
import Mathlib.Data.Rat.Floor

/-! # The conviction of the technical agent

`src/agents/technical/src/signal_engine.rs`: four families of indicators vote, and the votes make a
score out of 100.  Doubles are rounded by `rnd`; the square root is a parameter.

* `computeConviction`: `compute_conviction`.
* `score_bull`, `score_bear`, `score_mixed`: the score of votes that agree and of votes that do not.
* `conviction_extremes`: only votes that all agree reach the extremes. -/

namespace AiTrader.Technical

/-- What rounding and the square root of doubles are. -/
structure Arithmetic where
  rnd : ℚ → F64
  sqrt : F64 → F64

/-- `f64::round`: halves go away from zero. -/
def roundHalfAway (q : ℚ) : ℤ := if 0 ≤ q then ⌊q + 1 / 2⌋ else ⌈q - 1 / 2⌉

/-- `x.round() as i32`: saturated, and 0 for not-a-number. -/
def roundAsI32 : F64 → ℤ
  | .nan => 0
  | .negInf => -2 ^ 31
  | .posInf => 2 ^ 31 - 1
  | .fin q => max (-2 ^ 31) (min (2 ^ 31 - 1) (roundHalfAway q))

/-- `x.clamp(-1.0, 1.0)`. -/
def clampUnit (x : F64) : F64 :=
  if F64.lt x (.fin (-1)) then .fin (-1) else if F64.lt (.fin 1) x then .fin 1 else x

/-- `ConvictionInputs`. -/
structure ConvictionInputs where
  rsi14 : Option F64 := none
  macdHistogram : Option F64 := none
  ema9 : Option F64 := none
  ema21 : Option F64 := none
  sma50 : Option F64 := none
  currentPrice : Option F64 := none
  atr14 : Option F64 := none
  bbUpper : Option F64 := none
  bbLower : Option F64 := none
  obvSlope : Option F64 := none
  cmf : Option F64 := none
  vwap : Option F64 := none

/-- The inputs by their names. -/
def ConvictionInputs.named (inputs : ConvictionInputs) : List (String × Option F64) :=
  [("rsi_14", inputs.rsi14), ("macd_histogram", inputs.macdHistogram), ("ema_9", inputs.ema9),
    ("ema_21", inputs.ema21), ("sma_50", inputs.sma50), ("current_price", inputs.currentPrice),
    ("atr_14", inputs.atr14), ("bb_upper", inputs.bbUpper), ("bb_lower", inputs.bbLower),
    ("obv_slope", inputs.obvSlope), ("cmf", inputs.cmf), ("vwap", inputs.vwap)]

structure ConvictionResult where
  score : ℤ
  missingIndicators : List String
deriving DecidableEq, Repr

section
variable (A : Arithmetic) (inputs : ConvictionInputs)

def neutralEpsilon : F64 := A.rnd (1 / 10 ^ 9)

def agreementFloor : F64 := A.rnd (4 / 5)

/-- `direction`: 1, -1, or 0 within the neutral band. -/
def direction (value : F64) : ℤ :=
  if F64.lt (neutralEpsilon A) value then 1
  else if F64.lt value (F64.neg (neutralEpsilon A)) then -1
  else 0

/-- A direction as a vote. -/
def directionVote (value : F64) : F64 := .fin (direction A value)

/-- `iter().sum::<f64>() / len as f64`. -/
def mean (xs : List F64) : F64 :=
  F64.div A.rnd (xs.foldl (F64.add A.rnd) (.fin 0)) (.fin xs.length)

/-- `family_vote`. -/
def familyVote (subVotes : List F64) : Option F64 :=
  if subVotes.isEmpty then none else some (mean A subVotes)

def momentumVote : Option F64 :=
  familyVote A <|
    (inputs.rsi14.map fun rsi =>
      clampUnit (F64.div A.rnd (F64.sub A.rnd rsi (.fin 50)) (.fin 50))).toList ++
    (inputs.macdHistogram.map (directionVote A)).toList

/-- The vote of one value over another. -/
def overVote (a b : Option F64) : List F64 :=
  match a, b with
  | some a, some b => [directionVote A (F64.sub A.rnd a b)]
  | _, _ => []

def trendVote : Option F64 :=
  familyVote A <| overVote A inputs.ema9 inputs.ema21 ++ overVote A inputs.currentPrice inputs.sma50

def volatilityVote : Option F64 :=
  match inputs.currentPrice, inputs.bbUpper, inputs.bbLower with
  | some price, some upper, some lower =>
      let mid := F64.div A.rnd (F64.add A.rnd upper lower) (.fin 2)
      let halfWidth := F64.div A.rnd (F64.sub A.rnd upper lower) (.fin 2)
      if F64.le (F64.abs halfWidth) (neutralEpsilon A) then some (.fin 0)
      else some (clampUnit (F64.div A.rnd (F64.sub A.rnd price mid) halfWidth))
  | _, _, _ => none

def volumeVote : Option F64 :=
  familyVote A <|
    (inputs.obvSlope.map (directionVote A)).toList ++ (inputs.cmf.map (directionVote A)).toList ++
      overVote A inputs.currentPrice inputs.vwap

def collectMissing : List String :=
  inputs.named.filterMap fun check => if check.2.isNone then some check.1 else none

/-- The votes of the families that are present. -/
def presentVotes : List F64 :=
  [momentumVote A inputs, trendVote A inputs, volatilityVote A inputs,
    volumeVote A inputs].filterMap id

/-- Every family votes in the direction of the first, which has one. -/
def aligned (first : F64) (votes : List F64) : Bool :=
  decide (direction A first ≠ 0) && votes.all fun v => decide (direction A v = direction A first)

/-- The votes combined, in `[-1, 1]`. -/
def amplified (first : F64) (votes : List F64) : F64 :=
  let aggregate := mean A votes
  if aligned A first votes then
    F64.mul A.rnd (directionVote A first) (F64.fmax (A.sqrt (F64.abs aggregate)) (agreementFloor A))
  else aggregate

/-- The map of `[-1, 1]` onto the whole numbers of `[0, 100]`. -/
def toScore (x : F64) : ℤ :=
  let share := F64.div A.rnd (F64.add A.rnd (clampUnit x) (.fin 1)) (.fin 2)
  max 0 (min 100 (roundAsI32 (F64.mul A.rnd share (.fin 100))))

/-- The score of the votes; without any it is neutral. -/
def scoreVotes : List F64 → ℤ
  | [] => 50
  | first :: rest => toScore A (amplified A first (first :: rest))

/-- `compute_conviction`. -/
def computeConviction : ConvictionResult :=
  { score := scoreVotes A (presentVotes A inputs)
    missingIndicators := collectMissing inputs }

end

/-! ### The score of a vote -/

theorem roundHalfAway_mono {p q : ℚ} (hpq : p ≤ q) : roundHalfAway p ≤ roundHalfAway q := by
  unfold roundHalfAway
  split
  · rename_i hp
    rw [if_pos (hp.trans hpq)]
    exact Int.floor_le_floor (by linarith)
  · rename_i hp
    split
    · rename_i hq
      have hlow : ⌈p - 1 / 2⌉ ≤ 0 := Int.ceil_le.mpr (by rw [Int.cast_zero]; linarith)
      have hhigh : 0 ≤ ⌊q + 1 / 2⌋ := Int.floor_nonneg.mpr (by linarith)
      exact hlow.trans hhigh
    · exact Int.ceil_le_ceil (by linarith)

/-- Arithmetic in range, with the roots of shares in `[0, 1]`. -/
structure Arithmetic.InRange (A : Arithmetic) (r s : ℚ → ℚ) : Prop extends
    F64.RoundsBy A.rnd r where
  sqrt : ∀ q, 0 ≤ q → q ≤ 1 → A.sqrt (.fin q) = .fin (s q)
  sqrt_le : ∀ q, 0 ≤ q → q ≤ 1 → s q ≤ 1

section
variable {A : Arithmetic} {r s : ℚ → ℚ} {p q : ℚ} {qs : List ℚ} {inputs : ConvictionInputs}

/-- A number in `[-1, 1]`. -/
def IsVote (x : F64) : Prop := ∃ q : ℚ, x = .fin q ∧ |q| ≤ 1

theorem clampUnit_of_abs_le (hq : |q| ≤ 1) : clampUnit (.fin q) = .fin q := by
  obtain ⟨hlow, hhigh⟩ := abs_le.mp hq
  simp [clampUnit, not_lt.mpr hlow, not_lt.mpr hhigh]

theorem isVote_clampUnit (q : ℚ) : IsVote (clampUnit (.fin q)) := by
  unfold clampUnit
  split
  · exact ⟨-1, rfl, by norm_num⟩
  · split
    · exact ⟨1, rfl, by norm_num⟩
    · rename_i hlow hhigh
      simp only [F64.lt_fin, decide_eq_true_eq, not_lt] at hlow hhigh
      exact ⟨q, rfl, abs_le.mpr ⟨hlow, hhigh⟩⟩

/-- The score of a number in `[-1, 1]`, before it is made whole. -/
def share (r : ℚ → ℚ) (q : ℚ) : ℚ := r (r (r (q + 1) / 2) * 100)

theorem share_mono (hr : DyadicRounding r) (hpq : p ≤ q) : share r p ≤ share r q := by
  unfold share
  have h1 : r (p + 1) ≤ r (q + 1) := hr.mono (by linarith)
  have h2 : r (r (p + 1) / 2) ≤ r (r (q + 1) / 2) := hr.mono (by linarith)
  exact hr.mono (by linarith)

theorem share_dyadic (hr : DyadicRounding r) {k : ℤ} (hk : |k| ≤ 4096) :
    share r (k / 2 ^ 12) = ((100 * (k + 4096) : ℤ) : ℚ) / 2 ^ 13 := by
  obtain ⟨hlow, hhigh⟩ := abs_le.mp hk
  have hone : (k : ℚ) / 2 ^ 12 + 1 = ((k + 4096 : ℤ) : ℚ) / 2 ^ 12 := by
    push_cast
    ring
  have hhalf : ((k + 4096 : ℤ) : ℚ) / 2 ^ 12 / 2 = ((k + 4096 : ℤ) : ℚ) / 2 ^ 13 := by ring
  have hmul : ((k + 4096 : ℤ) : ℚ) / 2 ^ 13 * 100 = ((100 * (k + 4096) : ℤ) : ℚ) / 2 ^ 13 := by
    push_cast
    ring
  have hsmall : |k + 4096| ≤ 2 ^ 53 := abs_le.mpr ⟨by linarith, by linarith⟩
  rw [share, hone, hr.dyadic _ _ hsmall (by norm_num), hhalf, hr.dyadic _ _ hsmall (by norm_num),
    hmul, hr.dyadic _ _ (abs_le.mpr ⟨by linarith, by linarith⟩) (by norm_num)]

theorem toScore_eq (hA : A.InRange r s) (hq : |q| ≤ 1) :
    toScore A (.fin q) = max 0 (min 100 (roundHalfAway (share r q))) := by
  have hbounds : -1 ≤ q ∧ q ≤ 1 := abs_le.mp hq
  have hzero : share r (-1) = 0 := by
    have h := share_dyadic hA.rounding (k := -4096) (by norm_num)
    norm_num at h
    exact h
  have hhundred : share r 1 = 100 := by
    have h := share_dyadic hA.rounding (k := 4096) (by norm_num)
    norm_num at h
    exact h
  have hlow : (0 : ℚ) ≤ share r q := hzero ▸ share_mono hA.rounding hbounds.1
  have hhigh : share r q ≤ 100 := hhundred ▸ share_mono hA.rounding hbounds.2
  have h0 : roundHalfAway 0 = 0 := by norm_num [roundHalfAway]
  have h100 : roundHalfAway 100 = 100 := by norm_num [roundHalfAway, Int.floor_eq_iff]
  have hr0 : 0 ≤ roundHalfAway (share r q) := h0 ▸ roundHalfAway_mono hlow
  have hr100 : roundHalfAway (share r q) ≤ 100 := h100 ▸ roundHalfAway_mono hhigh
  have hone : |q + 1| ≤ 2 := abs_le.mpr ⟨by linarith, by linarith⟩
  have hone' : |r (q + 1)| ≤ 2 := by
    exact_mod_cast hA.rounding.abs_le_intCast (k := 2) (by norm_num) (by exact_mod_cast hone)
  have hhalf : |r (q + 1) / 2| ≤ 1 := by
    rw [abs_div, abs_of_pos (two_pos : (0 : ℚ) < 2)]
    linarith
  have hhalf' : |r (r (q + 1) / 2)| ≤ 1 := by
    exact_mod_cast hA.rounding.abs_le_intCast (k := 1) (by norm_num) (by exact_mod_cast hhalf)
  have hmul : |r (r (q + 1) / 2) * 100| ≤ 100 := by
    rw [abs_mul, abs_of_pos (by norm_num : (0 : ℚ) < 100)]
    linarith
  rw [toScore, clampUnit_of_abs_le hq, F64.add_fin, hA.rnd_small (hone.trans (by norm_num)),
    F64.div_fin two_ne_zero, hA.rnd_small (hhalf.trans (by norm_num))]
  simp only [F64.mul_fin]
  rw [hA.rnd_small (hmul.trans (by norm_num)), roundAsI32]
  change max 0 (min 100 (max (-2 ^ 31) (min (2 ^ 31 - 1) (roundHalfAway (share r q))))) = _
  norm_num
  omega

theorem toScore_mono (hA : A.InRange r s) (hp : |p| ≤ 1) (hq : |q| ≤ 1) (hpq : p ≤ q) :
    toScore A (.fin p) ≤ toScore A (.fin q) := by
  rw [toScore_eq hA hp, toScore_eq hA hq]
  have h := roundHalfAway_mono (share_mono hA.rounding hpq)
  omega

/-! ### The mean of votes -/

theorem foldl_add (hA : A.InRange r s) {n : ℤ} (hp : |p| ≤ n) (hn : 0 ≤ n)
    (hqs : ∀ q ∈ qs, |q| ≤ 1) (hlen : n + qs.length ≤ 2 ^ 20) :
    (qs.map F64.fin).foldl (F64.add A.rnd) (.fin p) = .fin (DyadicRounding.sum r p qs) ∧
      |DyadicRounding.sum r p qs| ≤ n + qs.length := by
  induction qs generalizing p n with
  | nil => exact ⟨rfl, by simpa [DyadicRounding.sum] using hp⟩
  | cons q qs ih =>
      rw [List.length_cons] at hlen
      push_cast at hlen
      have hq : |p + q| ≤ ((n + 1 : ℤ) : ℚ) := by
        push_cast
        exact (abs_add_le p q).trans (add_le_add hp (hqs q List.mem_cons_self))
      have hsmall : ((n + 1 : ℤ) : ℚ) ≤ 2 ^ 20 := by
        have hle : n + 1 ≤ 2 ^ 20 := by linarith
        exact_mod_cast hle
      have hstep := hA.rounding.abs_le_intCast
        (abs_le.mpr ⟨by linarith, by norm_num at hlen ⊢; linarith⟩) hq
      obtain ⟨hsum, habs⟩ := ih hstep (by linarith)
        (fun x hx => hqs x (List.mem_cons_of_mem q hx)) (by linarith)
      rw [List.map_cons, List.foldl_cons, F64.add_fin, hA.rnd_small (hq.trans hsmall), hsum,
        DyadicRounding.sum_cons]
      refine ⟨rfl, habs.trans_eq ?_⟩
      rw [List.length_cons]
      push_cast
      ring

theorem mean_eq (hA : A.InRange r s) (hqs : qs ≠ []) (hlen : qs.length ≤ 4)
    (hvotes : ∀ q ∈ qs, |q| ≤ 1) :
    mean A (qs.map .fin) = .fin (r (DyadicRounding.sum r 0 qs / qs.length)) := by
  have hpos : (0 : ℚ) < qs.length := by exact_mod_cast List.length_pos_of_ne_nil hqs
  have hlen' : (qs.length : ℤ) ≤ 4 := by exact_mod_cast hlen
  obtain ⟨hsum, habs⟩ := foldl_add (p := 0) hA (n := 0) (by simp) le_rfl hvotes (by linarith)
  have hshare : |DyadicRounding.sum r 0 qs / qs.length| ≤ 1 := by
    rw [abs_div, abs_of_pos hpos, div_le_one hpos]
    simpa using habs
  rw [mean, hsum, List.length_map, F64.div_fin hpos.ne', hA.rnd_small (hshare.trans (by norm_num))]

theorem mean_neg (hr : DyadicRounding r) :
    r (DyadicRounding.sum r 0 (qs.map (- ·)) / (qs.map (- ·)).length) =
      -r (DyadicRounding.sum r 0 qs / qs.length) := by
  have hsum : DyadicRounding.sum r (-0) (qs.map (- ·)) = -DyadicRounding.sum r 0 qs := hr.sum_neg
  rw [neg_zero] at hsum
  rw [hsum, List.length_map, neg_div, hr.neg]

theorem mean_le (hr : DyadicRounding r) (hlen : qs.length ≤ 4) (hvotes : ∀ q ∈ qs, q ≤ 1) :
    r (DyadicRounding.sum r 0 qs / qs.length) ≤ 1 := by
  have hlen' : (qs.length : ℤ) ≤ 4 := by exact_mod_cast hlen
  have hsum := hr.sum_le (a := 0) (c := 0) (Nat.zero_le 1074) hvotes (by simp)
    (by norm_num; linarith)
  simp only [zero_add, pow_zero, one_mul, div_one, Int.cast_natCast] at hsum
  have hle : DyadicRounding.sum r 0 qs / qs.length ≤ 1 :=
    div_le_one_of_le₀ hsum (Nat.cast_nonneg _)
  exact (hr.mono hle).trans_eq hr.one

/-- Votes of which one is not above the neutral band stay below three quarters, nearly. -/
theorem mean_le_of_low (hr : DyadicRounding r) (hlen : qs.length ≤ 4) (hvotes : ∀ q ∈ qs, q ≤ 1)
    (hlow : ∃ q ∈ qs, q ≤ 1 / 2 ^ 10) :
    r (DyadicRounding.sum r 0 qs / qs.length) ≤ (3073 : ℤ) / 2 ^ 12 := by
  have hlen' : (qs.length : ℤ) ≤ 4 := by exact_mod_cast hlen
  have hpos : (0 : ℚ) < qs.length := by
    obtain ⟨q, hq, -⟩ := hlow
    exact_mod_cast List.length_pos_of_mem hq
  have hsum := hr.sum_le_of_low (a := 0) (c := 0) (j := 10) (by norm_num) hvotes hlow (by simp)
    (by norm_num; linarith)
  refine hr.le_dyadic (by norm_num) (by norm_num) ?_
  rw [div_le_iff₀ hpos]
  refine hsum.trans ?_
  have hlen'' : (qs.length : ℚ) ≤ 4 := by exact_mod_cast hlen
  push_cast
  linarith

/-! ### Directions -/

theorem eps_bounds (hr : DyadicRounding r) :
    r (1 / 10 ^ 9) ≤ 1 / 2 ^ 10 ∧ 1 / 2 ^ 40 ≤ r (1 / 10 ^ 9) := by
  constructor
  · have h := hr.le_dyadic (q := 1 / 10 ^ 9) (k := 1) (j := 10) (by norm_num) (by norm_num)
      (by norm_num)
    simpa using h
  · have h := hr.dyadic_le (q := 1 / 10 ^ 9) (k := 1) (j := 40) (by norm_num) (by norm_num)
      (by norm_num)
    simpa using h

theorem eps_pos (hr : DyadicRounding r) : 0 < r (1 / 10 ^ 9) :=
  lt_of_lt_of_le (by positivity) (eps_bounds hr).2

theorem direction_eq (hA : A.InRange r s) (q : ℚ) :
    direction A (.fin q) =
      if r (1 / 10 ^ 9) < q then 1 else if q < -r (1 / 10 ^ 9) then -1 else 0 := by
  have heps : A.rnd (1 / 10 ^ 9) = .fin (r (1 / 10 ^ 9)) := hA.rnd_small (by norm_num [abs_le])
  simp only [direction, neutralEpsilon, heps, F64.neg, F64.lt_fin, decide_eq_true_eq]

theorem direction_neg (hA : A.InRange r s) (q : ℚ) :
    direction A (.fin (-q)) = -direction A (.fin q) := by
  have heps := eps_pos hA.rounding
  rw [direction_eq hA, direction_eq hA]
  split_ifs <;> first | rfl | (exfalso; linarith)

theorem low_of_direction (hA : A.InRange r s) (h : direction A (.fin q) ≠ 1) : q ≤ 1 / 2 ^ 10 := by
  rw [direction_eq hA] at h
  split at h
  · exact absurd rfl h
  · exact (not_lt.mp ‹_›).trans (eps_bounds hA.rounding).1

theorem isVote_directionVote (x : F64) : IsVote (directionVote A x) := by
  unfold directionVote direction
  split
  · exact ⟨1, rfl, by norm_num⟩
  · split
    · exact ⟨-1, rfl, by norm_num⟩
    · exact ⟨0, rfl, by norm_num⟩

/-! ### The score of votes -/

theorem toScore_dyadic (hA : A.InRange r s) {k : ℤ} (hk : |k| ≤ 4096) :
    toScore A (.fin (k / 2 ^ 12)) =
      max 0 (min 100 (roundHalfAway (((100 * (k + 4096) : ℤ) : ℚ) / 2 ^ 13))) := by
  have habs : |(k : ℚ) / 2 ^ 12| ≤ 1 := by
    rw [abs_div, abs_of_pos (by positivity : (0 : ℚ) < 2 ^ 12), div_le_one (by positivity)]
    exact_mod_cast hk
  rw [toScore_eq hA habs, share_dyadic hA.rounding hk]

theorem magnitude (hA : A.InRange r s) (hq : |q| ≤ 1) :
    ∃ x, F64.fmax (A.sqrt (F64.abs (.fin q))) (agreementFloor A) = .fin x ∧
      ((3276 : ℤ) : ℚ) / 2 ^ 12 ≤ x ∧ x ≤ 1 := by
  have hfloor : ((3276 : ℤ) : ℚ) / 2 ^ 12 ≤ r (4 / 5) :=
    hA.rounding.dyadic_le (by norm_num) (by norm_num) (by norm_num)
  have hfloor' : r (4 / 5) ≤ 1 := (hA.rounding.mono (by norm_num)).trans_eq hA.rounding.one
  rw [F64.abs_fin, hA.sqrt _ (abs_nonneg q) hq, agreementFloor, hA.rnd_small (by norm_num [abs_le]),
    F64.fmax_of_ne_nan (by simp), F64.lt_fin]
  split
  · exact ⟨_, rfl, hfloor, hfloor'⟩
  · rename_i hlt
    simp only [decide_eq_true_eq, not_lt] at hlt
    exact ⟨_, rfl, hfloor.trans hlt, hA.sqrt_le _ (abs_nonneg q) hq⟩

theorem mean_isVote (hA : A.InRange r s) (hne : qs ≠ []) (hlen : qs.length ≤ 4)
    (hvotes : ∀ q ∈ qs, |q| ≤ 1) : ∃ m, mean A (qs.map .fin) = .fin m ∧ |m| ≤ 1 := by
  refine ⟨_, mean_eq hA hne hlen hvotes, abs_le.mpr ⟨?_, ?_⟩⟩
  · have hlen' : (qs.map (- ·)).length ≤ 4 := by rwa [List.length_map]
    have hneg := mean_le hA.rounding hlen' fun x hx => by
      obtain ⟨q, hq, rfl⟩ := List.mem_map.mp hx
      exact neg_le.mp (abs_le.mp (hvotes q hq)).1
    rw [mean_neg hA.rounding] at hneg
    linarith
  · exact mean_le hA.rounding hlen fun q hq => (abs_le.mp (hvotes q hq)).2

theorem amplified_agreed (hA : A.InRange r s) (hlen : (q :: qs).length ≤ 4)
    (hvotes : ∀ x ∈ q :: qs, |x| ≤ 1) {d : ℤ} (hd : d ≠ 0)
    (hd' : |d| ≤ 1) (hall : ∀ x ∈ q :: qs, direction A (.fin x) = d) :
    ∃ x, amplified A (.fin q) ((q :: qs).map .fin) = .fin (r (d * x)) ∧
      ((3276 : ℤ) : ℚ) / 2 ^ 12 ≤ x ∧ x ≤ 1 := by
  have hfirst := hall q List.mem_cons_self
  obtain ⟨m, hm, hm1⟩ := mean_isVote hA (List.cons_ne_nil q qs) hlen hvotes
  obtain ⟨x, hx, hlow, hhigh⟩ := magnitude hA hm1
  have haligned : aligned A (.fin q) ((q :: qs).map .fin) = true := by
    rw [aligned, hfirst, Bool.and_eq_true, decide_eq_true_eq, List.all_map, List.all_eq_true]
    exact ⟨hd, fun y hy => decide_eq_true (hall y hy)⟩
  have hsmall : |(d : ℚ) * x| ≤ 2 ^ 20 := by
    have hx0 : 0 ≤ x := le_trans (by norm_num) hlow
    have hd1 : |(d : ℚ)| ≤ 1 := by exact_mod_cast hd'
    rw [abs_mul, abs_of_nonneg hx0]
    exact (mul_le_one₀ hd1 hx0 hhigh).trans (by norm_num)
  refine ⟨x, ?_, hlow, hhigh⟩
  rw [amplified, if_pos haligned, hm, hx, directionVote, hfirst, F64.mul_fin, hA.rnd_small hsmall]

theorem score_bull (hA : A.InRange r s) (hlen : (q :: qs).length ≤ 4)
    (hvotes : ∀ x ∈ q :: qs, |x| ≤ 1) (hall : ∀ x ∈ q :: qs, direction A (.fin x) = 1) :
    90 ≤ toScore A (amplified A (.fin q) ((q :: qs).map .fin)) := by
  obtain ⟨x, hx, hlow, hhigh⟩ := amplified_agreed hA hlen hvotes one_ne_zero (by norm_num) hall
  rw [hx, Int.cast_one, one_mul]
  have hle := hA.rounding.dyadic_le (by norm_num) (by norm_num) hlow
  have hle' : r x ≤ 1 := (hA.rounding.mono hhigh).trans_eq hA.rounding.one
  have hscore := toScore_dyadic hA (k := 3276) (by norm_num)
  have hround : roundHalfAway (((100 * (3276 + 4096) : ℤ) : ℚ) / 2 ^ 13) = 90 := by
    norm_num [roundHalfAway, Int.floor_eq_iff]
  rw [hround] at hscore
  refine (show (90 : ℤ) = _ from hscore.symm).trans_le (toScore_mono hA ?_ ?_ hle)
  · norm_num [abs_le]
  · exact abs_le.mpr ⟨by norm_num at hle; linarith, hle'⟩

theorem score_bear (hA : A.InRange r s) (hlen : (q :: qs).length ≤ 4)
    (hvotes : ∀ x ∈ q :: qs, |x| ≤ 1) (hall : ∀ x ∈ q :: qs, direction A (.fin x) = -1) :
    toScore A (amplified A (.fin q) ((q :: qs).map .fin)) ≤ 10 := by
  obtain ⟨x, hx, hlow, hhigh⟩ := amplified_agreed hA hlen hvotes (by norm_num) (by norm_num) hall
  rw [hx, Int.cast_neg, Int.cast_one, neg_one_mul, hA.rounding.neg]
  have hle := hA.rounding.dyadic_le (by norm_num) (by norm_num) hlow
  have hle' : r x ≤ 1 := (hA.rounding.mono hhigh).trans_eq hA.rounding.one
  have hscore := toScore_dyadic hA (k := -3276) (by norm_num)
  have hround : roundHalfAway (((100 * (-3276 + 4096) : ℤ) : ℚ) / 2 ^ 13) = 10 := by
    norm_num [roundHalfAway, Int.floor_eq_iff]
  rw [hround] at hscore
  have hbound : -r x ≤ ((-3276 : ℤ) : ℚ) / 2 ^ 12 := by
    push_cast at hle ⊢
    linarith
  refine (toScore_mono hA ?_ ?_ hbound).trans_eq hscore
  · exact abs_le.mpr ⟨by linarith, by norm_num at hle; linarith⟩
  · norm_num [abs_le]

/-- Votes that do not agree stay away from the extremes. -/
theorem score_mixed (hA : A.InRange r s) (hlen : (q :: qs).length ≤ 4)
    (hvotes : ∀ x ∈ q :: qs, |x| ≤ 1) (hbull : ∃ x ∈ q :: qs, direction A (.fin x) ≠ 1)
    (hbear : ∃ x ∈ q :: qs, direction A (.fin x) ≠ -1) :
    12 ≤ toScore A (amplified A (.fin q) ((q :: qs).map .fin)) ∧
      toScore A (amplified A (.fin q) ((q :: qs).map .fin)) ≤ 88 := by
  have hnot : aligned A (.fin q) ((q :: qs).map .fin) = false := by
    rw [← Bool.not_eq_true, aligned, Bool.and_eq_true, decide_eq_true_eq, List.all_map,
      List.all_eq_true]
    rintro ⟨hne, hall⟩
    have hall' : ∀ x ∈ q :: qs, direction A (.fin x) = direction A (.fin q) := fun x hx =>
      of_decide_eq_true (hall x hx)
    obtain ⟨x, hx, hx1⟩ := hbull
    obtain ⟨y, hy, hy1⟩ := hbear
    rw [hall' x hx] at hx1
    rw [hall' y hy] at hy1
    rw [direction_eq hA] at hne hx1 hy1
    split_ifs at hne hx1 hy1 <;> simp_all
  have hhigh := mean_le_of_low hA.rounding hlen (fun x hx => (abs_le.mp (hvotes x hx)).2) (by
    obtain ⟨x, hx, hx1⟩ := hbull
    exact ⟨x, hx, low_of_direction hA hx1⟩)
  have hlen' : ((q :: qs).map (- ·)).length ≤ 4 := by rwa [List.length_map]
  have hlow := mean_le_of_low hA.rounding hlen'
    (fun x hx => by
      obtain ⟨y, hy, rfl⟩ := List.mem_map.mp hx
      exact neg_le.mp (abs_le.mp (hvotes y hy)).1) (by
    obtain ⟨y, hy, hy1⟩ := hbear
    refine ⟨-y, List.mem_map_of_mem hy, low_of_direction hA fun h => hy1 ?_⟩
    rw [direction_neg hA] at h
    exact neg_eq_iff_eq_neg.mp h)
  rw [mean_neg hA.rounding] at hlow
  rw [amplified, hnot, if_neg Bool.false_ne_true, mean_eq hA (List.cons_ne_nil q qs) hlen hvotes]
  generalize r (DyadicRounding.sum r 0 (q :: qs) / (q :: qs).length) = m at hlow hhigh ⊢
  have hlow' : ((-3073 : ℤ) : ℚ) / 2 ^ 12 ≤ m := by
    push_cast at hlow ⊢
    linarith
  have hm : |m| ≤ 1 := abs_le.mpr ⟨by norm_num at hlow'; linarith, by norm_num at hhigh; linarith⟩
  have h88 := toScore_dyadic hA (k := 3073) (by norm_num)
  have h12 := toScore_dyadic hA (k := -3073) (by norm_num)
  have hround88 : roundHalfAway (((100 * (3073 + 4096) : ℤ) : ℚ) / 2 ^ 13) = 88 := by
    norm_num [roundHalfAway, Int.floor_eq_iff]
  have hround12 : roundHalfAway (((100 * (-3073 + 4096) : ℤ) : ℚ) / 2 ^ 13) = 12 := by
    norm_num [roundHalfAway, Int.floor_eq_iff]
  rw [hround88] at h88
  rw [hround12] at h12
  constructor
  · refine (show (12 : ℤ) = _ from h12.symm).trans_le (toScore_mono hA ?_ hm hlow')
    norm_num [abs_le]
  · exact (toScore_mono hA hm (by norm_num [abs_le]) hhigh).trans_eq h88

/-! ### The votes of the families -/

/-- Every indicator that is given is a number of at most `2 ^ 200`. -/
def ConvictionInputs.Moderate (inputs : ConvictionInputs) : Prop :=
  ∀ x ∈ inputs.named.filterMap Prod.snd, F64.le (F64.abs x) (.fin (2 ^ 200)) = true

instance (inputs : ConvictionInputs) : Decidable inputs.Moderate :=
  inferInstanceAs (Decidable
    (∀ x ∈ inputs.named.filterMap Prod.snd, F64.le (F64.abs x) (.fin (2 ^ 200)) = true))

theorem ConvictionInputs.Moderate.number (hinputs : inputs.Moderate) {name : String}
    {o : Option F64} {x : F64} (h : (name, o) ∈ inputs.named) (ho : o = some x) :
    ∃ q, x = .fin q ∧ |q| ≤ 2 ^ 200 := by
  have hx := hinputs x (List.mem_filterMap.mpr ⟨_, h, ho⟩)
  cases x with
  | fin q => exact ⟨q, rfl, by simpa using hx⟩
  | _ => cases hx

theorem exists_votes {xs : List F64} (hxs : ∀ x ∈ xs, IsVote x) :
    ∃ qs : List ℚ, xs = qs.map .fin ∧ ∀ q ∈ qs, |q| ≤ 1 := by
  induction xs with
  | nil => exact ⟨[], rfl, by simp⟩
  | cons x xs ih =>
      obtain ⟨q, rfl, hq⟩ := hxs x List.mem_cons_self
      obtain ⟨qs, rfl, hqs⟩ := ih fun y hy => hxs y (List.mem_cons_of_mem _ hy)
      exact ⟨q :: qs, rfl, List.forall_mem_cons.mpr ⟨hq, hqs⟩⟩

theorem isVote_familyVote (hA : A.InRange r s) {xs : List F64} (hxs : ∀ x ∈ xs, IsVote x)
    (hlen : xs.length ≤ 4) {v : F64} (hv : familyVote A xs = some v) : IsVote v := by
  obtain ⟨qs, rfl, hqs⟩ := exists_votes hxs
  unfold familyVote at hv
  split at hv
  · cases hv
  · rename_i hne
    cases hv
    rw [List.length_map] at hlen
    obtain ⟨m, hm, hm1⟩ := mean_isVote hA (by rintro rfl; exact hne rfl) hlen hqs
    exact ⟨m, hm, hm1⟩

theorem isVote_overVote (a b : Option F64) : ∀ x ∈ overVote A a b, IsVote x := by
  intro x hx
  unfold overVote at hx
  split at hx
  · rw [List.mem_singleton.mp hx]
    exact isVote_directionVote _
  · cases hx

theorem length_overVote (a b : Option F64) : (overVote A a b).length ≤ 1 := by
  unfold overVote
  split <;> simp

theorem isVote_toList (o : Option F64) : ∀ x ∈ (o.map (directionVote A)).toList, IsVote x := by
  intro x hx
  obtain ⟨y, -, rfl⟩ := Option.map_eq_some_iff.mp (Option.mem_toList.mp hx)
  exact isVote_directionVote y

theorem length_toList_le {α : Type*} (o : Option α) : o.toList.length ≤ 1 := by
  cases o <;> simp

theorem add_le_pow {j : ℕ} (hp : |p| ≤ 2 ^ j) (hq : |q| ≤ 2 ^ j) : |p + q| ≤ 2 ^ (j + 1) := by
  have habs := abs_add_le p q
  rw [pow_succ]
  linarith

theorem sub_le_pow {j : ℕ} (hp : |p| ≤ 2 ^ j) (hq : |q| ≤ 2 ^ j) : |p - q| ≤ 2 ^ (j + 1) := by
  have hadd := add_le_pow (q := -q) hp (by rwa [abs_neg])
  rwa [← sub_eq_add_neg] at hadd

theorem half_le (hr : DyadicRounding r) (hq : |q| ≤ 2 ^ 201) :
    |r q / 2| ≤ 2 ^ 200 ∧ |r (r q / 2)| ≤ 2 ^ 200 := by
  have hhalf : |r q / 2| ≤ 2 ^ 200 := by
    have hle := hr.abs_le_pow (by norm_num) hq
    rw [pow_succ] at hle
    rw [abs_div, abs_of_pos (two_pos : (0 : ℚ) < 2)]
    linarith
  exact ⟨hhalf, hr.abs_le_pow (by norm_num) hhalf⟩

theorem quotient_le {j : ℕ} {w : ℚ} (hq : |q| ≤ 2 ^ j) (hw : 1 / 2 ^ 40 ≤ |w|) :
    |q / w| ≤ 2 ^ (j + 40) := by
  have hpos : 0 < |w| := lt_of_lt_of_le (by positivity) hw
  have hwide : 1 ≤ 2 ^ 40 * |w| := by
    rw [div_le_iff₀ (by positivity)] at hw
    linarith
  rw [abs_div, div_le_iff₀ hpos, pow_add, mul_assoc]
  exact hq.trans (le_mul_of_one_le_right (by positivity) hwide)

theorem volatility_isVote (hA : A.InRange r s) (hinputs : inputs.Moderate) {v : F64}
    (hv : volatilityVote A inputs = some v) : IsVote v := by
  unfold volatilityVote at hv
  split at hv
  · rename_i price upper lower hprice hupper hlower
    have hp : ("current_price", inputs.currentPrice) ∈ inputs.named := by
      simp [ConvictionInputs.named]
    obtain ⟨p, rfl, hp2⟩ := hinputs.number hp hprice
    have hu : ("bb_upper", inputs.bbUpper) ∈ inputs.named := by simp [ConvictionInputs.named]
    obtain ⟨u, rfl, hu2⟩ := hinputs.number hu hupper
    have hl : ("bb_lower", inputs.bbLower) ∈ inputs.named := by simp [ConvictionInputs.named]
    obtain ⟨l, rfl, hl2⟩ := hinputs.number hl hlower
    have hsum : |u + l| ≤ 2 ^ 201 := add_le_pow hu2 hl2
    have hdiff : |u - l| ≤ 2 ^ 201 := sub_le_pow hu2 hl2
    have hmid := half_le hA.rounding hsum
    have hwide := half_le hA.rounding hdiff
    have hoff : |p - r (r (u + l) / 2)| ≤ 2 ^ 201 := sub_le_pow hp2 hmid.2
    have heps : A.rnd (1 / 10 ^ 9) = .fin (r (1 / 10 ^ 9)) := hA.rnd_small (by norm_num [abs_le])
    rw [F64.add_fin, F64.sub_fin, hA.rnd_pow (by norm_num) hsum, hA.rnd_pow (by norm_num) hdiff,
      F64.div_fin two_ne_zero, F64.div_fin two_ne_zero, hA.rnd_pow (by norm_num) hmid.1,
      hA.rnd_pow (by norm_num) hwide.1] at hv
    simp only [F64.abs_fin, neutralEpsilon, heps, F64.le_fin, decide_eq_true_eq] at hv
    split at hv
    · cases hv
      exact ⟨0, rfl, by norm_num⟩
    · rename_i hwidth
      have hne : r (r (u - l) / 2) ≠ 0 := by
        intro h0
        rw [h0, abs_zero] at hwidth
        exact hwidth (eps_pos hA.rounding).le
      have hwidth' : 1 / 2 ^ 40 ≤ |r (r (u - l) / 2)| :=
        (eps_bounds hA.rounding).2.trans (not_le.mp hwidth).le
      have hquot := quotient_le (hA.rounding.abs_le_pow (by norm_num) hoff) hwidth'
      rw [F64.sub_fin, hA.rnd_pow (by norm_num) hoff, F64.div_fin hne,
        hA.rnd_pow (by norm_num) hquot] at hv
      cases hv
      exact isVote_clampUnit _
  · cases hv

theorem momentum_isVote (hA : A.InRange r s) (hinputs : inputs.Moderate) {v : F64}
    (hv : momentumVote A inputs = some v) : IsVote v := by
  refine isVote_familyVote hA (fun x hx => ?_) ?_ hv
  · obtain hx | hx := List.mem_append.mp hx
    · obtain ⟨y, hy, rfl⟩ := Option.map_eq_some_iff.mp (Option.mem_toList.mp hx)
      have hrsi : ("rsi_14", inputs.rsi14) ∈ inputs.named := List.mem_cons_self
      obtain ⟨q, rfl, hq⟩ := hinputs.number hrsi hy
      have hoff : |q - 50| ≤ 2 ^ 201 := sub_le_pow hq (by norm_num [abs_of_pos])
      have hquot := quotient_le (w := 50) (hA.rounding.abs_le_pow (by norm_num) hoff)
        (by norm_num [abs_of_pos])
      rw [F64.sub_fin, hA.rnd_pow (by norm_num) hoff, F64.div_fin (by norm_num),
        hA.rnd_pow (by norm_num) hquot]
      exact isVote_clampUnit _
    · exact isVote_toList _ x hx
  · rw [List.length_append]
    exact (add_le_add (length_toList_le _) (length_toList_le _)).trans (by norm_num)

theorem trend_isVote (hA : A.InRange r s) {v : F64} (hv : trendVote A inputs = some v) :
    IsVote v := by
  refine isVote_familyVote hA (fun x hx => ?_) ?_ hv
  · obtain hx | hx := List.mem_append.mp hx
    · exact isVote_overVote _ _ x hx
    · exact isVote_overVote _ _ x hx
  · rw [List.length_append]
    exact (add_le_add (length_overVote _ _) (length_overVote _ _)).trans (by norm_num)

theorem volume_isVote (hA : A.InRange r s) {v : F64} (hv : volumeVote A inputs = some v) :
    IsVote v := by
  refine isVote_familyVote hA (fun x hx => ?_) ?_ hv
  · obtain hx | hx := List.mem_append.mp hx
    · obtain hx | hx := List.mem_append.mp hx
      · exact isVote_toList _ x hx
      · exact isVote_toList _ x hx
    · exact isVote_overVote _ _ x hx
  · rw [List.length_append, List.length_append]
    have h := add_le_add (add_le_add (length_toList_le (inputs.obvSlope.map (directionVote A)))
      (length_toList_le (inputs.cmf.map (directionVote A))))
      (length_overVote (A := A) inputs.currentPrice inputs.vwap)
    exact h.trans (by norm_num)

theorem presentVotes_votes (hA : A.InRange r s) (hinputs : inputs.Moderate) :
    ∀ v ∈ presentVotes A inputs, IsVote v := by
  intro v hv
  obtain ⟨o, ho, rfl⟩ := List.mem_filterMap.mp hv
  simp only [List.mem_cons, List.not_mem_nil, or_false] at ho
  obtain h | h | h | h := ho
  · exact momentum_isVote hA hinputs h.symm
  · exact trend_isVote hA h.symm
  · exact volatility_isVote hA hinputs h.symm
  · exact volume_isVote hA h.symm

theorem length_presentVotes (A : Arithmetic) (inputs : ConvictionInputs) :
    (presentVotes A inputs).length ≤ 4 := List.length_filterMap_le _ _

/-- **Only a full agreement is extreme.**  The score is between 0 and 100; it reaches 90 exactly if
every family that has a vote votes up, and falls to 10 exactly if every one votes down; any other
picture stays between 12 and 88. -/
theorem conviction_extremes (A : Arithmetic) (r s : ℚ → ℚ) (hA : A.InRange r s)
    (inputs : ConvictionInputs) (hinputs : inputs.Moderate) :
    let votes := presentVotes A inputs
    let score := (computeConviction A inputs).score
    (0 ≤ score ∧ score ≤ 100) ∧
      (90 ≤ score ↔ votes ≠ [] ∧ ∀ v ∈ votes, direction A v = 1) ∧
      (score ≤ 10 ↔ votes ≠ [] ∧ ∀ v ∈ votes, direction A v = -1) ∧
      (score < 90 → 10 < score → 12 ≤ score ∧ score ≤ 88) := by
  intro votes score
  have hlen := length_presentVotes A inputs
  obtain ⟨qs, hqs, habs⟩ := exists_votes (presentVotes_votes hA hinputs)
  have hscore : score = scoreVotes A (presentVotes A inputs) := rfl
  rw [hqs, List.length_map] at hlen
  rw [hqs] at hscore
  have hvotes : votes = qs.map .fin := hqs
  clear_value votes score
  subst hvotes hscore
  have hdir : ∀ d : ℤ, (∀ v ∈ qs.map F64.fin, direction A v = d) ↔
      ∀ x ∈ qs, direction A (.fin x) = d := fun d => by simp
  rw [hdir, hdir]
  cases qs with
  | nil => simp [scoreVotes]
  | cons q qs =>
      have hrange : 0 ≤ toScore A (amplified A (.fin q) ((q :: qs).map .fin)) ∧
          toScore A (amplified A (.fin q) ((q :: qs).map .fin)) ≤ 100 :=
        ⟨le_max_left _ _, max_le (by norm_num) (min_le_left _ _)⟩
      have hne : (q :: qs).map F64.fin ≠ [] := List.cons_ne_nil _ _
      have hfirst : ∀ d : ℤ, (∀ x ∈ q :: qs, direction A (.fin x) = d) →
          direction A (.fin q) = d := fun d h => h q List.mem_cons_self
      simp only [List.map_cons, scoreVotes]
      rw [← List.map_cons]
      by_cases hbull : ∀ x ∈ q :: qs, direction A (.fin x) = 1
      · have h90 := score_bull hA hlen habs hbull
        refine ⟨hrange, ⟨fun _ => ⟨hne, hbull⟩, fun _ => h90⟩, ⟨fun h => by omega, fun h => ?_⟩,
          fun h => by omega⟩
        have := (hfirst 1 hbull).symm.trans (hfirst (-1) h.2)
        omega
      · by_cases hbear : ∀ x ∈ q :: qs, direction A (.fin x) = -1
        · have h10 := score_bear hA hlen habs hbear
          refine ⟨hrange, ⟨fun h => by omega, fun h => absurd h.2 hbull⟩,
            ⟨fun _ => ⟨hne, hbear⟩, fun _ => h10⟩, fun _ h => by omega⟩
        · simp only [not_forall, exists_prop] at hbull hbear
          obtain ⟨h12, h88⟩ := score_mixed hA hlen habs hbull hbear
          refine ⟨hrange, ⟨fun h => by omega, fun h => ?_⟩, ⟨fun h => by omega, fun h => ?_⟩,
            fun _ _ => ⟨h12, h88⟩⟩
          · obtain ⟨x, hx, hne⟩ := hbull
            exact absurd (h.2 x hx) hne
          · obtain ⟨x, hx, hne⟩ := hbear
            exact absurd (h.2 x hx) hne

end

/-! ### The signal of a tick -/

/-- `TechSignal`. -/
structure TechSignal where
  symbol : String
  timestampMs : Int64
  rsiValue : F64
  vwapDistance : F64
  technicalConvictionScore : ℤ
deriving DecidableEq

/-- `evaluate_signal`: only the RSI, the VWAP and the price of a tick are known. -/
def evaluateSignal (A : Arithmetic) (symbol : String) (rsi vwap currentPrice : F64)
    (timestampMs : Int64) : TechSignal where
  symbol
  timestampMs
  rsiValue := rsi
  vwapDistance :=
    if F64.eq vwap (.fin 0) then .fin 0
    else F64.mul A.rnd (F64.div A.rnd (F64.sub A.rnd currentPrice vwap) vwap) (.fin 100)
  technicalConvictionScore := (computeConviction A
    { rsi14 := some rsi, vwap := some vwap, currentPrice := some currentPrice }).score

/-- Exact arithmetic, where the root of 1 is 1. -/
def exactArithmetic : Arithmetic := ⟨.fin, fun x => x⟩

theorem exactArithmetic_inRange : exactArithmetic.InRange id id where
  toRoundsBy := .exact
  sqrt _ _ _ := rfl
  sqrt_le _ _ h := h

/-- A tick above its VWAP on the highest RSI. -/
def risingInputs : ConvictionInputs :=
  { rsi14 := some (.fin 100), vwap := some (.fin 24400), currentPrice := some (.fin 24500) }

theorem conviction_extremes_rising :
    (computeConviction exactArithmetic risingInputs).score = 100 ∧
      presentVotes exactArithmetic risingInputs ≠ [] ∧
      ∀ v ∈ presentVotes exactArithmetic risingInputs, direction exactArithmetic v = 1 := by
  have hscore : (computeConviction exactArithmetic risingInputs).score = 100 := by decide +kernel
  have hinputs : risingInputs.Moderate := by decide +kernel
  obtain ⟨-, hbull, -⟩ :=
    conviction_extremes exactArithmetic id id exactArithmetic_inRange risingInputs hinputs
  exact ⟨hscore, hbull.mp (by rw [hscore]; norm_num)⟩

end AiTrader.Technical
