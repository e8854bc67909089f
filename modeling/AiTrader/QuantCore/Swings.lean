import AiTrader.Float
import AiTrader.Library.Fallible
import AiTrader.Library.Runs
import Mathlib.Algebra.Order.Ring.Rat
import Mathlib.Data.List.Sort

/-! # The swing skeleton

`find_swings` and `alternate_swings` of `src/quant-core/src/chart_patterns.rs`: the bars that stand
out from the five on either side, and of each run of highs or of lows the most extreme.  Only
comparisons are made, so that prices are of any type with `<` and `≤`.

* `findSwings_eq`: the search stays inside the list, and what it finds is in order.
* `skeleton_stable`: the skeleton does not repaint.
* `skeleton_wellFormed`: kinds alternate, and every point stands out from its neighbours and is the
  most extreme of its run.  One bar can be two points (`skeleton_outside_bar`). -/

namespace AiTrader.QuantCore

/-- A single OHLCV candle. -/
structure Candle (P : Type) where
  «open» : P
  high : P
  low : P
  close : P
  volume : P
deriving DecidableEq, Repr

inductive SwingKind where
  | peak
  | trough
deriving DecidableEq, Repr

structure SwingPoint (P : Type) where
  idx : ℕ
  price : P
  kind : SwingKind
deriving DecidableEq, Repr

def swingWindow : ℕ := 5

section
variable {P : Type}

/-- The bars around bar `i`, itself included, of `n`. -/
def swingRange (n i : ℕ) : List ℕ :=
  List.range' (i - swingWindow) (min (i + swingWindow) (n - 1) + 1 - (i - swingWindow))

/-- The bars of the outer loop. -/
def searched (candles : List (Candle P)) : List ℕ :=
  List.range' swingWindow (candles.length - swingWindow - swingWindow)

/-- In time order, and of one bar the peak first. -/
def Before (a b : SwingPoint P) : Prop :=
  a.idx < b.idx ∨ a.idx = b.idx ∧ a.kind = .peak ∧ b.kind = .trough

variable [LE P] [DecidableLE P]

/-- One turn of the inner loop: what is left of `is_high` and `is_low` after bar `j`. -/
def compareBar (candles : List (Candle P)) (i : ℕ) (acc : Bool × Bool) (j : ℕ) :
    Option (Bool × Bool) :=
  if j = i then some acc
  else do
    let cj ← candles[j]?
    let ci ← candles[i]?
    some (acc.1 && !decide (cj.high ≥ ci.high), acc.2 && !decide (cj.low ≤ ci.low))

/-- `is_high` and `is_low` of bar `i`. -/
def isHighLow (candles : List (Candle P)) (i : ℕ) : Option (Bool × Bool) :=
  (swingRange candles.length i).foldlM (compareBar candles i) (true, true)

/-- The swings that bar `i` adds. -/
def swingsAt (candles : List (Candle P)) (i : ℕ) : Option (List (SwingPoint P)) := do
  let (isHigh, isLow) ← isHighLow candles i
  let c ← candles[i]?
  some ((if isHigh then [⟨i, c.high, .peak⟩] else []) ++
    if isLow then [⟨i, c.low, .trough⟩] else [])

def findSwings (candles : List (Candle P)) : Option (List (SwingPoint P)) :=
  if candles.length < swingWindow * 2 + 1 then some []
  else do
    let swings ← (searched candles).mapM (swingsAt candles)
    some (swings.flatten.mergeSort fun a b => decide (a.idx ≤ b.idx))

/-! ### The search -/

/-- Bar `j` leaves `is_high` of the bar `ci` at `i` as it is. -/
def below (candles : List (Candle P)) (i : ℕ) (ci : Candle P) (j : ℕ) : Bool :=
  decide (j = i) || candles[j]?.all fun cj => !decide (cj.high ≥ ci.high)

/-- Bar `j` leaves `is_low` of the bar `ci` at `i` as it is. -/
def above (candles : List (Candle P)) (i : ℕ) (ci : Candle P) (j : ℕ) : Bool :=
  decide (j = i) || candles[j]?.all fun cj => !decide (cj.low ≤ ci.low)

/-- The swings of bar `i` where nothing fails. -/
def swingsOf (candles : List (Candle P)) (i : ℕ) : List (SwingPoint P) :=
  match candles[i]? with
  | none => []
  | some c =>
      (if (swingRange candles.length i).all (below candles i c) then [⟨i, c.high, .peak⟩] else []) ++
        if (swingRange candles.length i).all (above candles i c) then [⟨i, c.low, .trough⟩] else []

variable {candles later : List (Candle P)} {c : Candle P} {i j : ℕ} {sp : SwingPoint P}

theorem compareBar_eq (hc : candles[i]? = some c) (hj : j < candles.length) (acc : Bool × Bool) :
    compareBar candles i acc j =
      some (acc.1 && below candles i c j, acc.2 && above candles i c j) := by
  by_cases hji : j = i
  · simp [compareBar, below, above, hji]
  · simp [compareBar, below, above, hji, hc, List.getElem?_eq_getElem hj]

theorem foldl_and {γ : Type*} (p q : γ → Bool) (xs : List γ) (acc : Bool × Bool) :
    xs.foldl (fun acc x => (acc.1 && p x, acc.2 && q x)) acc =
      (acc.1 && xs.all p, acc.2 && xs.all q) := by
  induction xs generalizing acc with
  | nil => simp
  | cons x xs ih => simp [ih, Bool.and_assoc]

omit [LE P] [DecidableLE P] in
theorem lt_length_of_mem_swingRange {n : ℕ} (hi : i < n) (hj : j ∈ swingRange n i) : j < n := by
  simp only [swingRange, List.mem_range'_1] at hj
  omega

theorem swingsAt_eq (hi : i < candles.length) : swingsAt candles i = some (swingsOf candles i) := by
  have hc := List.getElem?_eq_getElem hi
  have hfold : isHighLow candles i =
      some ((swingRange candles.length i).all (below candles i candles[i]),
        (swingRange candles.length i).all (above candles i candles[i])) := by
    rw [isHighLow, Fallible.foldlM_eq_pure fun acc j hj =>
      compareBar_eq hc (lt_length_of_mem_swingRange hi hj) acc, foldl_and]
    simp
  simp [swingsAt, swingsOf, hfold, hc]

theorem idx_of_mem_swingsOf (h : sp ∈ swingsOf candles i) : sp.idx = i := by
  unfold swingsOf at h
  split at h
  · cases h
  · rcases List.mem_append.mp h with h | h <;> split at h <;> simp_all

omit [LE P] [DecidableLE P] in
theorem lt_length_of_mem_searched (h : i ∈ searched candles) : i < candles.length := by
  simp only [searched, List.mem_range'_1] at h
  omega

theorem pairwise_before (candles : List (Candle P)) :
    ((searched candles).flatMap (swingsOf candles)).Pairwise Before := by
  rw [List.pairwise_flatMap]
  constructor
  · intro i _
    unfold swingsOf
    split
    · exact .nil
    · split <;> split <;> simp [Before]
  · refine (List.pairwise_lt_range' (s := swingWindow) _).imp fun {i j} hij a ha b hb => ?_
    rw [← idx_of_mem_swingsOf ha, ← idx_of_mem_swingsOf hb] at hij
    exact .inl hij

/-- The search does not leave the list, and its sort finds everything in order. -/
theorem findSwings_eq (candles : List (Candle P)) :
    findSwings candles = some ((searched candles).flatMap (swingsOf candles)) := by
  unfold findSwings
  split
  · rename_i hshort
    have hnone : searched candles = [] := by
      rw [searched, List.range'_eq_nil_iff]
      omega
    rw [hnone, List.flatMap_nil]
  · rw [Fallible.mapM_eq_pure fun i hi => swingsAt_eq (lt_length_of_mem_searched hi)]
    have hsorted := (pairwise_before candles).imp (S := fun a b => decide (a.idx ≤ b.idx) = true)
      fun {a b} h => decide_eq_true (h.elim le_of_lt fun h => le_of_eq h.1)
    exact congrArg some (List.mergeSort_of_pairwise hsorted)

/-! ### Neighbours -/

/-- Another bar, at most a window away. -/
def Beside (i j : ℕ) : Prop := j ≠ i ∧ i ≤ j + swingWindow ∧ j ≤ i + swingWindow

/-- A peak is above, a trough below all bars beside it. -/
def StandsOut (lt : P → P → Prop) (candles : List (Candle P)) (sp : SwingPoint P) : Prop :=
  swingWindow ≤ sp.idx ∧ sp.idx + swingWindow < candles.length ∧
    ∃ c, candles[sp.idx]? = some c ∧
      match sp.kind with
      | .peak => sp.price = c.high ∧
          ∀ j cj, Beside sp.idx j → candles[j]? = some cj → lt cj.high c.high
      | .trough => sp.price = c.low ∧
          ∀ j cj, Beside sp.idx j → candles[j]? = some cj → lt c.low cj.low

theorem mem_swingRange {n : ℕ} (hn : i + swingWindow < n) (h : Beside i j) :
    j ∈ swingRange n i := by
  obtain ⟨-, hleft, hright⟩ := h
  simp only [swingRange, List.mem_range'_1]
  omega

theorem standsOut_of_mem (hi : i ∈ searched candles) (h : sp ∈ swingsOf candles i) :
    StandsOut (fun a b => ¬ b ≤ a) candles sp := by
  have hidx := idx_of_mem_swingsOf h
  have hlt := lt_length_of_mem_searched hi
  have hc := List.getElem?_eq_getElem hlt
  simp only [searched, List.mem_range'_1] at hi
  refine ⟨by omega, by omega, candles[i], by rw [hidx, hc], ?_⟩
  simp only [swingsOf, hc] at h
  rcases List.mem_append.mp h with h | h
  · split at h
    · rename_i hall
      rw [List.mem_singleton] at h
      subst h
      refine ⟨rfl, fun j cj hbeside hcj => ?_⟩
      have := List.all_eq_true.mp hall j (mem_swingRange (by omega) hbeside)
      simpa [below, hbeside.1, hcj] using this
    · cases h
  · split at h
    · rename_i hall
      rw [List.mem_singleton] at h
      subst h
      refine ⟨rfl, fun j cj hbeside hcj => ?_⟩
      have := List.all_eq_true.mp hall j (mem_swingRange (by omega) hbeside)
      simpa [above, hbeside.1, hcj] using this
    · cases h

/-! ### More candles -/

theorem all_eq_all {γ : Type*} {p q : γ → Bool} {xs : List γ} (h : ∀ x ∈ xs, p x = q x) :
    xs.all p = xs.all q := by
  rw [Bool.eq_iff_iff, List.all_eq_true, List.all_eq_true]
  exact forall₂_congr fun x hx => by rw [h x hx]

theorem swingsOf_append (hi : i ∈ searched candles) :
    swingsOf (candles ++ later) i = swingsOf candles i := by
  simp only [searched, List.mem_range'_1] at hi
  have hrange : swingRange (candles ++ later).length i = swingRange candles.length i := by
    rw [swingRange, swingRange, List.length_append]
    congr 2
    omega
  have hget : ∀ j ∈ swingRange candles.length i, (candles ++ later)[j]? = candles[j]? := fun j hj =>
    List.getElem?_append_left (lt_length_of_mem_swingRange (by omega) hj)
  have hbelow : ∀ c, (swingRange candles.length i).all (below (candles ++ later) i c) =
      (swingRange candles.length i).all (below candles i c) :=
    fun c => all_eq_all fun j hj => by simp only [below, hget j hj]
  have habove : ∀ c, (swingRange candles.length i).all (above (candles ++ later) i c) =
      (swingRange candles.length i).all (above candles i c) :=
    fun c => all_eq_all fun j hj => by simp only [above, hget j hj]
  have hi' : (candles ++ later)[i]? = candles[i]? := List.getElem?_append_left (by omega)
  simp only [swingsOf, hi', hrange, hbelow, habove]

/-- The swings of a list are the first of any longer list. -/
theorem swings_append (candles later : List (Candle P)) :
    ∃ more, (searched (candles ++ later)).flatMap (swingsOf (candles ++ later)) =
      (searched candles).flatMap (swingsOf candles) ++ more := by
  have hsearched : ∃ more, searched (candles ++ later) = searched candles ++ more := by
    by_cases hshort : candles.length ≤ swingWindow + swingWindow
    · refine ⟨searched (candles ++ later), ?_⟩
      have hnone : searched candles = [] := by
        rw [searched, List.range'_eq_nil_iff]
        omega
      rw [hnone, List.nil_append]
    · refine ⟨List.range' (candles.length - swingWindow) later.length, ?_⟩
      have happend := List.range'_append_1 (s := swingWindow)
        (m := candles.length - swingWindow - swingWindow) (n := later.length)
      rw [show swingWindow + (candles.length - swingWindow - swingWindow) =
        candles.length - swingWindow by omega] at happend
      rw [searched, searched, happend, List.length_append]
      congr 1
      omega
  obtain ⟨more, hmore⟩ := hsearched
  refine ⟨more.flatMap (swingsOf (candles ++ later)), ?_⟩
  rw [hmore, List.flatMap_append]
  exact congrArg (· ++ _) (List.flatMap_congr fun i hi => swingsOf_append hi)

end

section
variable {P : Type} [LT P] [LE P] [DecidableLT P] [DecidableLE P]

/-- `better` of `alternate_swings`. -/
def better (sp last : SwingPoint P) : Bool :=
  match sp.kind with
  | .peak => decide (sp.price > last.price)
  | .trough => decide (sp.price < last.price)

def alternateSwings (raw : List (SwingPoint P)) : List (SwingPoint P) :=
  Runs.collapse SwingPoint.kind better raw

/-- The structure that the detectors read. -/
def skeleton (candles : List (Candle P)) : Option (List (SwingPoint P)) := do
  let raw ← findSwings candles
  some (alternateSwings raw)

variable {candles later : List (Candle P)} {sp : SwingPoint P}

theorem skeleton_eq (candles : List (Candle P)) :
    skeleton candles =
      some (alternateSwings ((searched candles).flatMap (swingsOf candles))) := by
  rw [skeleton, findSwings_eq]
  rfl

theorem pairwise_before_skeleton (candles : List (Candle P)) :
    (alternateSwings ((searched candles).flatMap (swingsOf candles))).Pairwise Before :=
  (pairwise_before candles).sublist (Runs.collapse_sublist _)

theorem standsOut_of_mem_skeleton
    (h : sp ∈ alternateSwings ((searched candles).flatMap (swingsOf candles))) :
    StandsOut (fun a b => ¬ b ≤ a) candles sp := by
  obtain ⟨i, hi, hsp⟩ := List.mem_flatMap.mp ((Runs.collapse_sublist _).subset h)
  exact standsOut_of_mem hi hsp

omit [LE P] [DecidableLE P] in
theorem better_trans (htrans : ∀ a b c : P, a < b → b < c → a < c) (x y z : SwingPoint P)
    (hxy : x.kind = y.kind) (hx : better x y = true) (hy : better y z = true) :
    better x z = true := by
  cases hkind : x.kind with
  | peak =>
      simp only [better, hkind, ← hxy, decide_eq_true_eq] at hx hy ⊢
      exact htrans _ _ _ hy hx
  | trough =>
      simp only [better, hkind, ← hxy, decide_eq_true_eq] at hx hy ⊢
      exact htrans _ _ _ hx hy

end

/-- **The skeleton does not repaint.**  Later candles leave all of it but its last point, and that
one gives way only to a later and more extreme one of its kind. -/
theorem skeleton_stable (candles later : List (Candle F64)) :
    ∃ swings swings', skeleton candles = some swings ∧ skeleton (candles ++ later) = some swings' ∧
      (swings = [] ∨ ∃ earlier last last' tail, swings = earlier ++ [last] ∧
        swings' = earlier ++ last' :: tail ∧ last'.kind = last.kind ∧
          (last' = last ∨ better last' last = true ∧ last.idx < last'.idx)) := by
  obtain ⟨more, hmore⟩ := swings_append candles later
  have hbefore := pairwise_before (candles ++ later)
  refine ⟨_, _, skeleton_eq candles, skeleton_eq (candles ++ later), ?_⟩
  rw [hmore] at hbefore ⊢
  by_cases hnone : (searched candles).flatMap (swingsOf candles) = []
  · rw [hnone]
    exact .inl rfl
  · have htrans : ∀ x y z : SwingPoint F64, x.kind = y.kind → y.kind = z.kind →
        better x y = true → better y z = true → better x z = true :=
      fun x y z hxy _ => better_trans (fun _ _ _ => F64.lt_trans) x y z hxy
    obtain ⟨earlier, last, last', tail, hlist, hlist', hkind, hlast⟩ :=
      Runs.collapse_stable htrans _ more hnone
    refine .inr ⟨earlier, last, last', tail, hlist, hlist', hkind, hlast.imp_right fun h => ?_⟩
    refine ⟨h.2, ?_⟩
    have hmem : last ∈ (searched candles).flatMap (swingsOf candles) :=
      (Runs.collapse_sublist _).subset (hlist ▸ List.mem_concat_self)
    obtain hlt | ⟨-, hpeak, htrough⟩ := (List.pairwise_append.mp hbefore).2.2 last hmem last' h.1
    · exact hlt
    · rw [hkind, hpeak] at htrough
      cases htrough

/-! ### Well-formedness -/

theorem lt_of_not_lt_of_lt {a b c : F64} (ha : a.isFinite = true) (hb : b.isFinite = true)
    (hc : c.isFinite = true) (hac : ¬ a < c) (hab : a < b) : c < b := by
  obtain ⟨p, rfl⟩ := F64.isFinite_iff.mp ha
  obtain ⟨q, rfl⟩ := F64.isFinite_iff.mp hb
  obtain ⟨r, rfl⟩ := F64.isFinite_iff.mp hc
  simp only [F64.lt_iff, F64.lt_fin, decide_eq_true_eq] at hab hac ⊢
  exact (not_lt.mp hac).trans_lt hab

theorem lt_of_lt_of_not_lt {a b c : F64} (ha : a.isFinite = true) (hb : b.isFinite = true)
    (hc : c.isFinite = true) (hab : a < b) (hcb : ¬ c < b) : a < c := by
  obtain ⟨p, rfl⟩ := F64.isFinite_iff.mp ha
  obtain ⟨q, rfl⟩ := F64.isFinite_iff.mp hb
  obtain ⟨r, rfl⟩ := F64.isFinite_iff.mp hc
  simp only [F64.lt_iff, F64.lt_fin, decide_eq_true_eq] at hab hcb ⊢
  exact hab.trans_le (not_lt.mp hcb)

theorem lt_of_not_le {a b : F64} (ha : a.isFinite = true) (hb : b.isFinite = true) (h : ¬ b ≤ a) :
    a < b := by
  obtain ⟨p, rfl⟩ := F64.isFinite_iff.mp ha
  obtain ⟨q, rfl⟩ := F64.isFinite_iff.mp hb
  simp only [F64.le_iff, F64.le_fin, F64.lt_iff, F64.lt_fin, decide_eq_true_eq] at h ⊢
  exact not_le.mp h

/-- On finite prices `better` is a strict order of each kind. -/
theorem comparable_better :
    Runs.Comparable SwingPoint.kind better fun sp : SwingPoint F64 => sp.price.isFinite = true where
  trans x y z _ _ _ hxy _ := better_trans (fun _ _ _ => F64.lt_trans) x y z hxy
  weak x y z hx hy hz hxy hzy hbetter hnot := by
    cases hkind : x.kind with
    | peak =>
        simp only [better, hkind, hzy, ← hxy, decide_eq_true_eq, decide_eq_false_iff_not]
          at hbetter hnot ⊢
        exact lt_of_not_lt_of_lt hy hx hz hnot hbetter
    | trough =>
        simp only [better, hkind, hzy, ← hxy, decide_eq_true_eq, decide_eq_false_iff_not]
          at hbetter hnot ⊢
        exact lt_of_lt_of_not_lt hx hy hz hbetter hnot

theorem StandsOut.finite {candles : List (Candle F64)} {sp : SwingPoint F64}
    {lt : F64 → F64 → Prop} (h : StandsOut lt candles sp)
    (hfin : ∀ c ∈ candles, c.high.isFinite = true ∧ c.low.isFinite = true) :
    sp.price.isFinite = true := by
  obtain ⟨-, -, c, hc, hkind⟩ := h
  have hcfin := hfin c (List.mem_of_getElem? hc)
  split at hkind
  · rw [hkind.1]
    exact hcfin.1
  · rw [hkind.1]
    exact hcfin.2

theorem StandsOut.strict {candles : List (Candle F64)} {sp : SwingPoint F64}
    (h : StandsOut (fun a b => ¬ b ≤ a) candles sp)
    (hfin : ∀ c ∈ candles, c.high.isFinite = true ∧ c.low.isFinite = true) :
    StandsOut (· < ·) candles sp := by
  obtain ⟨hleft, hright, c, hc, hkind⟩ := h
  have hcfin := hfin c (List.mem_of_getElem? hc)
  refine ⟨hleft, hright, c, hc, ?_⟩
  split at hkind
  · refine ⟨hkind.1, fun j cj hbeside hcj => ?_⟩
    have hjfin := hfin cj (List.mem_of_getElem? hcj)
    exact lt_of_not_le hjfin.1 hcfin.1 (hkind.2 j cj hbeside hcj)
  · refine ⟨hkind.1, fun j cj hbeside hcj => ?_⟩
    have hjfin := hfin cj (List.mem_of_getElem? hcj)
    exact lt_of_not_le hcfin.2 hjfin.2 (hkind.2 j cj hbeside hcj)

/-- **The skeleton is well formed.**  Kinds alternate; the points are in time order, two of one bar
being its peak and then its trough; each is strictly above or below all bars beside it; and it is
the most extreme, the first of equals, of its run of raw swings of one kind. -/
theorem skeleton_wellFormed (candles : List (Candle F64))
    (hfin : ∀ c ∈ candles, c.high.isFinite = true ∧ c.low.isFinite = true) :
    ∃ raw swings, findSwings candles = some raw ∧ skeleton candles = some swings ∧
      (swings.map SwingPoint.kind).IsChain (· ≠ ·) ∧ swings.Pairwise Before ∧
      (∀ sp ∈ swings, StandsOut (· < ·) candles sp) ∧
      List.Forall₂ (Runs.Best better) (raw.splitBy fun a b => decide (a.kind = b.kind)) swings := by
  refine ⟨_, _, findSwings_eq candles, skeleton_eq candles, Runs.kinds_collapse _,
    pairwise_before_skeleton candles, fun sp hsp => ?_, ?_⟩
  · exact (standsOut_of_mem_skeleton hsp).strict hfin
  · refine Runs.collapse_best comparable_better fun sp hsp => ?_
    obtain ⟨i, hi, hsp⟩ := List.mem_flatMap.mp hsp
    exact (standsOut_of_mem hi hsp).finite hfin

/-- A bar whose range spans that of the five on either side. -/
def outsideBar : List (Candle F64) :=
  List.replicate 5 ⟨.fin 1, .fin 2, .fin 1, .fin 1, .fin 1⟩ ++
    ⟨.fin 1, .fin 3, .fin 0, .fin 1, .fin 1⟩ ::
      List.replicate 5 ⟨.fin 1, .fin 2, .fin 1, .fin 1, .fin 1⟩

theorem skeleton_outside_bar :
    (∀ c ∈ outsideBar, (c.high.isFinite = true ∧ c.low.isFinite = true) ∧ c.low ≤ c.high) ∧
      ∃ swings, skeleton outsideBar = some swings ∧ ¬ swings.Pairwise fun a b => a.idx < b.idx := by
  refine ⟨by decide, _, skeleton_eq outsideBar, ?_⟩
  decide

theorem skeleton_wellFormed_outside_bar : ∃ raw swings, findSwings outsideBar = some raw ∧
    skeleton outsideBar = some swings ∧ (swings.map SwingPoint.kind).IsChain (· ≠ ·) ∧
      swings.Pairwise Before ∧ (∀ sp ∈ swings, StandsOut (· < ·) outsideBar sp) ∧
      List.Forall₂ (Runs.Best better) (raw.splitBy fun a b => decide (a.kind = b.kind)) swings :=
  skeleton_wellFormed outsideBar (by decide)

end AiTrader.QuantCore
