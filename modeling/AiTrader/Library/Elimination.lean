import Mathlib.Algebra.BigOperators.Fin
import Mathlib.Algebra.Order.BigOperators.Ring.Finset
import Mathlib.Algebra.Order.Field.Basic
import Mathlib.Data.Matrix.Mul
import Mathlib.Order.Interval.Finset.Fin
import Mathlib.Tactic.LinearCombination

/-! # Gaussian elimination with partial pivoting

A square system is brought to triangular form column by column and solved from the last row up.
A column whose largest entry is below a threshold ends the elimination without a result.

* `solve_spec`: a result solves the system, and no other vector does.
* `exists_solve`: a matrix that is bounded below by at least the threshold is never given up. -/

namespace AiTrader.Elimination

theorem foldlM_finRange {σ : Type*} {n : ℕ} {f : σ → Fin n → Option σ} {P : ℕ → σ → Prop}
    (hstep : ∀ (i : Fin n) s s', P i s → f s i = some s' → P (i + 1) s') {s u : σ} (h : P 0 s)
    (hu : (List.finRange n).foldlM f s = some u) : P n u := by
  induction n generalizing P s with
  | zero =>
      cases hu
      exact h
  | succ n ih =>
      rw [List.finRange_succ, List.foldlM_cons] at hu
      obtain ⟨s', hs', hu⟩ := Option.bind_eq_some_iff.mp hu
      rw [List.foldlM_map] at hu
      exact @ih (fun s i => f s i.succ) (fun k => P (k + 1))
        (fun i t t' ht htt' => hstep i.succ t t' ht htt') s' (hstep 0 s s' h hs') hu

theorem exists_foldlM_finRange {σ : Type*} {n : ℕ} {f : σ → Fin n → Option σ} {P : ℕ → σ → Prop}
    (hstep : ∀ (i : Fin n) s, P i s → ∃ s', f s i = some s' ∧ P (i + 1) s') {s : σ} (h : P 0 s) :
    ∃ u, (List.finRange n).foldlM f s = some u ∧ P n u := by
  induction n generalizing P s with
  | zero => exact ⟨s, rfl, h⟩
  | succ n ih =>
      obtain ⟨s', hs', h'⟩ := hstep 0 s h
      obtain ⟨u, hu, hPu⟩ := @ih (fun s i => f s i.succ) (fun k => P (k + 1))
        (fun i t ht => hstep i.succ t ht) s' h'
      refine ⟨u, ?_, hPu⟩
      rw [List.finRange_succ, List.foldlM_cons, hs', Option.bind_eq_bind, Option.bind_some,
        List.foldlM_map]
      exact hu

/-- The search for the index with the largest value; of several the first. -/
theorem foldl_max {ι K : Type*} [LinearOrder K] (f : ι → K) {rs : List ι} {m p : ι}
    (h : rs.foldl (fun m r => if f m < f r then r else m) m = p) :
    (p = m ∨ p ∈ rs) ∧ f m ≤ f p ∧ ∀ r ∈ rs, f r ≤ f p := by
  induction rs generalizing m with
  | nil => exact ⟨.inl h.symm, h ▸ le_rfl, List.forall_mem_nil _⟩
  | cons r rs ih =>
      rw [List.forall_mem_cons]
      rw [List.foldl_cons] at h
      by_cases hlt : f m < f r
      · rw [if_pos hlt] at h
        obtain ⟨hp, hr, hrs⟩ := ih h
        have hmem : p ∈ r :: rs := by
          rcases hp with rfl | hp
          · exact List.mem_cons_self
          · exact List.mem_cons_of_mem r hp
        exact ⟨.inr hmem, hlt.le.trans hr, hr, hrs⟩
      · rw [if_neg hlt] at h
        obtain ⟨hp, hm, hrs⟩ := ih h
        exact ⟨hp.imp_right (List.mem_cons_of_mem r), hm, (not_lt.mp hlt).trans hm, hrs⟩

/-- A square system of equations. -/
structure System (n : ℕ) (K : Type*) where
  a : Fin n → Fin n → K
  b : Fin n → K

namespace System

section
variable {K : Type*} [Field K] {n : ℕ}

/-! ### The algorithm -/

def swapRows (S : System n K) (i m : Fin n) : System n K where
  a r := S.a (Equiv.swap i m r)
  b r := S.b (Equiv.swap i m r)

/-- Column `i` is cleared below row `i`. -/
def eliminate (S : System n K) (i : Fin n) : System n K where
  a r c := if i < r ∧ i ≤ c then S.a r c - S.a r i / S.a i i * S.a i c else S.a r c
  b r := if i < r then S.b r - S.a r i / S.a i i * S.b i else S.b r

/-- The unknown of row `i`, from those after it. -/
def substitute (S : System n K) (x : Fin n → K) (i : Fin n) : Fin n → K :=
  Function.update x i ((S.b i - ∑ j ∈ Finset.Ioi i, S.a i j * x j) / S.a i i)

def backSubstitute (S : System n K) : Fin n → K :=
  (List.finRange n).reverse.foldl S.substitute fun _ => 0

variable [LinearOrder K]

/-- The row from `i` on with the largest entry in column `i`; of several the first. -/
def pivotRow (S : System n K) (i : Fin n) : Fin n :=
  ((List.finRange n).filter (i < ·)).foldl
    (fun maxRow r => if |S.a maxRow i| < |S.a r i| then r else maxRow) i

/-- One column.  `none`: it has no pivot. -/
def stage (ε : K) (S : System n K) (i : Fin n) : Option (System n K) :=
  let maxRow := S.pivotRow i
  if |S.a maxRow i| < ε then none else some ((S.swapRows i maxRow).eliminate i)

/-- The triangular form. -/
def triangular (ε : K) (S : System n K) : Option (System n K) :=
  (List.finRange n).foldlM (stage ε) S

/-- Elimination, then substitution. -/
def solve (ε : K) (S : System n K) : Option (Fin n → K) := (S.triangular ε).map backSubstitute

end

open scoped Matrix

/-! ### Rows -/

section
variable {K : Type*} [Field K] {n : ℕ} {S : System n K} {i : Fin n} {t : K} {x : Fin n → K}

/-- `x` solves the system with `t` times its right-hand side: `0` for the kernel. -/
def Holds (S : System n K) (t : K) (x : Fin n → K) : Prop := ∀ r, S.a r ⬝ᵥ x = t * S.b r

/-- The first `k` columns have a pivot and nothing below it. -/
structure Cleared (k : ℕ) (S : System n K) : Prop where
  pivot : ∀ r : Fin n, r.1 < k → S.a r r ≠ 0
  below : ∀ r c : Fin n, c.1 < k → c < r → S.a r c = 0

theorem cleared_zero (S : System n K) : S.Cleared 0 :=
  ⟨fun _ h => absurd h (Nat.not_lt_zero _), fun _ _ h => absurd h (Nat.not_lt_zero _)⟩

theorem holds_swapRows (i m : Fin n) : (S.swapRows i m).Holds t x ↔ S.Holds t x :=
  (Equiv.swap i m).forall_congr fun _ => Iff.rfl

theorem swap_eq_of_lt {m r : Fin n} (hm : i ≤ m) (hr : r < i) : Equiv.swap i m r = r :=
  Equiv.swap_apply_of_ne_of_ne hr.ne (hr.trans_le hm).ne

theorem lt_swap {m r c : Fin n} (hm : i ≤ m) (hc : c < i) (hr : c < r) : c < Equiv.swap i m r := by
  rw [Equiv.swap_apply_def]
  split
  · exact hc.trans_le hm
  · split
    · exact hc
    · exact hr

theorem Cleared.swapRows (h : S.Cleared i) {m : Fin n} (hm : i ≤ m) :
    (S.swapRows i m).Cleared i where
  pivot r hr := by
    show S.a (Equiv.swap i m r) r ≠ 0
    rw [swap_eq_of_lt hm hr]
    exact h.pivot r hr
  below r c hc hr := h.below _ c hc (lt_swap hm hc hr)

theorem eliminate_a (hrow : ∀ c < i, S.a i c = 0) (r : Fin n) :
    (S.eliminate i).a r = if i < r then S.a r - (S.a r i / S.a i i) • S.a i else S.a r := by
  funext c
  show (if i < r ∧ i ≤ c then _ else _) = _
  by_cases hr : i < r
  · rw [if_pos hr, Pi.sub_apply, Pi.smul_apply, smul_eq_mul]
    by_cases hc : i ≤ c
    · rw [if_pos ⟨hr, hc⟩]
    · rw [if_neg fun h => hc h.2, hrow c (not_le.mp hc), mul_zero, sub_zero]
  · rw [if_neg hr, if_neg fun h => hr h.1]

theorem eliminate_dotProduct (hrow : ∀ c < i, S.a i c = 0) (r : Fin n) (x : Fin n → K) :
    (S.eliminate i).a r ⬝ᵥ x =
      if i < r then S.a r ⬝ᵥ x - S.a r i / S.a i i * (S.a i ⬝ᵥ x) else S.a r ⬝ᵥ x := by
  rw [eliminate_a hrow]
  split
  · rw [sub_dotProduct, smul_dotProduct, smul_eq_mul]
  · rfl

theorem eliminate_b (r : Fin n) :
    (S.eliminate i).b r = if i < r then S.b r - S.a r i / S.a i i * S.b i else S.b r := rfl

theorem holds_eliminate (hrow : ∀ c < i, S.a i c = 0) :
    (S.eliminate i).Holds t x ↔ S.Holds t x := by
  have hrows (r : Fin n) := eliminate_dotProduct hrow r x
  refine ⟨fun h r => ?_, fun h r => ?_⟩
  · have hi := h i
    have hr := h r
    rw [hrows, eliminate_b, if_neg (lt_irrefl i), if_neg (lt_irrefl i)] at hi
    rw [hrows, eliminate_b, hi] at hr
    by_cases hir : i < r
    · rw [if_pos hir, if_pos hir] at hr
      linear_combination hr
    · rwa [if_neg hir, if_neg hir] at hr
  · rw [hrows, eliminate_b, h r, h i]
    by_cases hir : i < r
    · rw [if_pos hir, if_pos hir]
      ring
    · rw [if_neg hir, if_neg hir]

theorem Cleared.eliminate (h : S.Cleared i) (hpivot : S.a i i ≠ 0) :
    (S.eliminate i).Cleared (i + 1) where
  pivot r hr := by
    have hle : r ≤ i := Nat.lt_succ_iff.mp hr
    show (if i < r ∧ i ≤ r then _ else _) ≠ 0
    rw [if_neg fun hlt => hle.not_gt hlt.1]
    rcases hle.eq_or_lt with rfl | hlt
    · exact hpivot
    · exact h.pivot r hlt
  below r c hc hr := by
    show (if i < r ∧ i ≤ c then _ else _) = 0
    have hle : c ≤ i := Nat.lt_succ_iff.mp hc
    rcases hle.eq_or_lt with rfl | hlt
    · rw [if_pos ⟨hr, le_rfl⟩, div_mul_cancel₀ _ hpivot, sub_self]
    · rw [if_neg fun hge => hge.2.not_gt hlt]
      exact h.below r c hlt hr

/-! ### Substitution -/

theorem dotProduct_eq {i : Fin n} (hrow : ∀ c < i, S.a i c = 0) (x : Fin n → K) :
    S.a i ⬝ᵥ x = S.a i i * x i + ∑ j ∈ Finset.Ioi i, S.a i j * x j := by
  have hsum : ∑ j ∈ Finset.Ici i, S.a i j * x j = ∑ j, S.a i j * x j := by
    refine Finset.sum_subset (Finset.subset_univ _) fun j _ hj => ?_
    rw [hrow j (by simpa using hj), zero_mul]
  rw [dotProduct, ← hsum, ← Finset.Ioi_insert, Finset.sum_insert (by simp)]

/-- Substitution from the last of some rows up solves them and leaves the other unknowns. -/
theorem foldl_substitute {rs : List (Fin n)} (hdesc : rs.Pairwise (· > ·))
    (hpivot : ∀ r ∈ rs, S.a r r ≠ 0) (hbelow : ∀ r ∈ rs, ∀ c < r, S.a r c = 0)
    (x : Fin n → K) :
    (∀ c, c ∉ rs → rs.foldl S.substitute x c = x c) ∧
      ∀ r ∈ rs, S.a r ⬝ᵥ rs.foldl S.substitute x = S.b r := by
  induction rs generalizing x with
  | nil => exact ⟨fun c _ => rfl, List.forall_mem_nil _⟩
  | cons i rs ih =>
      obtain ⟨hlater, hdesc⟩ := List.pairwise_cons.mp hdesc
      rw [List.forall_mem_cons] at hpivot hbelow
      obtain ⟨hother, hrows⟩ := ih hdesc hpivot.2 hbelow.2 (S.substitute x i)
      rw [List.foldl_cons]
      refine ⟨fun c hc => ?_, List.forall_mem_cons.mpr ⟨?_, hrows⟩⟩
      · rw [hother c fun h => hc (List.mem_cons_of_mem i h), substitute,
          Function.update_of_ne (List.ne_of_not_mem_cons hc)]
      · have hi : i ∉ rs := fun h => lt_irrefl i (hlater i h)
        have hsum : ∑ j ∈ Finset.Ioi i, S.a i j * rs.foldl S.substitute (S.substitute x i) j =
            ∑ j ∈ Finset.Ioi i, S.a i j * x j := by
          refine Finset.sum_congr rfl fun j hj => ?_
          have hij : i < j := Finset.mem_Ioi.mp hj
          rw [hother j fun h => (hlater j h).not_gt hij, substitute,
            Function.update_of_ne hij.ne']
        rw [dotProduct_eq hbelow.1, hsum, hother i hi, substitute, Function.update_self,
          mul_div_cancel₀ _ hpivot.1, sub_add_cancel]

theorem holds_backSubstitute (h : S.Cleared n) : S.Holds 1 S.backSubstitute := by
  intro r
  rw [one_mul]
  have hdesc : (List.finRange n).reverse.Pairwise (· > ·) :=
    List.pairwise_reverse.mpr (List.pairwise_lt_finRange n)
  exact (foldl_substitute hdesc (fun r _ => h.pivot r r.2) (fun r _ c hc => h.below r c c.2 hc)
    _).2 r (List.mem_reverse.mpr (List.mem_finRange r))

/-- A triangular system has no kernel. -/
theorem Cleared.eq_zero (h : S.Cleared n) (hx : S.Holds 0 x) : x = 0 := by
  -- From the last unknown down: with those after it zero, its row leaves its pivot alone.
  have hzero : ∀ c, x c = 0 := by
    intro c
    induction c using WellFoundedGT.induction with
    | ind c ih =>
        have hrow := hx c
        rw [dotProduct_eq (fun d hd => h.below c d d.2 hd), zero_mul,
          Finset.sum_eq_zero (fun j hj => by rw [ih j (Finset.mem_Ioi.mp hj), mul_zero]),
          add_zero] at hrow
        exact (mul_eq_zero.mp hrow).resolve_left (h.pivot c c.2)
  exact funext hzero

end

/-! ### Pivots -/

section
variable {K : Type*} [Field K] [LinearOrder K] {n : ℕ} {S : System n K} {i : Fin n} {κ ε : K}

theorem le_pivotRow (S : System n K) (i : Fin n) : i ≤ S.pivotRow i := by
  rcases (foldl_max (fun r => |S.a r i|) (show _ = S.pivotRow i from rfl)).1 with h | h
  · exact h.ge
  · exact (of_decide_eq_true (List.mem_filter.mp h).2).le

theorem abs_le_pivot (S : System n K) {r : Fin n} (h : i ≤ r) :
    |S.a r i| ≤ |S.a (S.pivotRow i) i| := by
  obtain ⟨-, hfirst, hrest⟩ :=
    foldl_max (fun r => |S.a r i|) (show _ = S.pivotRow i from rfl)
  rcases h.eq_or_lt with rfl | h
  · exact hfirst
  · exact hrest r (List.mem_filter.mpr ⟨List.mem_finRange r, decide_eq_true h⟩)

/-- A vector on which the first `k` rows vanish is not made small by the others. -/
def BoundedBelow (κ : K) (k : ℕ) (S : System n K) : Prop :=
  ∀ x, (∀ r : Fin n, r.1 < k → S.a r ⬝ᵥ x = 0) → ∀ c, ∃ r, κ * |x c| ≤ |S.a r ⬝ᵥ x|

theorem BoundedBelow.swapRows (h : S.BoundedBelow κ i) {m : Fin n} (hm : i ≤ m) :
    (S.swapRows i m).BoundedBelow κ i := by
  intro x hx c
  obtain ⟨r, hr⟩ := h x (fun r hr => by
    have hzero := hx r hr
    dsimp only [System.swapRows] at hzero
    rwa [swap_eq_of_lt hm hr] at hzero) c
  refine ⟨Equiv.swap i m r, ?_⟩
  show _ ≤ |S.a (Equiv.swap i m (Equiv.swap i m r)) ⬝ᵥ x|
  rwa [Equiv.swap_apply_self]

theorem BoundedBelow.eliminate (h : S.BoundedBelow κ i)
    (hrow : ∀ c < i, S.a i c = 0) : (S.eliminate i).BoundedBelow κ (i + 1) := by
  intro x hx c
  -- The rows up to `i` are as before, so that row `i` vanishes and takes nothing away.
  have hold : ∀ r : Fin n, r.1 < i + 1 → S.a r ⬝ᵥ x = 0 := by
    intro r hr
    have hzero := hx r hr
    have hle : r ≤ i := Nat.lt_succ_iff.mp hr
    rwa [eliminate_dotProduct hrow, if_neg hle.not_gt] at hzero
  obtain ⟨r, hr⟩ := h x (fun r hr => hold r (hr.trans (Nat.lt_succ_self _))) c
  refine ⟨r, ?_⟩
  rw [eliminate_dotProduct hrow, hold i (Nat.lt_succ_self _), mul_zero, sub_zero, ite_self]
  exact hr

variable [IsStrictOrderedRing K]

theorem stage_spec {S' : System n K} (hε : 0 < ε) (h : S.Cleared i) (hS : stage ε S i = some S') :
    S'.Cleared (i + 1) ∧ (∀ t x, S'.Holds t x ↔ S.Holds t x) ∧
      (S.BoundedBelow κ i → S'.BoundedBelow κ (i + 1)) := by
  unfold stage at hS
  dsimp only at hS
  split at hS
  · cases hS
  rename_i hlarge
  obtain rfl := Option.some.inj hS
  have hle := S.le_pivotRow i
  have hswap := h.swapRows hle
  have hrow : ∀ c < i, (S.swapRows i (S.pivotRow i)).a i c = 0 :=
    fun c hc => hswap.below i c hc hc
  have hpivot : (S.swapRows i (S.pivotRow i)).a i i ≠ 0 := by
    show S.a (Equiv.swap i (S.pivotRow i) i) i ≠ 0
    rw [Equiv.swap_apply_left]
    exact abs_pos.mp (hε.trans_le (not_lt.mp hlarge))
  exact ⟨hswap.eliminate hpivot, fun t x => (holds_eliminate hrow).trans (holds_swapRows _ _),
    fun hbound => (hbound.swapRows hle).eliminate hrow⟩

/-- **What elimination finds is the solution**, and it is the only one. -/
theorem solve_spec {x : Fin n → K} (hε : 0 < ε) (h : S.solve ε = some x) :
    S.Holds 1 x ∧ ∀ z, S.Holds 0 z → z = 0 := by
  obtain ⟨U, hU, rfl⟩ := Option.map_eq_some_iff.mp h
  obtain ⟨hcleared, hholds⟩ : U.Cleared n ∧ ∀ t x, U.Holds t x ↔ S.Holds t x := by
    refine foldlM_finRange (P := fun k T => T.Cleared k ∧ ∀ t x, T.Holds t x ↔ S.Holds t x)
      (fun i T T' hT hT' => ?_) ⟨S.cleared_zero, fun t x => Iff.rfl⟩ hU
    obtain ⟨hcleared, hholds, -⟩ := @stage_spec K _ _ n T i 0 ε _ T' hε hT.1 hT'
    exact ⟨hcleared, fun t x => (hholds t x).trans (hT.2 t x)⟩
  exact ⟨(hholds 1 _).mp (holds_backSubstitute hcleared),
    fun z hz => hcleared.eq_zero ((hholds 0 z).mpr hz)⟩

/-- In a matrix that is bounded below every pivot is large. -/
theorem BoundedBelow.le_pivot (hbound : S.BoundedBelow κ i) (h : S.Cleared i) :
    κ ≤ |S.a (S.pivotRow i) i| := by
  -- The rows before `i` are solved for zero, with unknown `i` one and those after it zero.
  let rs := ((List.finRange n).filter (· < i)).reverse
  have hmem {r : Fin n} : r ∈ rs ↔ r < i := by
    simp [rs]
  have hdesc : rs.Pairwise (· > ·) :=
    List.pairwise_reverse.mpr ((List.pairwise_lt_finRange n).filter _)
  obtain ⟨hother, hrows⟩ := foldl_substitute (S := ⟨S.a, fun _ => 0⟩) hdesc
    (fun r hr => h.pivot r (hmem.mp hr))
    (fun r hr c hc => h.below r c (hc.trans (hmem.mp hr)) hc) (Pi.single i 1)
  generalize List.foldl _ _ rs = x at hother hrows
  have hxi : x i = 1 := by
    rw [hother i fun hi => lt_irrefl i (hmem.mp hi), Pi.single_eq_same]
  obtain ⟨r, hr⟩ := hbound x (fun r hr => hrows r (hmem.mpr hr)) i
  rw [hxi, abs_one, mul_one] at hr
  rcases lt_or_ge r i with hri | hri
  · rw [hrows r (hmem.mpr hri), abs_zero] at hr
    exact hr.trans (abs_nonneg _)
  · have hrow : S.a r ⬝ᵥ x = S.a r i := by
      rw [dotProduct, Finset.sum_eq_single i, hxi, mul_one]
      · intro c _ hc
        rcases lt_or_gt_of_ne hc with hlt | hgt
        · rw [h.below r c hlt (hlt.trans_le hri), zero_mul]
        · rw [hother c fun hi => hgt.not_gt (hmem.mp hi), Pi.single_eq_of_ne hc, mul_zero]
      · exact fun hi => absurd (Finset.mem_univ i) hi
    rw [hrow] at hr
    exact hr.trans (S.abs_le_pivot hri)

/-- **No pivot is missed**: a matrix that is bounded below by the threshold is solved. -/
theorem exists_solve (hε : 0 < ε) (hκ : ε ≤ κ) (hbound : S.BoundedBelow κ 0) :
    ∃ x, S.solve ε = some x := by
  obtain ⟨U, hU, -⟩ : ∃ U, S.triangular ε = some U ∧ U.Cleared n ∧ U.BoundedBelow κ n := by
    refine exists_foldlM_finRange
      (P := fun k (T : System n K) => T.Cleared k ∧ T.BoundedBelow κ k)
      (fun i T hT => ?_) ⟨S.cleared_zero, hbound⟩
    have hstage : stage ε T i = some ((T.swapRows i (T.pivotRow i)).eliminate i) :=
      if_neg (not_lt.mpr (hκ.trans (hT.2.le_pivot hT.1)))
    obtain ⟨hcleared, -, hkept⟩ := @stage_spec K _ _ n T i κ ε _ _ hε hT.1 hstage
    exact ⟨_, hstage, hcleared, hkept hT.2⟩
  exact ⟨U.backSubstitute, by rw [solve, hU, Option.map_some]⟩

/-- A coercive form bounds its matrix below. -/
theorem boundedBelow_of_coercive {γ : K} (hγ : 0 < γ)
    (h : ∀ x c, γ * x c ^ 2 ≤ ∑ r, x r * (S.a r ⬝ᵥ x)) : S.BoundedBelow (γ / n) 0 := by
  intro x _ c
  have : Nonempty (Fin n) := ⟨c⟩
  obtain ⟨m, -, hm⟩ := Finset.exists_max_image Finset.univ (fun r => |x r|) Finset.univ_nonempty
  obtain ⟨r, -, hr⟩ :=
    Finset.exists_max_image Finset.univ (fun r => |S.a r ⬝ᵥ x|) Finset.univ_nonempty
  have hn : 0 < (n : K) := Nat.cast_pos.mpr (Fin.pos c)
  refine ⟨r, (mul_le_mul_of_nonneg_left (hm c (Finset.mem_univ c))
    (div_pos hγ hn).le).trans ?_⟩
  have hsum : ∑ r, x r * (S.a r ⬝ᵥ x) ≤ n * (|x m| * |S.a r ⬝ᵥ x|) := by
    have hcard := Finset.sum_le_card_nsmul Finset.univ (fun q => x q * (S.a q ⬝ᵥ x))
      (|x m| * |S.a r ⬝ᵥ x|) fun q _ => by
        refine (le_abs_self _).trans ?_
        rw [abs_mul]
        exact mul_le_mul (hm q (Finset.mem_univ q)) (hr q (Finset.mem_univ q)) (abs_nonneg _)
          (abs_nonneg _)
    rwa [Finset.card_univ, Fintype.card_fin, nsmul_eq_mul] at hcard
  have hform : γ * |x m| ^ 2 ≤ n * (|x m| * |S.a r ⬝ᵥ x|) := by
    rw [sq_abs]
    exact (h x m).trans hsum
  rcases (abs_nonneg (x m)).eq_or_lt with hzero | hpos
  · rw [← hzero, mul_zero]
    exact abs_nonneg _
  · rw [div_mul_eq_mul_div, div_le_iff₀ hn]
    refine le_of_mul_le_mul_left ?_ hpos
    calc |x m| * (γ * |x m|) = γ * |x m| ^ 2 := by ring
      _ ≤ n * (|x m| * |S.a r ⬝ᵥ x|) := hform
      _ = |x m| * (|S.a r ⬝ᵥ x| * n) := by ring

end

end System

end AiTrader.Elimination
