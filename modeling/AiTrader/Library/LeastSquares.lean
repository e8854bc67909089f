import AiTrader.Library.Elimination
import Mathlib.Algebra.Polynomial.BigOperators
import Mathlib.Algebra.Polynomial.Eval.Degree

/-! # Weighted least squares

The polynomial of degree at most `d` that fits weighted samples best.  Its coefficients solve the
normal equations (`isBestFit_iff`): the error of any other polynomial is its error and the weighted
squares of the difference (`error_eq`). -/

namespace AiTrader.LeastSquares

open Polynomial Elimination

open scoped Matrix

structure Sample (K : Type*) where
  weight : K
  x : K
  y : K

section
variable {K : Type*} [Field K]

/-- The sum of `f` over the samples, with their weights. -/
def weighted (samples : List (Sample K)) (f : Sample K → K) : K :=
  (samples.map fun s => s.weight * f s).sum

/-- The normal equations for the coefficients of degree `0` to `d`. -/
def normalEquations (d : ℕ) (samples : List (Sample K)) : System (d + 1) K where
  a r c := weighted samples fun s => s.x ^ (r + c : ℕ)
  b r := weighted samples fun s => s.x ^ (r : ℕ) * s.y

/-- The weighted sum of the squared residuals. -/
noncomputable def error (samples : List (Sample K)) (p : K[X]) : K :=
  weighted samples fun s => (p.eval s.x - s.y) ^ 2

/-- The polynomial with these coefficients. -/
noncomputable def ofCoeffs {d : ℕ} (a : Fin (d + 1) → K) : K[X] := ∑ r, C (a r) * X ^ (r : ℕ)

variable {samples : List (Sample K)} {d : ℕ} {a b : Fin (d + 1) → K} {p q : K[X]}

/-! ### Sums over the samples -/

theorem weighted_add (f g : Sample K → K) :
    weighted samples (fun s => f s + g s) = weighted samples f + weighted samples g := by
  simp only [weighted, mul_add, List.sum_map_add]

theorem weighted_mul (t : K) (f : Sample K → K) :
    weighted samples (fun s => t * f s) = t * weighted samples f := by
  simp only [weighted, mul_left_comm, List.sum_map_mul_left]

theorem weighted_sum {ι : Type*} (rs : Finset ι) (f : ι → Sample K → K) :
    weighted samples (fun s => ∑ r ∈ rs, f r s) = ∑ r ∈ rs, weighted samples (f r) := by
  induction samples with
  | nil => simp [weighted]
  | cons s samples ih =>
      simp only [weighted, List.map_cons, List.sum_cons] at ih ⊢
      rw [ih, Finset.mul_sum, Finset.sum_add_distrib]

/-! ### Polynomials of bounded degree -/

theorem eval_ofCoeffs (a : Fin (d + 1) → K) (x : K) :
    (ofCoeffs a).eval x = ∑ r, a r * x ^ (r : ℕ) := by
  simp [ofCoeffs, eval_finsetSum]

theorem coeff_ofCoeffs (a : Fin (d + 1) → K) (r : Fin (d + 1)) : (ofCoeffs a).coeff r = a r := by
  simp [ofCoeffs, coeff_C_mul, coeff_X_pow, Fin.val_inj]

theorem natDegree_ofCoeffs (a : Fin (d + 1) → K) : (ofCoeffs a).natDegree ≤ d :=
  natDegree_sum_le_of_forall_le _ _ fun r _ =>
    (natDegree_C_mul_X_pow_le _ _).trans (Nat.lt_succ_iff.mp r.2)

theorem ofCoeffs_coeff (h : p.natDegree ≤ d) : ofCoeffs (fun r : Fin (d + 1) => p.coeff r) = p := by
  refine Polynomial.ext fun k => ?_
  rcases lt_or_ge k (d + 1) with hk | hk
  · exact coeff_ofCoeffs _ ⟨k, hk⟩
  · rw [coeff_eq_zero_of_natDegree_lt ((natDegree_ofCoeffs _).trans_lt hk),
      coeff_eq_zero_of_natDegree_lt (h.trans_lt hk)]

/-! ### The normal equations -/

theorem normalEquations_dotProduct (a : Fin (d + 1) → K) (r : Fin (d + 1)) :
    (normalEquations d samples).a r ⬝ᵥ a =
      weighted samples fun s => s.x ^ (r : ℕ) * (ofCoeffs a).eval s.x := by
  simp only [eval_ofCoeffs, Finset.mul_sum]
  rw [weighted_sum, dotProduct]
  refine Finset.sum_congr rfl fun c _ => ?_
  rw [normalEquations, mul_comm, ← weighted_mul]
  congr 1
  funext s
  ring

/-- The form of the normal equations is the weighted sum of the squares. -/
theorem form_eq (a : Fin (d + 1) → K) :
    ∑ r, a r * ((normalEquations d samples).a r ⬝ᵥ a) =
      weighted samples fun s => (ofCoeffs a).eval s.x ^ 2 := by
  simp only [normalEquations_dotProduct, ← weighted_mul]
  rw [← weighted_sum]
  congr 1
  funext s
  have hsq : (ofCoeffs a).eval s.x ^ 2 =
      (∑ r, a r * s.x ^ (r : ℕ)) * (ofCoeffs a).eval s.x := by
    rw [← eval_ofCoeffs, sq]
  rw [hsq, Finset.sum_mul]
  refine Finset.sum_congr rfl fun r _ => ?_
  ring

/-- The residuals of a solution are orthogonal to the polynomials. -/
theorem weighted_residual (ha : (normalEquations d samples).Holds 1 a) (hq : q.natDegree ≤ d) :
    weighted samples (fun s => q.eval s.x * ((ofCoeffs a).eval s.x - s.y)) = 0 := by
  rw [← ofCoeffs_coeff hq]
  simp only [eval_ofCoeffs (fun r : Fin (d + 1) => q.coeff r), Finset.sum_mul]
  rw [weighted_sum]
  refine Finset.sum_eq_zero fun r _ => ?_
  have hrow := ha r
  rw [normalEquations_dotProduct, one_mul, normalEquations] at hrow
  dsimp only at hrow
  have hsplit : weighted samples (fun s => s.x ^ (r : ℕ) * ((ofCoeffs a).eval s.x - s.y)) = 0 := by
    rw [← sub_eq_zero] at hrow
    rw [← hrow, sub_eq_add_neg, ← neg_one_mul, ← weighted_mul, ← weighted_add]
    congr 1
    funext s
    ring
  rw [← mul_zero (q.coeff r), ← hsplit, ← weighted_mul]
  congr 1
  funext s
  ring

/-- **The error of another polynomial.** -/
theorem error_eq (ha : (normalEquations d samples).Holds 1 a) (hq : q.natDegree ≤ d) :
    error samples q =
      error samples (ofCoeffs a) + weighted samples fun s => (q - ofCoeffs a).eval s.x ^ 2 := by
  have hdiff : (q - ofCoeffs a).natDegree ≤ d :=
    (natDegree_sub_le _ _).trans (max_le hq (natDegree_ofCoeffs a))
  have hcross := weighted_residual ha hdiff
  rw [← add_zero (error samples (ofCoeffs a) + _), ← mul_zero 2, ← hcross, ← weighted_mul, error,
    error, ← weighted_add, ← weighted_add]
  congr 1
  funext s
  rw [eval_sub]
  ring

variable [LinearOrder K] [IsStrictOrderedRing K]

/-- No polynomial of degree at most `d` has a smaller error. -/
def IsBestFit (d : ℕ) (samples : List (Sample K)) (p : K[X]) : Prop :=
  p.natDegree ≤ d ∧ ∀ q : K[X], q.natDegree ≤ d → error samples p ≤ error samples q

theorem weighted_sq_nonneg (hw : ∀ s ∈ samples, 0 < s.weight) (f : Sample K → K) :
    0 ≤ weighted samples fun s => f s ^ 2 := by
  refine List.sum_nonneg fun t ht => ?_
  obtain ⟨s, hs, rfl⟩ := List.mem_map.mp ht
  exact mul_nonneg (hw s hs).le (sq_nonneg _)

theorem weighted_sq_eq_zero (hw : ∀ s ∈ samples, 0 < s.weight) {f : Sample K → K}
    (h : weighted samples (fun s => f s ^ 2) = 0) : ∀ s ∈ samples, f s = 0 := by
  induction samples with
  | nil => exact List.forall_mem_nil _
  | cons s samples ih =>
      obtain ⟨hws, hw⟩ := List.forall_mem_cons.mp hw
      rw [weighted, List.map_cons, List.sum_cons] at h
      have hrest := weighted_sq_nonneg hw f
      have hfirst := mul_nonneg hws.le (sq_nonneg (f s))
      obtain ⟨hs, hrest⟩ := (add_eq_zero_iff_of_nonneg hfirst hrest).mp h
      rw [List.forall_mem_cons]
      exact ⟨pow_eq_zero_iff two_ne_zero |>.mp ((mul_eq_zero.mp hs).resolve_left hws.ne'),
        ih hw hrest⟩

/-- **The best fit is the solution of the normal equations**, when they have no kernel. -/
theorem isBestFit_iff (hw : ∀ s ∈ samples, 0 < s.weight)
    (ha : (normalEquations d samples).Holds 1 a)
    (hker : ∀ z, (normalEquations d samples).Holds 0 z → z = 0) :
    IsBestFit d samples p ↔ p = ofCoeffs a := by
  constructor
  · rintro ⟨hp, hbest⟩
    have hdiff : (p - ofCoeffs a).natDegree ≤ d :=
      (natDegree_sub_le _ _).trans (max_le hp (natDegree_ofCoeffs a))
    have hle := hbest (ofCoeffs a) (natDegree_ofCoeffs a)
    rw [error_eq ha hp] at hle
    -- The difference vanishes on the samples, so that its coefficients are in the kernel.
    have hzero := weighted_sq_eq_zero hw (le_antisymm (by linarith) (weighted_sq_nonneg hw _))
    have hcoeff := hker (fun r => (p - ofCoeffs a).coeff r) fun r => by
      rw [normalEquations_dotProduct, ofCoeffs_coeff hdiff, zero_mul, weighted]
      refine List.sum_eq_zero fun t ht => ?_
      obtain ⟨s, hs, rfl⟩ := List.mem_map.mp ht
      rw [hzero s hs, mul_zero, mul_zero]
    rw [← sub_eq_zero, ← ofCoeffs_coeff hdiff, hcoeff]
    simp [ofCoeffs]
  · rintro rfl
    refine ⟨natDegree_ofCoeffs a, fun q hq => ?_⟩
    rw [error_eq ha hq]
    exact le_add_of_nonneg_right (weighted_sq_nonneg hw _)

/-- Samples on a polynomial are fitted by it. -/
theorem isBestFit_of_eval (hw : ∀ s ∈ samples, 0 < s.weight) (hp : p.natDegree ≤ d)
    (h : ∀ s ∈ samples, s.y = p.eval s.x) : IsBestFit d samples p := by
  refine ⟨hp, fun q _ => ?_⟩
  have hzero : error samples p = 0 := by
    refine List.sum_eq_zero fun t ht => ?_
    obtain ⟨s, hs, rfl⟩ := List.mem_map.mp ht
    dsimp only
    rw [h s hs, sub_self, zero_pow two_ne_zero, mul_zero]
  rw [hzero]
  exact weighted_sq_nonneg hw _

end

end AiTrader.LeastSquares
