import Mathlib.Algebra.Order.Field.Basic
import Mathlib.Order.Interval.Set.Basic
import Mathlib.Order.Monotone.Defs
import Mathlib.Tactic.Linarith
import Mathlib.Tactic.Ring

/-! # Bisection

Solving `f x = target` for an increasing `f` by halving an interval a number of times, with an
early return when the value at the midpoint is close enough.  The answer stays in the interval, and
it is either close in value or within half of the last interval of the solution. -/

namespace AiTrader.Bisection

variable {𝕜 : Type*} [Field 𝕜] [LinearOrder 𝕜]

/-- At most `n` halvings of `[lo, hi]`. -/
def search (f : 𝕜 → 𝕜) (target tolerance : 𝕜) : ℕ → 𝕜 → 𝕜 → 𝕜
  | 0, lo, hi => (lo + hi) / 2
  | n + 1, lo, hi =>
      let mid := (lo + hi) / 2
      if |f mid - target| ≤ tolerance then mid
      else if f mid < target then search f target tolerance n mid hi
      else search f target tolerance n lo mid

variable [IsStrictOrderedRing 𝕜] {f : 𝕜 → 𝕜} {lo hi x : 𝕜}

theorem midpoint_mem (h : lo ≤ hi) : (lo + hi) / 2 ∈ Set.Icc lo hi :=
  ⟨by linarith, by linarith⟩

theorem search_mem (f : 𝕜 → 𝕜) (target tolerance : 𝕜) (n : ℕ) (h : lo ≤ hi) :
    search f target tolerance n lo hi ∈ Set.Icc lo hi := by
  induction n generalizing lo hi with
  | zero => exact midpoint_mem h
  | succ n ih =>
      obtain ⟨hlo, hhi⟩ := midpoint_mem h
      rw [search]
      split
      · exact ⟨hlo, hhi⟩
      · split
        · obtain ⟨hleft, hright⟩ := ih hhi
          exact ⟨hlo.trans hleft, hright⟩
        · obtain ⟨hleft, hright⟩ := ih hlo
          exact ⟨hleft, hright.trans hhi⟩

/-- The answer is close in value, or in place.  Induction on the number of halvings; the solution
stays inside the interval. -/
theorem search_spec (tolerance : 𝕜) (n : ℕ) (hmono : StrictMonoOn f (Set.Icc lo hi))
    (hx : x ∈ Set.Icc lo hi) :
    |f (search f (f x) tolerance n lo hi) - f x| ≤ tolerance ∨
      |search f (f x) tolerance n lo hi - x| ≤ (hi - lo) / 2 ^ (n + 1) := by
  have hle : lo ≤ hi := hx.1.trans hx.2
  have hmid := midpoint_mem hle
  induction n generalizing lo hi with
  | zero =>
      refine .inr ?_
      rw [search, zero_add, pow_one, abs_le]
      constructor
      · linarith [hx.2]
      · linarith [hx.1]
  | succ n ih =>
      rw [search]
      split
      · rename_i hclose
        exact .inl hclose
      · -- half of the interval, one halving fewer
        have hwidth : ∀ w : 𝕜, w / 2 / 2 ^ (n + 1) = w / 2 ^ (n + 1 + 1) := by
          intro w
          rw [div_div, pow_succ 2 (n + 1), mul_comm]
        split
        · rename_i hlow
          have hside : (lo + hi) / 2 ≤ x := le_of_lt ((hmono.lt_iff_lt hmid hx).mp hlow)
          have hrec := ih (hmono.mono (Set.Icc_subset_Icc_left hmid.1)) ⟨hside, hx.2⟩ hmid.2
            (midpoint_mem hmid.2)
          rwa [show hi - (lo + hi) / 2 = (hi - lo) / 2 by ring, hwidth] at hrec
        · rename_i hhigh
          have hside : x ≤ (lo + hi) / 2 := (hmono.le_iff_le hx hmid).mp (not_lt.mp hhigh)
          have hrec := ih (hmono.mono (Set.Icc_subset_Icc_right hmid.2)) ⟨hx.1, hside⟩ hmid.1
            (midpoint_mem hmid.1)
          rwa [show (lo + hi) / 2 - lo = (hi - lo) / 2 by ring, hwidth] at hrec

end AiTrader.Bisection
