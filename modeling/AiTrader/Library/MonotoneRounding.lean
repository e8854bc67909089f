import Mathlib.Algebra.Order.Field.Basic
import Mathlib.Algebra.Order.Field.Rat
import Mathlib.Tactic.Linarith

/-! # Rounding that keeps the order

What a proof about the range of rounded figures needs of rounding to a double, away from the ends
of the range of doubles: it keeps the order, leaves a double alone, and twice a double is one.

* `ratio_mem`: a part of a whole is computed between 0 and 1.
* `midpoint_mem`: half the sum of two doubles is computed between them. -/

namespace AiTrader

structure MonotoneRounding (rnd : ℚ → ℚ) : Prop where
  mono : Monotone rnd
  zero : rnd 0 = 0
  one : rnd 1 = 1
  idem : ∀ q, rnd (rnd q) = rnd q
  double : ∀ q, rnd (rnd q + rnd q) = rnd q + rnd q

namespace MonotoneRounding

variable {rnd : ℚ → ℚ}

/-- Exact arithmetic. -/
theorem id : MonotoneRounding id := ⟨monotone_id, rfl, rfl, fun _ => rfl, fun _ => rfl⟩

theorem nonneg (h : MonotoneRounding rnd) {q : ℚ} (hq : 0 ≤ q) : 0 ≤ rnd q :=
  h.zero.symm.trans_le (h.mono hq)

theorem le_one (h : MonotoneRounding rnd) {q : ℚ} (hq : q ≤ 1) : rnd q ≤ 1 :=
  (h.mono hq).trans_eq h.one

/-- A part of a whole is computed between 0 and 1. -/
theorem ratio_mem (h : MonotoneRounding rnd) {part whole : ℚ} (hpart : 0 ≤ part)
    (hle : part ≤ whole) (hwhole : 1 ≤ whole) :
    0 ≤ rnd (rnd part / rnd whole) ∧ rnd (rnd part / rnd whole) ≤ 1 := by
  have hpos : 0 < rnd whole := lt_of_lt_of_le one_pos (h.one.symm.trans_le (h.mono hwhole))
  constructor
  · exact h.nonneg (div_nonneg (h.nonneg hpart) hpos.le)
  · exact h.le_one ((div_le_one hpos).mpr (h.mono hle))

/-- Half the sum of two doubles is computed between them. -/
theorem midpoint_mem (h : MonotoneRounding rnd) {a b : ℚ} (ha : rnd a = a) (hb : rnd b = b)
    (hab : a ≤ b) : a ≤ rnd (rnd (a + b) / 2) ∧ rnd (rnd (a + b) / 2) ≤ b := by
  have hdouble : ∀ q, rnd q = q → rnd (q + q) = q + q := fun q hq => by
    have hq' := h.double q
    rwa [hq] at hq'
  have hlow : a + a ≤ rnd (a + b) := (hdouble a ha).symm.trans_le (h.mono (by linarith))
  have hhigh : rnd (a + b) ≤ b + b := (h.mono (by linarith)).trans_eq (hdouble b hb)
  constructor
  · exact ha.symm.trans_le (h.mono (by linarith))
  · exact (h.mono (by linarith)).trans_eq hb

end MonotoneRounding

end AiTrader
