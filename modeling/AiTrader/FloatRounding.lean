import AiTrader.Float
import AiTrader.Library.DyadicRounding

/-! # Rounding that stays in range

`RoundsBy rnd r`: numbers up to `2 ^ 250` are rounded to the double `r` gives, so operations on
moderate numbers do not overflow. -/

namespace AiTrader.F64

structure RoundsBy (rnd : ℚ → F64) (r : ℚ → ℚ) : Prop where
  rounding : DyadicRounding r
  rnd : ∀ q, |q| ≤ 2 ^ 250 → rnd q = .fin (r q)

variable {rnd : ℚ → F64} {r : ℚ → ℚ} {p q : ℚ} {j : ℕ}

namespace RoundsBy

theorem exact : RoundsBy .fin id := ⟨.id, fun _ _ => rfl⟩

theorem rnd_pow (h : RoundsBy rnd r) (hj : j ≤ 250) (hq : |q| ≤ 2 ^ j) : rnd q = .fin (r q) :=
  h.rnd q (hq.trans (pow_le_pow_right₀ one_le_two hj))

theorem rnd_small (h : RoundsBy rnd r) (hq : |q| ≤ 2 ^ 20) : rnd q = .fin (r q) :=
  h.rnd_pow (by norm_num) hq

theorem of_near (h : RoundsBy rnd r) (hq : |q - p| ≤ 2 ^ 33) (hp : |p| ≤ 2 ^ 33) :
    rnd q = .fin (r q) := by
  refine h.rnd_pow (j := 34) (by norm_num) ?_
  have htri := abs_add_le (q - p) p
  rw [sub_add_cancel] at htri
  norm_num at htri hq hp ⊢
  linarith

end RoundsBy

/-- A number above 0, up to 1. -/
def IsFraction (x : F64) : Prop := ∃ q : ℚ, x = .fin q ∧ 0 < q ∧ q ≤ 1

theorem isFraction_one : IsFraction (.fin 1) := ⟨1, rfl, one_pos, le_rfl⟩

theorem RoundsBy.isFraction (h : RoundsBy rnd r) (hq : 1 / 4 ≤ q) (hq' : q ≤ 1) :
    IsFraction (rnd q) := by
  have hsmall : |q| ≤ 2 ^ 20 := by
    rw [abs_of_nonneg (by linarith)]
    exact hq'.trans (by norm_num)
  have hlow : (1 : ℚ) / 4 ≤ r q := by
    have hd := h.rounding.dyadic_le (k := 1) (j := 2) (q := q) (by norm_num) (by norm_num)
      (by norm_num; linarith)
    norm_num at hd
    linarith
  have hhigh := h.rounding.mono hq'
  rw [h.rounding.one] at hhigh
  exact ⟨r q, h.rnd_small hsmall, by linarith, hhigh⟩

end AiTrader.F64
