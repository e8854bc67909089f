import Mathlib.Algebra.Order.Field.Rat
import Mathlib.Algebra.Order.Floor.Ring
import Mathlib.Data.Rat.Floor
import Mathlib.Tactic.FieldSimp
import Mathlib.Tactic.Linarith
import Mathlib.Tactic.Positivity

/-! # Rounding

`roundHalfEven` rounds to a whole number, ties to the even one.

`NearestDouble` is what arithmetic on doubles relies on, for numbers of ordinary size: whole numbers
up to `2 ^ 53` are doubles, and rounding changes a number by at most a part in `2 ^ 53` of it.

* `floor_rnd_rnd`: a whole number divided twice, with both quotients rounded, has the floor of the
  exact quotient. -/

namespace AiTrader

/-- The nearest whole number, ties to the even one. -/
def roundHalfEven (q : ℚ) : ℤ :=
  if q - ⌊q⌋ < 1 / 2 then ⌊q⌋
  else if 1 / 2 < q - ⌊q⌋ then ⌊q⌋ + 1
  else if ⌊q⌋ % 2 = 0 then ⌊q⌋ else ⌊q⌋ + 1

theorem roundHalfEven_le {q : ℚ} {c : ℤ} (h : q < c + 1 / 2) : roundHalfEven q ≤ c := by
  have hfloor : ⌊q⌋ ≤ c := by
    rw [← Int.lt_add_one_iff, Int.floor_lt]
    push_cast
    linarith
  unfold roundHalfEven
  split_ifs with hlow hhigh heven
  · exact hfloor
  all_goals
    have hle := Int.floor_le q
  · have hlt : (⌊q⌋ : ℚ) < c := by linarith
    exact_mod_cast hlt
  · exact hfloor
  · have hlt : (⌊q⌋ : ℚ) < c := by linarith
    exact_mod_cast hlt

theorem le_roundHalfEven {q : ℚ} {c : ℤ} (h : (c : ℚ) - 1 / 2 < q) : c ≤ roundHalfEven q := by
  have hfloor : c ≤ ⌊q⌋ + 1 := by
    have hlt := Int.lt_floor_add_one q
    have hcast : (c : ℚ) < ⌊q⌋ + 1 + 1 := by linarith
    exact Int.lt_add_one_iff.mp (by exact_mod_cast hcast)
  unfold roundHalfEven
  split_ifs with hlow hhigh heven
  · have hlt : (c : ℚ) < ⌊q⌋ + 1 := by linarith
    exact Int.lt_add_one_iff.mp (by exact_mod_cast hlt)
  · exact hfloor
  · have hlt : (c : ℚ) < ⌊q⌋ + 1 := by linarith
    exact Int.lt_add_one_iff.mp (by exact_mod_cast hlt)
  · exact hfloor

theorem roundHalfEven_mono {p q : ℚ} (h : p ≤ q) : roundHalfEven p ≤ roundHalfEven q := by
  have hbounds : ∀ x : ℚ, ⌊x⌋ ≤ roundHalfEven x ∧ roundHalfEven x ≤ ⌊x⌋ + 1 := by
    intro x
    unfold roundHalfEven
    split_ifs <;> omega
  rcases (Int.floor_le_floor h).lt_or_eq with hlt | heq
  · exact (hbounds p).2.trans (hlt.trans_le (hbounds q).1)
  · unfold roundHalfEven
    rw [heq]
    split_ifs <;> first | omega | linarith

/-- Rounding to the nearest double. -/
structure NearestDouble (rnd : ℚ → ℚ) : Prop where
  natCast : ∀ n : ℕ, n ≤ 2 ^ 53 → rnd n = n
  relative : ∀ q, 1 / 2 ^ 1022 ≤ q → q ≤ 2 ^ 1023 → |rnd q - q| ≤ q / 2 ^ 53

namespace NearestDouble

variable {rnd : ℚ → ℚ} {n a b : ℕ}

theorem abs_div_sub_div_le {x y e d : ℚ} (h : |x - y| ≤ e) (hd : 0 < d) :
    |x / d - y / d| ≤ e / d := by
  rw [← sub_div, abs_div, abs_of_pos hd]
  exact div_le_div_of_nonneg_right h hd.le

/-- The relative error of a number between two powers of two. -/
theorem relative_of_le (h : NearestDouble rnd) {q : ℚ} {k l : ℕ} (hk : k ≤ 1022) (hl : l ≤ 1023)
    (hq : 1 / 2 ^ k ≤ q) (hq' : q ≤ 2 ^ l) : |rnd q - q| ≤ q / 2 ^ 53 := by
  apply h.relative
  · have hsmall : (1 : ℚ) / 2 ^ 1022 ≤ 1 / 2 ^ k :=
      one_div_le_one_div_of_le (by positivity) (pow_le_pow_right₀ one_le_two hk)
    exact hsmall.trans hq
  · exact hq'.trans (pow_le_pow_right₀ one_le_two hl)

/-- Two rounded divisions are off by less than one part of the divisors' product. -/
theorem rnd_rnd_close (h : NearestDouble rnd) (ha : 0 < a) (ha' : a ≤ 2 ^ 53) (hb : 0 < b)
    (hb' : b ≤ 2 ^ 53) (hn : 0 < n) (hn' : n ≤ 2 ^ 51) :
    |rnd (rnd (n / a) / b) - n / (a * b)| < 1 / (a * b) := by
  have ha₀ : (1 : ℚ) ≤ a := Nat.one_le_cast.mpr ha
  have hb₀ : (1 : ℚ) ≤ b := Nat.one_le_cast.mpr hb
  have hn₀ : (1 : ℚ) ≤ n := Nat.one_le_cast.mpr hn
  have ha₁ : (a : ℚ) ≤ 2 ^ 53 := by exact_mod_cast ha'
  have hb₁ : (b : ℚ) ≤ 2 ^ 53 := by exact_mod_cast hb'
  have hn₁ : (n : ℚ) ≤ 2 ^ 51 := by exact_mod_cast hn'
  have hx : (n : ℚ) / a / b = n * (1 / (a * b)) := by field_simp
  have hp₀ : (1 : ℚ) / 2 ^ 53 ≤ n / a :=
    div_le_div₀ (by positivity) hn₀ (by positivity) ha₁
  have hp₁ : (n : ℚ) / a ≤ 2 ^ 51 := (div_le_self (by positivity) ha₀).trans hn₁
  generalize (n : ℚ) / a = p at hx hp₀ hp₁ ⊢
  -- the first division
  have hfirst := h.relative_of_le (by omega) (by omega) hp₀ hp₁
  generalize rnd p = r at hfirst ⊢
  have hr := abs_le.mp hfirst
  have hdrift : |r / b - p / b| ≤ p / b / 2 ^ 53 :=
    (abs_div_sub_div_le hfirst (by linarith)).trans_eq (div_right_comm p _ _)
  -- the second
  have hq₀ : (1 : ℚ) / 2 ^ 107 ≤ r / b :=
    calc (1 : ℚ) / 2 ^ 107 = 1 / 2 ^ 53 / 2 / 2 ^ 53 := by norm_num
      _ ≤ r / b := div_le_div₀ (by linarith) (by linarith) (by positivity) hb₁
  have hq₁ : r / b ≤ 2 ^ 52 := (div_le_self (by linarith) hb₀).trans (by linarith)
  have hsecond := h.relative_of_le (by omega) (by omega) hq₀ hq₁
  have hle : r / b ≤ 2 * (p / b) := by
    rw [← mul_div_assoc]
    exact div_le_div_of_nonneg_right (by linarith) (by linarith)
  -- both together
  have hsum : |rnd (r / b) - p / b| ≤ |rnd (r / b) - r / b| + |r / b - p / b| :=
    abs_sub_le _ _ _
  have hpos : (0 : ℚ) < 1 / (a * b) := by positivity
  have hbound : 3 * (p / b) / 2 ^ 53 < 1 / (a * b) := by
    have hmul := mul_le_mul_of_nonneg_right hn₁ hpos.le
    rw [hx]
    linarith only [hmul, hpos]
  have hgoal : (n : ℚ) / (a * b) = p / b := by rw [hx, mul_one_div]
  rw [hgoal]
  linarith

theorem rnd_rnd_of_dvd (h : NearestDouble rnd) (ha : 0 < a) (hb : 0 < b) (hn' : n ≤ 2 ^ 51)
    (hdvd : a * b ∣ n) : rnd (rnd (n / a) / b) = (n / (a * b) : ℕ) := by
  have ha₀ : (0 : ℚ) < a := Nat.cast_pos.mpr ha
  have hb₀ : (0 : ℚ) < b := Nat.cast_pos.mpr hb
  obtain ⟨k, rfl⟩ := hdvd
  rw [Nat.mul_div_cancel_left k (Nat.mul_pos ha hb)]
  have hkb : b * k ≤ a * b * k := by
    rw [mul_assoc]
    exact Nat.le_mul_of_pos_left _ ha
  have hk : k ≤ b * k := Nat.le_mul_of_pos_left k hb
  have hfirst : ((a * b * k : ℕ) : ℚ) / a = (b * k : ℕ) := by
    push_cast
    field_simp
  have hsecond : ((b * k : ℕ) : ℚ) / b = k := by
    push_cast
    field_simp
  rw [hfirst, h.natCast _ (by omega), hsecond, h.natCast _ (by omega)]

/-- The floor of a whole number that is divided twice is not moved by rounding. -/
theorem floor_rnd_rnd (h : NearestDouble rnd) (ha : 0 < a) (ha' : a ≤ 2 ^ 53) (hb : 0 < b)
    (hb' : b ≤ 2 ^ 53) (hn' : n ≤ 2 ^ 51) :
    ⌊rnd (rnd (n / a) / b)⌋ = ((n / (a * b) : ℕ) : ℤ) := by
  have hab : 0 < a * b := Nat.mul_pos ha hb
  rcases Nat.eq_zero_or_pos (n % (a * b)) with hzero | hrest
  · rw [h.rnd_rnd_of_dvd ha hb hn' (Nat.dvd_of_mod_eq_zero hzero), Int.floor_natCast]
  · -- the quotient is at least one part from the whole numbers around it
    have hclose := abs_lt.mp (h.rnd_rnd_close ha ha' hb hb'
      (lt_of_lt_of_le hrest (Nat.mod_le n (a * b))) hn')
    have hn : n = n / (a * b) * (a * b) + n % (a * b) := (Nat.div_add_mod' n (a * b)).symm
    have hlt := Nat.mod_lt n hab
    generalize n / (a * b) = k at hn ⊢
    have ha₀ : (0 : ℚ) < a := Nat.cast_pos.mpr ha
    have hb₀ : (0 : ℚ) < b := Nat.cast_pos.mpr hb
    have hquot : (n : ℚ) / (a * b) = k + (n % (a * b) : ℕ) * (1 / (a * b)) := by
      rw [← mul_div_assoc, mul_one, eq_comm]
      field_simp
      rw [mul_assoc]
      exact_mod_cast hn.symm
    have hpart : (0 : ℚ) < 1 / (a * b) := by positivity
    have hwhole : (a * b : ℚ) * (1 / (a * b)) = 1 := by field_simp
    have hlow : (1 : ℚ) ≤ (n % (a * b) : ℕ) := Nat.one_le_cast.mpr hrest
    have hhigh : ((n % (a * b) : ℕ) : ℚ) + 1 ≤ a * b := by exact_mod_cast hlt
    have hlow' := mul_le_mul_of_nonneg_right hlow hpart.le
    have hhigh' := mul_le_mul_of_nonneg_right hhigh hpart.le
    rw [Int.floor_eq_iff]
    constructor <;> push_cast <;> linarith [hclose.1, hclose.2]

end NearestDouble

end AiTrader
