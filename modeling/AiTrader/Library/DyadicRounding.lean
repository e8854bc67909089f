import Mathlib.Algebra.Order.Field.Basic
import Mathlib.Algebra.Order.Field.Rat
import Mathlib.Data.Rat.Floor
import Mathlib.Tactic.FieldSimp
import Mathlib.Tactic.Linarith
import Mathlib.Tactic.Ring

/-! # Rounding that fixes doubles

What a bound on a rounded computation needs of rounding to a double that does not overflow: it keeps
the order and the sign and leaves a double alone.  A bound that is a double then passes through every
operation.

* `le_dyadic`, `dyadic_le`, `abs_le_pow`: a bound that is a double bounds the rounded number.
* `close`: a small number is moved little.
* `near_add`, `near_mul`: what an operation on rounded numbers adds to their errors.
* `sum_le`, `sum_le_of_low`: bounds of a sum whose partial sums are rounded. -/

namespace AiTrader

structure DyadicRounding (rnd : ℚ → ℚ) : Prop where
  mono : Monotone rnd
  neg : ∀ q, rnd (-q) = -rnd q
  dyadic : ∀ (k : ℤ) (j : ℕ), |k| ≤ 2 ^ 53 → j ≤ 1074 → rnd (k / 2 ^ j) = k / 2 ^ j
  pow : ∀ j : ℕ, j ≤ 1023 → rnd (2 ^ j) = 2 ^ j

namespace DyadicRounding

variable {rnd : ℚ → ℚ} {q a : ℚ} {qs : List ℚ} {k c : ℤ} {j : ℕ}

theorem id : DyadicRounding id := ⟨monotone_id, fun _ => rfl, fun _ _ _ _ => rfl, fun _ _ => rfl⟩

theorem le_dyadic (h : DyadicRounding rnd) (hk : |k| ≤ 2 ^ 53) (hj : j ≤ 1074)
    (hq : q ≤ k / 2 ^ j) : rnd q ≤ k / 2 ^ j :=
  (h.mono hq).trans_eq (h.dyadic k j hk hj)

theorem dyadic_le (h : DyadicRounding rnd) (hk : |k| ≤ 2 ^ 53) (hj : j ≤ 1074)
    (hq : k / 2 ^ j ≤ q) : k / 2 ^ j ≤ rnd q :=
  (h.dyadic k j hk hj).symm.trans_le (h.mono hq)

theorem intCast (h : DyadicRounding rnd) (hk : |k| ≤ 2 ^ 53) : rnd k = k := by
  have hd := h.dyadic k 0 hk (Nat.zero_le _)
  simpa using hd

theorem abs_le_of (h : DyadicRounding rnd) {b : ℚ} (hb : rnd b = b) (hq : |q| ≤ b) :
    |rnd q| ≤ b := by
  obtain ⟨hlow, hhigh⟩ := abs_le.mp hq
  have hneg : -b ≤ rnd q := by
    rw [← hb, ← h.neg]
    exact h.mono hlow
  exact abs_le.mpr ⟨hneg, (h.mono hhigh).trans_eq hb⟩

theorem abs_le_pow (h : DyadicRounding rnd) (hj : j ≤ 1023) (hq : |q| ≤ 2 ^ j) :
    |rnd q| ≤ 2 ^ j :=
  h.abs_le_of (h.pow j hj) hq

theorem abs_le_intCast (h : DyadicRounding rnd) (hk : |k| ≤ 2 ^ 53) (hq : |q| ≤ k) :
    |rnd q| ≤ k :=
  h.abs_le_of (h.intCast hk) hq

/-- A number below `2 ^ 53` units is moved by less than a unit. -/
theorem close (h : DyadicRounding rnd) (hj : j ≤ 1074) (hq : |q * 2 ^ j| + 1 ≤ 2 ^ 53) :
    |rnd q - q| ≤ 1 / 2 ^ j := by
  have hpos : (0 : ℚ) < 2 ^ j := by positivity
  obtain ⟨habove, hbelow⟩ := abs_le.mp (le_sub_iff_add_le.mpr hq)
  have hlow : (⌊q * 2 ^ j⌋ : ℚ) ≤ q * 2 ^ j := Int.floor_le _
  have hhigh : q * 2 ^ j < ⌊q * 2 ^ j⌋ + 1 := Int.lt_floor_add_one _
  have hk : |⌊q * 2 ^ j⌋| ≤ 2 ^ 53 := by
    have hcast : |(⌊q * 2 ^ j⌋ : ℚ)| ≤ 2 ^ 53 := abs_le.mpr ⟨by linarith, by linarith⟩
    exact_mod_cast hcast
  have hk' : |⌊q * 2 ^ j⌋ + 1| ≤ 2 ^ 53 := by
    have hcast : |(⌊q * 2 ^ j⌋ : ℚ) + 1| ≤ 2 ^ 53 := abs_le.mpr ⟨by linarith, by linarith⟩
    exact_mod_cast hcast
  have hfloor := h.dyadic_le (q := q) hk hj ((div_le_iff₀ hpos).mpr hlow)
  have hceil := h.le_dyadic (q := q) hk' hj
    ((le_div_iff₀ hpos).mpr (by push_cast; exact hhigh.le))
  have hunit : ((⌊q * 2 ^ j⌋ + 1 : ℤ) : ℚ) / 2 ^ j = ⌊q * 2 ^ j⌋ / 2 ^ j + 1 / 2 ^ j := by
    push_cast
    ring
  have hq' : (⌊q * 2 ^ j⌋ : ℚ) / 2 ^ j ≤ q := (div_le_iff₀ hpos).mpr hlow
  have hq'' : q ≤ ⌊q * 2 ^ j⌋ / 2 ^ j + 1 / 2 ^ j := by
    rw [← hunit]
    exact (le_div_iff₀ hpos).mpr (by push_cast; exact hhigh.le)
  rw [hunit] at hceil
  exact abs_le.mpr ⟨by linarith, by linarith⟩

section
variable {x y b d e w : ℚ}

theorem near (h : DyadicRounding rnd) (hj : j ≤ 52) (hx : |x - a| ≤ d)
    (hsize : |a| + d ≤ 2 ^ (52 - j)) : |rnd x - a| ≤ d + 1 / 2 ^ j := by
  have hxsize : |x| ≤ 2 ^ (52 - j) := by
    have htri := abs_add_le (x - a) a
    rw [sub_add_cancel] at htri
    linarith
  have hunits : |x * 2 ^ j| + 1 ≤ 2 ^ 53 := by
    have hpos : (0 : ℚ) < 2 ^ j := by positivity
    have hpow : (2 : ℚ) ^ (52 - j) * 2 ^ j = 2 ^ 52 := by rw [← pow_add, Nat.sub_add_cancel hj]
    have hle := mul_le_mul_of_nonneg_right hxsize hpos.le
    rw [abs_mul, abs_of_pos hpos]
    rw [hpow] at hle
    linarith
  have htri := abs_add_le (rnd x - x) (x - a)
  rw [sub_add_sub_cancel] at htri
  have hclose := h.close (by omega) hunits
  linarith

theorem near_add (h : DyadicRounding rnd) (hj : j ≤ 52) (hx : |x - a| ≤ d) (hy : |y - b| ≤ e)
    (hsize : |a + b| + (d + e) ≤ 2 ^ (52 - j)) :
    |rnd (x + y) - (a + b)| ≤ d + e + 1 / 2 ^ j := by
  refine h.near hj ?_ hsize
  have htri := abs_add_le (x - a) (y - b)
  rw [show x + y - (a + b) = x - a + (y - b) by ring]
  linarith

/-- A weight of at most 1. -/
theorem near_mul (h : DyadicRounding rnd) (hj : j ≤ 52) (hx : |x - a| ≤ d) (hw : |w - b| ≤ e)
    (hw1 : |w| ≤ 1) (hsize : |a * b| + (d + |a| * e) ≤ 2 ^ (52 - j)) :
    |rnd (x * w) - a * b| ≤ d + |a| * e + 1 / 2 ^ j := by
  refine h.near hj ?_ hsize
  have htri := abs_add_le ((x - a) * w) (a * (w - b))
  have hleft : |(x - a) * w| ≤ d := by
    rw [abs_mul]
    exact (mul_le_of_le_one_right (abs_nonneg _) hw1).trans hx
  have hright : |a * (w - b)| ≤ |a| * e := by
    rw [abs_mul]
    exact mul_le_mul_of_nonneg_left hw (abs_nonneg a)
  rw [show x * w - a * b = (x - a) * w + a * (w - b) by ring]
  linarith

end

theorem zero (h : DyadicRounding rnd) : rnd 0 = 0 := by
  have hd := h.intCast (k := 0) (by norm_num)
  simpa using hd

theorem one (h : DyadicRounding rnd) : rnd 1 = 1 := by
  have hd := h.intCast (k := 1) (by norm_num)
  simpa using hd

/-- A sum from the left, rounded at every step. -/
def sum (rnd : ℚ → ℚ) (a : ℚ) (qs : List ℚ) : ℚ := qs.foldl (fun s q => rnd (s + q)) a

theorem sum_cons (q : ℚ) : sum rnd a (q :: qs) = sum rnd (rnd (a + q)) qs := rfl

theorem sum_neg (h : DyadicRounding rnd) : sum rnd (-a) (qs.map (- ·)) = -sum rnd a qs := by
  induction qs generalizing a with
  | nil => rfl
  | cons q qs ih =>
      rw [List.map_cons, sum_cons, sum_cons, ← ih, ← h.neg]
      congr 2
      ring

theorem add_le (h : DyadicRounding rnd) (hj : j ≤ 1074) (ha : a ≤ c / 2 ^ j) (hq : q ≤ k / 2 ^ j)
    (hk : |c + k| ≤ 2 ^ 53) : rnd (a + q) ≤ ((c + k : ℤ) : ℚ) / 2 ^ j := by
  apply h.le_dyadic hk hj
  rw [Int.cast_add, add_div]
  exact add_le_add ha hq

theorem one_eq_div (j : ℕ) : (1 : ℚ) = ((2 ^ j : ℤ) : ℚ) / 2 ^ j := by
  have hpos : (2 : ℚ) ^ j ≠ 0 := by positivity
  push_cast
  exact (div_self hpos).symm

/-- A sum of numbers up to 1. -/
theorem sum_le (h : DyadicRounding rnd) (hj : j ≤ 1074) (hqs : ∀ q ∈ qs, q ≤ 1)
    (ha : a ≤ c / 2 ^ j) (hc : |c| + 2 ^ j * qs.length ≤ 2 ^ 53) :
    sum rnd a qs ≤ ((c + 2 ^ j * qs.length : ℤ) : ℚ) / 2 ^ j := by
  induction qs generalizing a c with
  | nil => simpa [sum] using ha
  | cons q qs ih =>
      have hpow : (0 : ℤ) < 2 ^ j := by positivity
      have hlen : (2 ^ j * ((q :: qs).length : ℤ)) = 2 ^ j + 2 ^ j * qs.length := by
        rw [List.length_cons]
        push_cast
        ring
      rw [hlen] at hc ⊢
      have hrest : 0 ≤ 2 ^ j * (qs.length : ℤ) := by positivity
      have habs : |c + 2 ^ j| ≤ |c| + 2 ^ j := (abs_add_le _ _).trans_eq (by rw [abs_of_pos hpow])
      have hstep := h.add_le hj ha ((hqs q List.mem_cons_self).trans_eq (one_eq_div j))
        (by linarith)
      have hih := ih (fun x hx => hqs x (List.mem_cons_of_mem q hx)) hstep (by linarith)
      rw [sum_cons]
      refine hih.trans_eq ?_
      rw [add_assoc]

/-- A sum of numbers up to 1, one of which is at most one unit. -/
theorem sum_le_of_low (h : DyadicRounding rnd) (hj : j ≤ 1074) (hqs : ∀ q ∈ qs, q ≤ 1)
    (hlow : ∃ q ∈ qs, q ≤ 1 / 2 ^ j) (ha : a ≤ c / 2 ^ j)
    (hc : |c| + 2 ^ j * qs.length + 1 ≤ 2 ^ 53) :
    sum rnd a qs ≤ ((c + 2 ^ j * (qs.length - 1) + 1 : ℤ) : ℚ) / 2 ^ j := by
  induction qs generalizing a c with
  | nil =>
      obtain ⟨q, hq, -⟩ := hlow
      cases hq
  | cons q qs ih =>
      have hpow : (0 : ℤ) < 2 ^ j := by positivity
      have hlen : (((q :: qs).length : ℤ)) = qs.length + 1 := by
        rw [List.length_cons]
        push_cast
        ring
      rw [hlen] at hc ⊢
      have hrest : 0 ≤ 2 ^ j * (qs.length : ℤ) := by positivity
      have htail : ∀ x ∈ qs, x ≤ 1 := fun x hx => hqs x (List.mem_cons_of_mem q hx)
      rw [sum_cons]
      by_cases hq : q ≤ 1 / 2 ^ j
      · have habs : |c + 1| ≤ |c| + 1 := (abs_add_le _ _).trans_eq (by rw [abs_one])
        have hstep := h.add_le (k := 1) hj ha (by simpa using hq) (by linarith)
        refine (h.sum_le hj htail hstep (by linarith)).trans_eq ?_
        congr 2
        ring
      · have hlow' : ∃ x ∈ qs, x ≤ 1 / 2 ^ j := by
          obtain ⟨x, hx, hle⟩ := hlow
          obtain rfl | hx := List.mem_cons.mp hx
          · exact absurd hle hq
          · exact ⟨x, hx, hle⟩
        have habs : |c + 2 ^ j| ≤ |c| + 2 ^ j :=
          (abs_add_le _ _).trans_eq (by rw [abs_of_pos hpow])
        have hstep := h.add_le hj ha ((hqs q List.mem_cons_self).trans_eq (one_eq_div j))
          (by linarith)
        refine (ih htail hlow' hstep (by linarith)).trans_eq ?_
        congr 2
        ring

end DyadicRounding

end AiTrader
