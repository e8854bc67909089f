import AiTrader.FloatRounding
import Mathlib.Algebra.BigOperators.Group.List.Basic

/-! # Python's sum of doubles

From version 3.12 on, `sum` keeps what rounding has taken from the total and adds it at the end.

* `pySum`: the sum.
* `Running.add_near`: what one number adds to the errors.
* `pySum_near`: the sum of numbers up to 1 is near the exact one. -/

namespace AiTrader.F64

/-- The total so far and its compensation. -/
structure Running where
  total : F64
  compensation : F64

section
variable (rnd : ℚ → F64)

/-- What rounding takes from `a + b`, which is `t`; `a` is the larger number. -/
def residue (a b t : F64) : F64 := add rnd (sub rnd a t) b

/-- One number more. -/
def Running.add (s : Running) (x : F64) : Running :=
  let t := F64.add rnd s.total x
  let lost := if le (abs x) (abs s.total) then residue rnd s.total x t else residue rnd x s.total t
  ⟨t, F64.add rnd s.compensation lost⟩

def Running.value (s : Running) : F64 :=
  if s.compensation.isFinite && !eq s.compensation (.fin 0) then
    F64.add rnd s.total s.compensation
  else s.total

/-- `sum(xs)`. -/
def pySum : List F64 → F64
  | [] => .fin 0
  | x :: xs => (xs.foldl (Running.add rnd) ⟨F64.add rnd (.fin 0) x, .fin 0⟩).value rnd

end

/-! ### Its error -/

section
variable {rnd : ℚ → F64} {r : ℚ → ℚ} {a b x q f c t total : ℚ} {n : ℕ}

/-- The unit in which errors are counted. -/
def grain : ℚ := 1 / 2 ^ 30

theorem grain_pos : 0 < grain := by
  unfold grain
  positivity

theorem RoundsBy.grain_near (h : RoundsBy rnd r) {d : ℚ} (hq : |q - a| ≤ d)
    (hsize : |a| + d ≤ 2 ^ 22) : rnd q = .fin (r q) ∧ |r q - a| ≤ d + grain := by
  have htri := abs_add_le (q - a) a
  rw [sub_add_cancel] at htri
  have hsmall : |q| ≤ 2 ^ 22 := by linarith
  exact ⟨h.rnd_pow (by norm_num) hsmall,
    h.rounding.near (j := 30) (by norm_num) hq (by norm_num; linarith)⟩

theorem residue_near (h : RoundsBy rnd r) (ht : |t - (a + b)| ≤ grain) (hb : |b| ≤ 2 ^ 21) :
    ∃ e, residue rnd (.fin a) (.fin b) (.fin t) = .fin e ∧ |e| ≤ 3 * grain := by
  have hg : grain ≤ 1 := by norm_num [grain]
  have hdiff : |a - t - -b| ≤ grain := by
    rw [show a - t - -b = -(t - (a + b)) by ring, abs_neg]
    exact ht
  obtain ⟨hfin, hnear⟩ := h.grain_near hdiff (by rw [abs_neg]; linarith)
  have hback : |r (a - t) + b - 0| ≤ grain + grain := by
    rw [show r (a - t) + b - 0 = r (a - t) - -b by ring]
    exact hnear
  obtain ⟨hfin', hnear'⟩ := h.grain_near hback (by rw [abs_zero]; linarith)
  refine ⟨r (r (a - t) + b), ?_, ?_⟩
  · rw [residue, sub_fin, hfin, add_fin, hfin']
  · rw [sub_zero] at hnear'
    linarith

/-- One number more, up to 1. -/
theorem Running.add_near (h : RoundsBy rnd r) (hx : |x| ≤ 1) (hf : |f - total| ≤ n * grain)
    (htotal : |total| ≤ n) (hc : |c| ≤ n * (4 * grain)) (hn : n < 2 ^ 20) :
    ∃ f' c', Running.add rnd ⟨.fin f, .fin c⟩ (.fin x) = ⟨.fin f', .fin c'⟩ ∧
      |f' - (total + x)| ≤ (n + 1 : ℕ) * grain ∧ |c'| ≤ (n + 1 : ℕ) * (4 * grain) := by
  have hn' : (n : ℚ) + 1 ≤ 2 ^ 20 := by exact_mod_cast hn
  have hgrain : n * grain ≤ 1 := by
    have hle := mul_le_mul_of_nonneg_right (show (n : ℚ) ≤ 2 ^ 20 by linarith) grain_pos.le
    refine hle.trans ?_
    norm_num [grain]
  have hsum : |f + x - (total + x)| ≤ n * grain := by
    rw [add_sub_add_right_eq_sub]
    exact hf
  have hsize : |total + x| ≤ n + 1 := (abs_add_le total x).trans (add_le_add htotal hx)
  obtain ⟨hfin, hnear⟩ := h.grain_near hsum (by linarith)
  have hfsize : |f| ≤ n + 1 := by
    have htri := abs_add_le (f - total) total
    rw [sub_add_cancel] at htri
    linarith
  have ht : |r (f + x) - (f + x)| ≤ grain := by
    have hfx := (abs_add_le f x).trans (add_le_add hfsize hx)
    have hself := (h.grain_near (q := f + x) (a := f + x) (d := 0) (by simp) (by linarith)).2
    rwa [zero_add] at hself
  obtain ⟨e, hresidue, he⟩ : ∃ e,
      (if le (abs (.fin x)) (abs (.fin f)) = true then
        residue rnd (.fin f) (.fin x) (.fin (r (f + x)))
      else residue rnd (.fin x) (.fin f) (.fin (r (f + x)))) = .fin e ∧ |e| ≤ 3 * grain := by
    split
    · exact residue_near h ht (by linarith)
    · rw [add_comm f x] at ht ⊢
      exact residue_near h ht (by linarith)
  have hcomp : |c + e - 0| ≤ n * (4 * grain) + 3 * grain := by
    rw [sub_zero]
    exact (abs_add_le c e).trans (add_le_add hc he)
  have hg : grain ≤ 1 := by norm_num [grain]
  obtain ⟨hfin', hnear'⟩ := h.grain_near hcomp (by rw [abs_zero]; linarith)
  refine ⟨r (f + x), r (c + e), ?_, ?_, ?_⟩
  · rw [Running.add]
    dsimp only
    rw [add_fin, hfin, hresidue, add_fin, hfin']
  · push_cast
    linarith
  · rw [sub_zero] at hnear'
    push_cast
    linarith

theorem Running.foldl_near (h : RoundsBy rnd r) {ws : List ℚ} (hws : ∀ w ∈ ws, |w| ≤ 1)
    (hf : |f - total| ≤ n * grain) (htotal : |total| ≤ n) (hc : |c| ≤ n * (4 * grain))
    (hn : n + ws.length ≤ 2 ^ 20) :
    ∃ f' c', (ws.map F64.fin).foldl (Running.add rnd) ⟨.fin f, .fin c⟩ = ⟨.fin f', .fin c'⟩ ∧
      |f' - (total + ws.sum)| ≤ (n + ws.length : ℕ) * grain ∧
      |c'| ≤ (n + ws.length : ℕ) * (4 * grain) ∧ |total + ws.sum| ≤ (n + ws.length : ℕ) := by
  induction ws generalizing f c total n with
  | nil => exact ⟨f, c, rfl, by simpa using hf, by simpa using hc, by simpa using htotal⟩
  | cons w ws ih =>
      rw [List.forall_mem_cons] at hws
      rw [List.length_cons] at hn
      obtain ⟨f', c', hstep, hf', hc'⟩ := Running.add_near h hws.1 hf htotal hc (by omega)
      have htotal' : |total + w| ≤ (n + 1 : ℕ) := by
        push_cast
        exact (abs_add_le total w).trans (add_le_add htotal hws.1)
      obtain ⟨g, d, hrun, hg, hd, hsum⟩ := ih hws.2 hf' htotal' hc' (by omega)
      refine ⟨g, d, ?_, ?_, ?_, ?_⟩
      · rw [List.map_cons, List.foldl_cons, hstep, hrun]
      all_goals
        rw [List.length_cons, add_comm ws.length 1, ← add_assoc n 1]
      · rwa [List.sum_cons, ← add_assoc]
      · exact hd
      · rwa [List.sum_cons, ← add_assoc]

theorem Running.value_near (h : RoundsBy rnd r) (hf : |f - total| ≤ n * grain)
    (htotal : |total| ≤ n) (hc : |c| ≤ n * (4 * grain)) (hn : n ≤ 2 ^ 20) (hpos : 1 ≤ n) :
    ∃ s, Running.value rnd ⟨.fin f, .fin c⟩ = .fin s ∧ |s - total| ≤ n * (6 * grain) := by
  have hn₁ : (1 : ℚ) ≤ n := Nat.one_le_cast.mpr hpos
  have hn' : (n : ℚ) ≤ 2 ^ 20 := by exact_mod_cast hn
  have hg := grain_pos
  have hng : grain ≤ n * grain := le_mul_of_one_le_left hg.le hn₁
  have hgrain : n * grain ≤ 1 / 2 ^ 10 := by
    refine (mul_le_mul_of_nonneg_right hn' hg.le).trans ?_
    norm_num [grain]
  rw [Running.value]
  split
  · have hsum : |f + c - total| ≤ n * grain + n * (4 * grain) := by
      rw [show f + c - total = f - total + c by ring]
      exact (abs_add_le (f - total) c).trans (add_le_add hf hc)
    obtain ⟨hfin, hnear⟩ := h.grain_near hsum (by norm_num at hgrain ⊢; linarith)
    exact ⟨r (f + c), by rw [add_fin, hfin], by linarith⟩
  · exact ⟨f, rfl, by linarith⟩

theorem pySum_near (h : RoundsBy rnd r) {ws : List ℚ} (hws : ∀ w ∈ ws, |w| ≤ 1) (hne : ws ≠ [])
    (hn : ws.length ≤ 2 ^ 20) :
    ∃ s, pySum rnd (ws.map F64.fin) = .fin s ∧ |s - ws.sum| ≤ ws.length * (6 * grain) := by
  obtain ⟨w, ws, rfl⟩ := List.exists_cons_of_ne_nil hne
  rw [List.forall_mem_cons] at hws
  rw [List.length_cons] at hn
  have hfirst := h.grain_near (q := 0 + w) (a := w) (d := 0) (by simp) (by linarith [hws.1])
  have hf : |r (0 + w) - w| ≤ (1 : ℕ) * grain := hfirst.2.trans_eq (by simp)
  have hc : |(0 : ℚ)| ≤ (1 : ℕ) * (4 * grain) := by
    rw [abs_zero]
    have hg := grain_pos
    positivity
  obtain ⟨f, c, hrun, hf', hc', htotal⟩ :=
    Running.foldl_near h hws.2 hf (by simpa using hws.1) hc (by omega)
  obtain ⟨s, hs, hnear⟩ := Running.value_near h hf' htotal hc' (by omega) (by omega)
  refine ⟨s, ?_, ?_⟩
  · rw [List.map_cons, pySum, add_fin, hfirst.1, hrun, hs]
  · rwa [List.sum_cons, List.length_cons, add_comm ws.length 1]

end

end AiTrader.F64
