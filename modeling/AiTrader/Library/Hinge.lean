import Mathlib.Algebra.Order.Field.Basic
import Mathlib.Algebra.Order.BigOperators.Group.List
import Mathlib.Data.Finset.Max
import Mathlib.Tactic.Linarith
import Mathlib.Tactic.LinearCombination
import Mathlib.Tactic.Ring

/-! # Sums of hinges

A hinge rises on either side of its knot, at a slope of its own on each.  A sum of hinges is
convex and piecewise linear, so its least value over all points is the value at some knot
(`exists_knot_total_le`). -/

namespace AiTrader

/-- A function that is zero at a knot and linear on either side. -/
structure Hinge (𝕜 : Type*) where
  knot : 𝕜
  up : 𝕜
  down : 𝕜

namespace Hinge

variable {𝕜 : Type*} [Field 𝕜] [LinearOrder 𝕜]

def value (h : Hinge 𝕜) (x : 𝕜) : 𝕜 := h.up * max 0 (x - h.knot) + h.down * max 0 (h.knot - x)

/-- The sum of some hinges. -/
def total (hs : List (Hinge 𝕜)) (x : 𝕜) : 𝕜 := (hs.map fun h => h.value x).sum

/-- No hinge falls away from its knot. -/
def Nonneg (hs : List (Hinge 𝕜)) : Prop := ∀ h ∈ hs, 0 ≤ h.up ∧ 0 ≤ h.down

variable {h : Hinge 𝕜} {hs : List (Hinge 𝕜)} {x y l u : 𝕜}

theorem total_cons : total (h :: hs) x = h.value x + total hs x := List.sum_cons

variable [IsStrictOrderedRing 𝕜]

theorem value_of_le (hx : h.knot ≤ x) : h.value x = h.up * (x - h.knot) := by
  rw [value, max_eq_right (by linarith), max_eq_left (by linarith), mul_zero, add_zero]

theorem value_of_ge (hx : x ≤ h.knot) : h.value x = h.down * (h.knot - x) := by
  rw [value, max_eq_left (by linarith), max_eq_right (by linarith), mul_zero, zero_add]

/-! ### Outside the knots -/

theorem value_le_of_ge (hdown : 0 ≤ h.down) (hxy : x ≤ y) (hy : y ≤ h.knot) :
    h.value y ≤ h.value x := by
  rw [value_of_ge hy, value_of_ge (hxy.trans hy)]
  exact mul_le_mul_of_nonneg_left (by linarith) hdown

theorem value_le_of_le (hup : 0 ≤ h.up) (hy : h.knot ≤ y) (hyx : y ≤ x) :
    h.value y ≤ h.value x := by
  rw [value_of_le hy, value_of_le (hy.trans hyx)]
  exact mul_le_mul_of_nonneg_left (by linarith) hup

/-- A bound for every hinge is a bound for the sum. -/
theorem total_le_total (hle : ∀ h ∈ hs, h.value y ≤ h.value x) : total hs y ≤ total hs x :=
  List.sum_le_sum hle

/-! ### Between two neighbouring knots -/

/-- A hinge whose knot is not strictly between `l` and `u` is linear there. -/
theorem value_chord (hknot : h.knot ≤ l ∨ u ≤ h.knot) (hl : l ≤ x) (hu : x ≤ u) :
    (u - l) * h.value x = (u - x) * h.value l + (x - l) * h.value u := by
  rcases hknot with hknot | hknot
  · rw [value_of_le hknot, value_of_le (hknot.trans hl), value_of_le (hknot.trans (hl.trans hu))]
    ring
  · rw [value_of_ge hknot, value_of_ge (hu.trans hknot), value_of_ge ((hl.trans hu).trans hknot)]
    ring

theorem total_chord (hknots : ∀ h ∈ hs, h.knot ≤ l ∨ u ≤ h.knot) (hl : l ≤ x) (hu : x ≤ u) :
    (u - l) * total hs x = (u - x) * total hs l + (x - l) * total hs u := by
  induction hs with
  | nil => simp [total]
  | cons h hs ih =>
      have hhead := value_chord (hknots h List.mem_cons_self) hl hu
      have htail := ih fun h' hmem => hknots h' (List.mem_cons_of_mem h hmem)
      rw [total_cons, total_cons, total_cons]
      linear_combination hhead + htail

/-- On a stretch without a knot inside, the least value is at one of the ends. -/
theorem total_le_or (hknots : ∀ h ∈ hs, h.knot ≤ l ∨ u ≤ h.knot) (hl : l ≤ x) (hu : x ≤ u) :
    total hs l ≤ total hs x ∨ total hs u ≤ total hs x := by
  by_contra hboth
  obtain ⟨hleft, hright⟩ := not_or.mp hboth
  rw [not_le] at hleft hright
  have hchord := total_chord hknots hl hu
  rcases hl.eq_or_lt with rfl | hl
  · exact lt_irrefl _ hleft
  · have hlow : (u - x) * total hs x ≤ (u - x) * total hs l :=
      mul_le_mul_of_nonneg_left hleft.le (by linarith)
    have hhigh : (x - l) * total hs x < (x - l) * total hs u :=
      mul_lt_mul_of_pos_left hright (by linarith)
    linarith

/-! ### The least value is at a knot -/

omit [Field 𝕜] [IsStrictOrderedRing 𝕜] in
theorem exists_last_knot (hne : ∃ h ∈ hs, h.knot ≤ x) :
    ∃ l ∈ hs, l.knot ≤ x ∧ ∀ h ∈ hs, h.knot ≤ x → h.knot ≤ l.knot := by
  obtain ⟨h, hmem, hle⟩ := hne
  obtain ⟨_, hl, hlmax⟩ := ((hs.map knot).toFinset.filter (· ≤ x)).exists_max_image id
    ⟨h.knot, by simpa using ⟨⟨h, hmem, rfl⟩, hle⟩⟩
  rw [Finset.mem_filter, List.mem_toFinset, List.mem_map] at hl
  obtain ⟨⟨l, hlmem, rfl⟩, hlx⟩ := hl
  exact ⟨l, hlmem, hlx, fun h' hmem' hle' =>
    hlmax h'.knot (by simpa using ⟨⟨h', hmem', rfl⟩, hle'⟩)⟩

omit [Field 𝕜] [IsStrictOrderedRing 𝕜] in
theorem exists_first_knot (hne : ∃ h ∈ hs, x ≤ h.knot) :
    ∃ u ∈ hs, x ≤ u.knot ∧ ∀ h ∈ hs, x ≤ h.knot → u.knot ≤ h.knot := by
  obtain ⟨h, hmem, hle⟩ := hne
  obtain ⟨_, hu, humin⟩ := ((hs.map knot).toFinset.filter (x ≤ ·)).exists_min_image id
    ⟨h.knot, by simpa using ⟨⟨h, hmem, rfl⟩, hle⟩⟩
  rw [Finset.mem_filter, List.mem_toFinset, List.mem_map] at hu
  obtain ⟨⟨u, humem, rfl⟩, hxu⟩ := hu
  exact ⟨u, humem, hxu, fun h' hmem' hle' =>
    humin h'.knot (by simpa using ⟨⟨h', hmem', rfl⟩, hle'⟩)⟩

/-- Below the lowest knot the sum falls towards it, above the highest it rises, and in between the
point lies on a stretch between two neighbours. -/
theorem exists_knot_total_le (hne : hs ≠ []) (hs0 : Nonneg hs) (x : 𝕜) :
    ∃ h ∈ hs, total hs h.knot ≤ total hs x := by
  by_cases hbelow : ∃ h ∈ hs, h.knot ≤ x
  · obtain ⟨l, hlmem, hlx, hlmax⟩ := exists_last_knot hbelow
    by_cases habove : ∃ h ∈ hs, x ≤ h.knot
    · obtain ⟨u, humem, hxu, humin⟩ := exists_first_knot habove
      have hknots : ∀ h ∈ hs, h.knot ≤ l.knot ∨ u.knot ≤ h.knot := by
        intro h hmem
        rcases le_total h.knot x with hle | hle
        · exact .inl (hlmax h hmem hle)
        · exact .inr (humin h hmem hle)
      rcases total_le_or hknots hlx hxu with hmin | hmin
      · exact ⟨l, hlmem, hmin⟩
      · exact ⟨u, humem, hmin⟩
    · refine ⟨l, hlmem, total_le_total fun h hmem => ?_⟩
      have hle : h.knot ≤ x := le_of_not_ge fun hge => habove ⟨h, hmem, hge⟩
      exact value_le_of_le (hs0 h hmem).1 (hlmax h hmem hle) hlx
  · have hge : ∀ h ∈ hs, x ≤ h.knot := fun h hmem =>
      le_of_not_ge fun hle => hbelow ⟨h, hmem, hle⟩
    obtain ⟨h, hmem⟩ := List.exists_mem_of_ne_nil hs hne
    obtain ⟨u, humem, hxu, humin⟩ := exists_first_knot ⟨h, hmem, hge h hmem⟩
    refine ⟨u, humem, total_le_total fun h hmem => ?_⟩
    exact value_le_of_ge (hs0 h hmem).2 hxu (humin h hmem (hge h hmem))

end Hinge

end AiTrader
