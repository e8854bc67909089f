import Mathlib.Data.Finset.Card
import Mathlib.Data.List.Destutter
import Mathlib.Data.List.Sort
import Mathlib.Order.Interval.Finset.Nat

/-! # Ranks in a finite set

The rank of a value is the number of members below it.  In a list of the members in order it is the
position, so what a program takes by position is what has a bounded rank.

* `least`, `window`: the members of the first ranks, and those around a value.
* `mem_take_iff`, `mem_slice_iff`: a prefix and a slice of the list.
* `pairwise_destutter`: a sorted list without repetitions is such a list. -/

namespace AiTrader.Rank

variable {α : Type*} [LinearOrder α] {s : Finset α} {a x : α} {m n : ℕ}

/-- The number of members below `a`. -/
def rank (s : Finset α) (a : α) : ℕ := (s.filter (· < a)).card

/-- The `n` least members. -/
def least (s : Finset α) (n : ℕ) : Finset α := s.filter fun x => rank s x < n

/-- The members at most `m` ranks away from `a`. -/
def window (s : Finset α) (a : α) (m : ℕ) : Finset α :=
  s.filter fun x => rank s x ≤ rank s a + m ∧ rank s a ≤ rank s x + m

theorem mem_least : x ∈ least s n ↔ x ∈ s ∧ rank s x < n := Finset.mem_filter

theorem mem_window :
    x ∈ window s a m ↔ x ∈ s ∧ rank s x ≤ rank s a + m ∧ rank s a ≤ rank s x + m :=
  Finset.mem_filter

theorem self_mem_window (ha : a ∈ s) : a ∈ window s a m :=
  mem_window.mpr ⟨ha, Nat.le_add_right _ m, Nat.le_add_right _ m⟩

theorem rank_lt (hx : x ∈ s) (h : x < a) : rank s x < rank s a := by
  refine Finset.card_lt_card (Finset.ssubset_iff_of_subset ?_ |>.mpr ⟨x, ?_, ?_⟩)
  · intro y hy
    obtain ⟨hys, hyx⟩ := Finset.mem_filter.mp hy
    exact Finset.mem_filter.mpr ⟨hys, hyx.trans h⟩
  · exact Finset.mem_filter.mpr ⟨hx, h⟩
  · exact fun hxx => absurd (Finset.mem_filter.mp hxx).2 (lt_irrefl x)

theorem rank_injOn (s : Finset α) : Set.InjOn (rank s) s := by
  intro x hx y hy h
  rcases lt_trichotomy x y with hlt | heq | hgt
  · exact absurd h (rank_lt hx hlt).ne
  · exact heq
  · exact absurd h (rank_lt hy hgt).ne'

/-- A window has a middle and two wings. -/
theorem card_window_le (s : Finset α) (a : α) (m : ℕ) : (window s a m).card ≤ 2 * m + 1 := by
  have hcard := Finset.card_le_card_of_injOn (t := Finset.Icc (rank s a - m) (rank s a + m))
    (rank s)
    (fun x hx => by
      obtain ⟨-, hle, hge⟩ := mem_window.mp hx
      exact Finset.mem_coe.mpr (Finset.mem_Icc.mpr ⟨by omega, hle⟩))
    ((rank_injOn s).mono fun x hx => (mem_window.mp hx).1)
  rw [Nat.card_Icc] at hcard
  omega

/-! ### Lists in order -/

section
variable {l : List α} {i : ℕ}

theorem rank_getElem (hl : l.Pairwise (· < ·)) (hi : i < l.length) :
    rank l.toFinset l[i] = i := by
  have hbelow : (l.toFinset.filter (· < l[i])) = (l.take i).toFinset := by
    ext y
    rw [Finset.mem_filter, List.mem_toFinset, List.mem_toFinset]
    constructor
    · rintro ⟨hy, hlt⟩
      obtain ⟨j, hj, rfl⟩ := List.getElem_of_mem hy
      rw [List.mem_take_iff_getElem]
      refine ⟨j, lt_min ?_ hj, rfl⟩
      by_contra hge
      rcases Nat.eq_or_lt_of_le (Nat.le_of_not_lt hge) with heq | hlt'
      · subst heq
        exact absurd hlt (lt_irrefl _)
      · exact absurd (List.pairwise_iff_getElem.mp hl i j hi hj hlt') hlt.asymm
    · intro hy
      obtain ⟨j, hj, rfl⟩ := List.mem_take_iff_getElem.mp hy
      obtain ⟨hji, hjl⟩ := lt_min_iff.mp hj
      exact ⟨List.getElem_mem hjl, List.pairwise_iff_getElem.mp hl j i hjl hi hji⟩
  have hnodup : (l.take i).Nodup :=
    (hl.sublist (List.take_sublist i l)).imp fun h => h.ne
  rw [rank, hbelow, List.toFinset_card_of_nodup hnodup, List.length_take, min_eq_left hi.le]

theorem mem_take_iff (hl : l.Pairwise (· < ·)) : x ∈ l.take n ↔ x ∈ least l.toFinset n := by
  rw [mem_least, List.mem_toFinset, List.mem_take_iff_getElem]
  constructor
  · rintro ⟨i, hi, rfl⟩
    obtain ⟨hin, hil⟩ := lt_min_iff.mp hi
    exact ⟨List.getElem_mem hil, by rw [rank_getElem hl hil]; exact hin⟩
  · rintro ⟨hx, hrank⟩
    obtain ⟨i, hi, rfl⟩ := List.getElem_of_mem hx
    rw [rank_getElem hl hi] at hrank
    exact ⟨i, lt_min hrank hi, rfl⟩

/-- The slice around position `i`, clamped to the list, is the window around the entry there. -/
theorem mem_slice_iff (hl : l.Pairwise (· < ·)) (hi : i < l.length) :
    x ∈ (l.take (min (i + m) (l.length - 1) + 1)).drop (i - m) ↔ x ∈ window l.toFinset l[i] m := by
  rw [mem_window, List.mem_toFinset, rank_getElem hl hi, List.mem_drop_iff_getElem]
  constructor
  · rintro ⟨j, hj, rfl⟩
    rw [List.length_take] at hj
    have hjl : i - m + j < l.length := by omega
    rw [List.getElem_take, rank_getElem hl hjl]
    exact ⟨List.getElem_mem hjl, by omega, by omega⟩
  · rintro ⟨hx, hle, hge⟩
    obtain ⟨j, hj, rfl⟩ := List.getElem_of_mem hx
    rw [rank_getElem hl hj] at hle hge
    refine ⟨j - (i - m), by rw [List.length_take]; omega, ?_⟩
    rw [List.getElem_take]
    congr 1
    omega

/-- A sorted list without its repetitions has the same members, in strict order. -/
theorem pairwise_destutter (hl : l.Pairwise (· ≤ ·)) :
    (l.destutter (· ≠ ·)).Pairwise (· < ·) ∧ (l.destutter (· ≠ ·)).toFinset = l.toFinset := by
  rw [hl.destutter_eq_dedup]
  constructor
  · have hle := hl.sublist (List.dedup_sublist l)
    exact hle.imp₂ (fun _ _ h hne => lt_of_le_of_ne h hne) (List.nodup_dedup l)
  · ext x
    rw [List.mem_toFinset, List.mem_toFinset, List.mem_dedup]

end

end AiTrader.Rank
