import Mathlib.Data.Int.Range

/-! # Events with a cooldown

Positions are gone through in order.  An event at position `i` closes the positions before
`i + k`: what would have happened there is passed over.

* `walk_congr`: the walk depends on the events at its positions only.
* `map_fst_walk_congr`: its positions depend only on where there are events.
* `filter_walk`: what it meets up to a position, it meets without the positions after it. -/

namespace AiTrader.Cooldown

variable {α β : Type*} {event : ℤ → Option α} {event' : ℤ → Option β} {k : ℤ}

/-- The events that are met, with their positions; those before `closed` are passed over. -/
def walk (event : ℤ → Option α) (k : ℤ) : ℤ → List ℤ → List (ℤ × α)
  | _, [] => []
  | closed, i :: is =>
      if i < closed then walk event k closed is
      else match event i with
        | none => walk event k closed is
        | some a => (i, a) :: walk event k (i + k) is

section
variable {i closed : ℤ} {is : List ℤ}

theorem walk_cons_of_lt (h : i < closed) :
    walk event k closed (i :: is) = walk event k closed is := by
  rw [walk, if_pos h]

theorem walk_cons_of_none (h : event i = none) :
    walk event k closed (i :: is) = walk event k closed is := by
  rw [walk, h, ite_self]

theorem walk_cons_of_some {a : α} (hi : ¬ i < closed) (h : event i = some a) :
    walk event k closed (i :: is) = (i, a) :: walk event k (i + k) is := by
  rw [walk, if_neg hi, h]

theorem fst_mem_of_mem_walk {p : ℤ × α} (hp : p ∈ walk event k closed is) : p.1 ∈ is := by
  induction is generalizing closed with
  | nil => cases hp
  | cons i is ih =>
      by_cases hi : i < closed
      · rw [walk_cons_of_lt hi] at hp
        exact List.mem_cons_of_mem i (ih hp)
      cases he : event i with
      | none =>
          rw [walk_cons_of_none he] at hp
          exact List.mem_cons_of_mem i (ih hp)
      | some a =>
          rw [walk_cons_of_some hi he, List.mem_cons] at hp
          rcases hp with rfl | hp
          · exact List.mem_cons_self
          · exact List.mem_cons_of_mem i (ih hp)

theorem walk_map (f : α → β) (event : ℤ → Option α) (closed : ℤ) (is : List ℤ) :
    walk (fun i => (event i).map f) k closed is =
      (walk event k closed is).map (Prod.map id f) := by
  induction is generalizing closed with
  | nil => rfl
  | cons i is ih =>
      by_cases hi : i < closed
      · rw [walk_cons_of_lt hi, walk_cons_of_lt hi, ih]
      cases he : event i with
      | none => rw [walk_cons_of_none he, walk_cons_of_none (by rw [he]; rfl), ih]
      | some a =>
          rw [walk_cons_of_some hi he, walk_cons_of_some hi (by rw [he]; rfl), ih]
          rfl

theorem walk_congr {event' : ℤ → Option α} (h : ∀ i ∈ is, event i = event' i) :
    walk event k closed is = walk event' k closed is := by
  induction is generalizing closed with
  | nil => rfl
  | cons i is ih =>
      obtain ⟨hi, his⟩ := List.forall_mem_cons.mp h
      rw [walk, walk, hi, ih his]
      cases event' i with
      | none => rfl
      | some a => rw [ih his]

/-- Where events are met depends only on where there are any. -/
theorem map_fst_walk_congr (h : ∀ i ∈ is, (event i).isSome = (event' i).isSome) :
    (walk event k closed is).map Prod.fst = (walk event' k closed is).map Prod.fst := by
  have hunit : ∀ i ∈ is, (event i).map (fun _ => ()) = (event' i).map fun _ => () := by
    intro i hi
    have hsome := h i hi
    cases he : event i <;> cases he' : event' i <;> simp_all
  have hwalk := @walk_congr Unit _ k closed is _ hunit
  rw [walk_map, walk_map] at hwalk
  have hfst := congrArg (List.map Prod.fst) hwalk
  rw [List.map_map, List.map_map] at hfst
  exact hfst

/-- Later positions have no influence on what is met before them. -/
theorem filter_walk (hsorted : is.Pairwise (· < ·)) (last : ℤ) :
    (walk event k closed is).filter (fun p => decide (p.1 ≤ last)) =
      walk event k closed (is.filter fun i => decide (i ≤ last)) := by
  induction is generalizing closed with
  | nil => rfl
  | cons i is ih =>
      obtain ⟨hfirst, hrest⟩ := List.pairwise_cons.mp hsorted
      by_cases hlast : i ≤ last
      · have hkept : (i :: is).filter (fun i => decide (i ≤ last)) =
            i :: is.filter fun i => decide (i ≤ last) :=
          List.filter_cons_of_pos (by simpa using hlast)
        rw [hkept]
        by_cases hi : i < closed
        · rw [walk_cons_of_lt hi, walk_cons_of_lt hi, ih hrest]
        cases he : event i with
        | none => rw [walk_cons_of_none he, walk_cons_of_none he, ih hrest]
        | some a =>
            rw [walk_cons_of_some hi he, walk_cons_of_some hi he,
              List.filter_cons_of_pos (by simpa using hlast), ih hrest]
      · have hlate : ∀ j ∈ i :: is, ¬ j ≤ last := by
          intro j hj
          rcases List.mem_cons.mp hj with rfl | hj
          · exact hlast
          · have := hfirst j hj
            omega
        rw [List.filter_eq_nil_iff.mpr, List.filter_eq_nil_iff.mpr]
        · rfl
        · exact fun j hj => by simpa using hlate j hj
        · exact fun p hp => by simpa using hlate p.1 (fst_mem_of_mem_walk hp)

end

/-! ### Ranges -/

theorem pairwise_range (a b : ℤ) : (Int.range a b).Pairwise (· < ·) := by
  rw [Int.range, List.pairwise_map]
  exact List.pairwise_lt_range.imp fun h => by omega

theorem filter_range {a b last : ℤ} (h : last < b) :
    (Int.range a b).filter (fun i => decide (i ≤ last)) = Int.range a (last + 1) := by
  refine List.Perm.eq_of_pairwise (fun x y _ _ hxy hyx => absurd hxy (lt_asymm hyx))
    ((pairwise_range a b).sublist List.filter_sublist) (pairwise_range a (last + 1)) ?_
  · rw [List.perm_ext_iff_of_nodup]
    · intro i
      rw [List.mem_filter, Int.mem_range_iff, Int.mem_range_iff, decide_eq_true_eq]
      omega
    · exact ((pairwise_range a b).sublist List.filter_sublist).imp (fun h => ne_of_lt h)
    · exact (pairwise_range a (last + 1)).imp (fun h => ne_of_lt h)

end AiTrader.Cooldown
