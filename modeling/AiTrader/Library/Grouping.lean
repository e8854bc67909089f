import Mathlib.Algebra.BigOperators.Group.List.Basic
import Mathlib.Data.List.Induction
import Mathlib.Data.List.Sort

/-! # Grouping rows by a key

A dictionary of lists: a row goes to the end of the list of its key, which is opened when the key
is new.  The keys stand in the order of their first rows.

* `bucket_group`: the list of a key is the rows of that key.
* `perm_flatMap_group`: the lists hold the rows, each once.
* `sortedKeys_group`: the keys in order, of which only the set of the rows' keys matters. -/

namespace AiTrader.Grouping

variable {α κ : Type*} [DecidableEq κ] {key : α → κ} {groups : List (κ × List α)} {k j : κ} {a : α}

/-- `groups.setdefault(k, []).append(a)`. -/
def add : List (κ × List α) → κ → α → List (κ × List α)
  | [], k, a => [(k, [a])]
  | g :: groups, k, a => if g.1 = k then (k, g.2 ++ [a]) :: groups else g :: add groups k a

/-- The rows by key. -/
def group (key : α → κ) (as : List α) : List (κ × List α) :=
  as.foldl (fun groups a => add groups (key a) a) []

/-- `groups.get(k, [])`. -/
def bucket (groups : List (κ × List α)) (k : κ) : List α := (groups.lookup k).getD []

/-- The keys, in order. -/
def sortedKeys {γ : Type*} [LinearOrder γ] (order : κ → γ) (groups : List (κ × List α)) : List κ :=
  (groups.map Prod.fst).insertionSort fun i j => order i ≤ order j

theorem group_concat (key : α → κ) (as : List α) (a : α) :
    group key (as ++ [a]) = add (group key as) (key a) a := by
  rw [group, List.foldl_append, List.foldl_cons, List.foldl_nil, ← group]

/-! ### One row more -/

theorem mem_keys_add : j ∈ (add groups k a).map Prod.fst ↔ j ∈ groups.map Prod.fst ∨ j = k := by
  induction groups with
  | nil => simp [add]
  | cons g groups ih =>
      rw [add]
      split
      · rename_i hg
        subst hg
        simp only [List.map_cons, List.mem_cons]
        tauto
      · rw [List.map_cons, List.mem_cons, ih, List.map_cons, List.mem_cons, or_assoc]

theorem nodup_keys_add (h : (groups.map Prod.fst).Nodup) :
    ((add groups k a).map Prod.fst).Nodup := by
  induction groups with
  | nil => simp [add]
  | cons g groups ih =>
      rw [List.map_cons, List.nodup_cons] at h
      rw [add]
      split
      · rename_i hg
        subst hg
        exact List.nodup_cons.mpr h
      · rename_i hg
        refine List.nodup_cons.mpr ⟨fun hmem => ?_, ih h.2⟩
        rcases mem_keys_add.mp hmem with hold | hnew
        · exact h.1 hold
        · exact hg hnew

theorem bucket_cons (g : κ × List α) (groups : List (κ × List α)) (j : κ) :
    bucket (g :: groups) j = if j = g.1 then g.2 else bucket groups j := by
  by_cases hj : j = g.1
  · rw [if_pos hj, bucket, List.lookup_cons, beq_iff_eq.mpr hj]
    rfl
  · rw [if_neg hj, bucket, bucket, List.lookup_cons, beq_false_of_ne hj]

theorem bucket_add : bucket (add groups k a) j = bucket groups j ++ if j = k then [a] else [] := by
  induction groups with
  | nil =>
      rw [add, bucket_cons]
      rfl
  | cons g groups ih =>
      by_cases hg : g.1 = k
      · rw [add, if_pos hg, bucket_cons, bucket_cons, hg]
        by_cases hj : j = k
        · rw [if_pos hj, if_pos hj, if_pos hj]
        · rw [if_neg hj, if_neg hj, if_neg hj, List.append_nil]
      · rw [add, if_neg hg, bucket_cons, bucket_cons, ih]
        by_cases hj : j = g.1
        · rw [if_pos hj, if_pos hj, if_neg (hj.trans_ne hg), List.append_nil]
        · rw [if_neg hj, if_neg hj]

theorem perm_flatMap_add :
    ((add groups k a).flatMap Prod.snd).Perm (groups.flatMap Prod.snd ++ [a]) := by
  induction groups with
  | nil => simp [add]
  | cons g groups ih =>
      rw [add]
      split
      · rw [List.flatMap_cons, List.flatMap_cons, List.append_assoc, List.append_assoc]
        exact List.perm_append_comm.append_left g.2
      · rw [List.flatMap_cons, List.flatMap_cons, List.append_assoc]
        exact ih.append_left g.2

/-! ### All rows -/

theorem mem_keys_group {as : List α} :
    k ∈ (group key as).map Prod.fst ↔ ∃ a ∈ as, key a = k := by
  induction as using List.reverseRecOn with
  | nil => simp [group]
  | append_singleton as a ih =>
      rw [group_concat, mem_keys_add, ih]
      simp only [List.mem_append, List.mem_singleton, or_and_right, exists_or, exists_eq_left]
      rw [eq_comm (a := k)]

theorem nodup_keys_group (key : α → κ) (as : List α) : ((group key as).map Prod.fst).Nodup := by
  induction as using List.reverseRecOn with
  | nil => exact List.nodup_nil
  | append_singleton as a ih =>
      rw [group_concat]
      exact nodup_keys_add ih

/-- The list of a key is the rows of that key, in their order. -/
theorem bucket_group (key : α → κ) (as : List α) (k : κ) :
    bucket (group key as) k = as.filter fun a => decide (key a = k) := by
  induction as using List.reverseRecOn with
  | nil => rfl
  | append_singleton as a ih =>
      rw [group_concat, bucket_add, ih, List.filter_append]
      by_cases hk : key a = k
      · simp [hk]
      · simp [hk, Ne.symm hk]

/-- The lists hold the rows, each once. -/
theorem perm_flatMap_group (key : α → κ) (as : List α) :
    ((group key as).flatMap Prod.snd).Perm as := by
  induction as using List.reverseRecOn with
  | nil => exact List.Perm.refl []
  | append_singleton as a ih =>
      rw [group_concat]
      exact perm_flatMap_add.trans (ih.append_right [a])

theorem bucket_of_mem (hnodup : (groups.map Prod.fst).Nodup) {g : κ × List α} (h : g ∈ groups) :
    bucket groups g.1 = g.2 := by
  induction groups with
  | nil => cases h
  | cons i groups ih =>
      rw [List.map_cons, List.nodup_cons] at hnodup
      rcases List.mem_cons.mp h with rfl | h
      · rw [bucket_cons, if_pos rfl]
      · have hne : g.1 ≠ i.1 := fun heq => hnodup.1 (heq ▸ List.mem_map_of_mem h)
        rw [bucket_cons, if_neg hne, ih hnodup.2 h]

/-! ### The keys in order -/

section
variable {γ : Type*} [LinearOrder γ] {order : κ → γ}

omit [DecidableEq κ] in
theorem perm_sortedKeys (order : κ → γ) (groups : List (κ × List α)) :
    (sortedKeys order groups).Perm (groups.map Prod.fst) := List.perm_insertionSort _ _

theorem mem_sortedKeys {as : List α} :
    k ∈ sortedKeys order (group key as) ↔ ∃ a ∈ as, key a = k :=
  (perm_sortedKeys order _).mem_iff.trans mem_keys_group

/-- Keys that the order tells apart stand in strict order. -/
theorem sortedKeys_lt (horder : order.Injective) (as : List α) :
    (sortedKeys order (group key as)).Pairwise fun i j => order i < order j := by
  have hle : (sortedKeys order (group key as)).Pairwise fun i j => order i ≤ order j :=
    @List.pairwise_insertionSort _ (fun i j => order i ≤ order j) _
      ⟨fun i j => le_total (order i) (order j)⟩ ⟨fun _ _ _ => le_trans⟩ _
  have hnodup := (perm_sortedKeys order _).nodup_iff.mpr (nodup_keys_group key as)
  exact (hle.and hnodup).imp fun ⟨hle, hne⟩ => lt_of_le_of_ne hle fun heq => hne (horder heq)

omit [DecidableEq κ] in
/-- An order that tells the items apart sorts them alike, however they stood. -/
theorem sortBy_perm (horder : order.Injective) {is js : List κ} (h : is.Perm js) :
    (is.insertionSort fun i j => order i ≤ order j) =
      js.insertionSort fun i j => order i ≤ order j := by
  have hsorted : ∀ is : List κ,
      (is.insertionSort fun i j => order i ≤ order j).Pairwise fun i j => order i ≤ order j :=
    @List.pairwise_insertionSort _ (fun i j => order i ≤ order j) _
      ⟨fun i j => le_total (order i) (order j)⟩ ⟨fun _ _ _ => le_trans⟩
  exact ((is.perm_insertionSort _).trans (h.trans (js.perm_insertionSort _).symm)).eq_of_pairwise
    (fun i j _ _ hij hji => horder (le_antisymm hij hji)) (hsorted is) (hsorted js)

/-- Only the set of the rows' keys matters. -/
theorem sortedKeys_group (horder : order.Injective) {as bs : List α}
    (h : ∀ k, (∃ a ∈ as, key a = k) ↔ ∃ b ∈ bs, key b = k) :
    sortedKeys order (group key as) = sortedKeys order (group key bs) := by
  refine sortBy_perm horder ((List.perm_ext_iff_of_nodup (nodup_keys_group key as)
    (nodup_keys_group key bs)).mpr fun k => ?_)
  rw [mem_keys_group, mem_keys_group, h]

theorem sum_sortedKeys {M : Type*} [AddCommMonoid M] (order : κ → γ) (key : α → κ) (as : List α)
    (w : α → M) :
    ((sortedKeys order (group key as)).map fun k =>
        ((as.filter fun a => decide (key a = k)).map w).sum).sum = (as.map w).sum := by
  have hgroups : ((group key as).map fun g => (g.2.map w).sum) =
      ((group key as).map Prod.fst).map fun k =>
        ((as.filter fun a => decide (key a = k)).map w).sum := by
    rw [List.map_map]
    refine List.map_congr_left fun g hg => ?_
    rw [Function.comp_apply, ← bucket_group, bucket_of_mem (nodup_keys_group key as) hg]
  rw [((perm_sortedKeys order _).map _).sum_eq, ← hgroups]
  have hflat : ∀ groups : List (κ × List α),
      (groups.map fun g => (g.2.map w).sum).sum = ((groups.flatMap Prod.snd).map w).sum := by
    intro groups
    induction groups with
    | nil => rfl
    | cons g groups ih => rw [List.map_cons, List.sum_cons, ih, List.flatMap_cons, List.map_append,
        List.sum_append]
  rw [hflat, ((perm_flatMap_group key as).map w).sum_eq]

end

end AiTrader.Grouping
