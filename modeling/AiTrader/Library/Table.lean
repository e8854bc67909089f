import Mathlib.Data.List.Induction
import Mathlib.Data.List.Sort

/-! # Keyed tables

A table is a list of rows in insertion order whose keys are pairwise distinct: a primary key.
The distinctness is a field, so a table with a duplicate key cannot be built.

* `find?`: the row of a key.
* `updateWhere`: rewrite every row that meets a condition (`UPDATE … WHERE …`); the rewrite
  may not move a row to another key.
* `insertIgnore`: append a row unless its key is taken (`INSERT OR IGNORE`).
* `deleteWhere`: drop the rows that meet a condition.
* `replace`: put a row in the place of the one with its key, if any (`INSERT OR REPLACE`).
* `latest`: rows put one after the other.
* `sorted_filter_eq`: an ordered selection depends on the selected rows only, where the order
  tells any two of them apart. -/

namespace AiTrader

/-- Rows with pairwise distinct keys, in insertion order. -/
structure Table {κ ρ : Type*} (key : ρ → κ) where
  rows : List ρ
  nodup : (rows.map key).Nodup

namespace Table

variable {κ ρ : Type*} {key : ρ → κ}

/-- The table without rows. -/
def empty : Table key := ⟨[], List.nodup_nil⟩

@[ext] theorem ext {s t : Table key} (h : s.rows = t.rows) : s = t := by
  cases s; cases t; cases h; rfl

/-- Rewrite the rows that meet `p`, each keeping its key. -/
def updateWhere (t : Table key) (p : ρ → Bool) (f : ρ → ρ) (hf : ∀ r, key (f r) = key r) :
    Table key where
  rows := t.rows.map (fun r => if p r then f r else r)
  nodup := by
    have hkey : key ∘ (fun r => if p r then f r else r) = key := by
      funext r
      simp only [Function.comp_apply]
      split
      · exact hf r
      · rfl
    rw [List.map_map, hkey]
    exact t.nodup

theorem mem_updateWhere {t : Table key} {p : ρ → Bool} {f : ρ → ρ}
    {hf : ∀ r, key (f r) = key r} {r : ρ} (h : r ∈ (t.updateWhere p f hf).rows) :
    ∃ x ∈ t.rows, key r = key x := by
  obtain ⟨x, hx, rfl⟩ := List.mem_map.mp h
  refine ⟨x, hx, ?_⟩
  split
  · exact hf x
  · rfl

/-- Drop the rows that meet `p`. -/
def deleteWhere (t : Table key) (p : ρ → Bool) : Table key where
  rows := t.rows.filter (fun r => !p r)
  nodup := t.nodup.sublist (List.filter_sublist.map key)

theorem mem_deleteWhere {t : Table key} {p : ρ → Bool} {r : ρ} :
    r ∈ (t.deleteWhere p).rows ↔ r ∈ t.rows ∧ p r = false := by
  simp [deleteWhere]

/-! ### Ordered selections -/

section
variable {t u : Table key} {p : ρ → Bool}

theorem perm_filter (h : ∀ r, p r = true → (r ∈ t.rows ↔ r ∈ u.rows)) :
    (t.rows.filter p).Perm (u.rows.filter p) := by
  refine (List.perm_ext_iff_of_nodup (t.nodup.of_map.filter p) (u.nodup.of_map.filter p)).mpr ?_
  intro r
  rw [List.mem_filter, List.mem_filter, and_congr_left_iff]
  exact h r

theorem sorted_filter_eq (le : ρ → ρ → Prop) [DecidableRel le] [Std.Total le] [IsTrans ρ le]
    (h : ∀ r, p r = true → (r ∈ t.rows ↔ r ∈ u.rows))
    (hle : ∀ a ∈ t.rows, ∀ b ∈ t.rows, p a = true → p b = true → le a b → le b a → key a = key b) :
    (t.rows.filter p).insertionSort le = (u.rows.filter p).insertionSort le := by
  have hperm := ((List.perm_insertionSort le _).trans (perm_filter h)).trans
    (List.perm_insertionSort le _).symm
  refine hperm.eq_of_pairwise (fun a b ha hb hab hba => ?_) (List.pairwise_insertionSort le _)
    (List.pairwise_insertionSort le _)
  have hb := hperm.symm.subset hb
  rw [List.mem_insertionSort, List.mem_filter] at ha hb
  exact List.inj_on_of_nodup_map t.nodup ha.1 hb.1 (hle a ha.1 b hb.1 ha.2 hb.2 hab hba)

end

/-! ### Rows by key -/

variable [DecidableEq κ]

/-- The row stored under key `k`. -/
def find? (t : Table key) (k : κ) : Option ρ := t.rows.find? (fun r => key r = k)

theorem find?_key {t : Table key} {k : κ} {r : ρ} (h : t.find? k = some r) : key r = k := by
  simpa using List.find?_some h

theorem mem_of_find? {t : Table key} {k : κ} {r : ρ} (h : t.find? k = some r) : r ∈ t.rows :=
  List.mem_of_find?_eq_some h

theorem find?_eq_none {t : Table key} {k : κ} : t.find? k = none ↔ ∀ r ∈ t.rows, key r ≠ k := by
  simp [find?]

theorem find?_of_mem {t : Table key} {k : κ} {r : ρ} (h : r ∈ t.rows) (hk : key r = k) :
    t.find? k = some r := by
  cases hf : t.find? k with
  | none => exact absurd hk (find?_eq_none.mp hf r h)
  | some x =>
      have hx : key x = key r := (find?_key hf).trans hk.symm
      rw [List.inj_on_of_nodup_map t.nodup (mem_of_find? hf) h hx]

@[simp] theorem find?_empty (k : κ) : (empty : Table key).find? k = none := rfl

theorem find?_updateWhere (t : Table key) (p : ρ → Bool) (f : ρ → ρ)
    (hf : ∀ r, key (f r) = key r) (k : κ) :
    (t.updateWhere p f hf).find? k = (t.find? k).map (fun r => if p r then f r else r) := by
  have hkey : ∀ r, key (if p r then f r else r) = key r := by
    intro r
    split
    · exact hf r
    · rfl
  simp only [find?, updateWhere, List.find?_map, Function.comp_def, hkey]

theorem map_find?_updateWhere {β : Type*} (t : Table key) (p : ρ → Bool) {f : ρ → ρ}
    (hf : ∀ r, key (f r) = key r) {g : ρ → β} (hg : ∀ r, g (f r) = g r) (k : κ) :
    ((t.updateWhere p f hf).find? k).map g = (t.find? k).map g := by
  rw [find?_updateWhere, Option.map_map]
  congr 1
  funext r
  simp only [Function.comp_apply]
  split
  · exact hg r
  · rfl

theorem find?_deleteWhere (t : Table key) (p : ρ → Bool) (k : κ) :
    (t.deleteWhere p).find? k = (t.find? k).filter (fun r => !p r) := by
  cases hk : t.find? k with
  | none =>
      rw [find?_eq_none] at hk
      exact find?_eq_none.mpr fun r hr => hk r (mem_deleteWhere.mp hr).1
  | some r =>
      have hmem := mem_of_find? hk
      cases hp : p r with
      | false =>
          rw [Option.filter_some, if_pos (by simp [hp])]
          exact find?_of_mem (mem_deleteWhere.mpr ⟨hmem, hp⟩) (find?_key hk)
      | true =>
          rw [Option.filter_some, if_neg (by simp [hp])]
          refine find?_eq_none.mpr fun x hx hkx => ?_
          obtain ⟨hx, hpx⟩ := mem_deleteWhere.mp hx
          have hxr : x = r := List.inj_on_of_nodup_map t.nodup hx hmem (hkx.trans (find?_key hk).symm)
          rw [hxr, hp] at hpx
          cases hpx

theorem updateWhere_rows {t : Table key} {k : κ} {r : ρ} (h : t.find? k = some r) (f : ρ → ρ)
    (hf : ∀ r, key (f r) = key r) :
    ∃ before after, t.rows = before ++ r :: after ∧
      (t.updateWhere (fun x => decide (key x = k)) f hf).rows = before ++ f r :: after := by
  have hk := find?_key h
  obtain ⟨before, after, hrows⟩ := List.append_of_mem (mem_of_find? h)
  have hnodup := t.nodup
  rw [hrows, List.map_append, List.map_cons, List.nodup_append, List.nodup_cons] at hnodup
  have hsame : ∀ xs : List ρ, (∀ x ∈ xs, key x ≠ k) →
      xs.map (fun x => if decide (key x = k) = true then f x else x) = xs := by
    intro xs hxs
    refine (List.map_congr_left fun x hx => ?_).trans (List.map_id xs)
    rw [decide_eq_false (hxs x hx), if_neg (by simp)]
    rfl
  have hbefore := hsame before fun x hx heq =>
    hnodup.2.2 (key x) (List.mem_map_of_mem hx) (key r) List.mem_cons_self (heq.trans hk.symm)
  have hafter := hsame after fun x hx heq =>
    hnodup.2.1.1 (heq.trans hk.symm ▸ List.mem_map_of_mem hx)
  refine ⟨before, after, hrows, ?_⟩
  simp only [updateWhere, hrows, List.map_append, List.map_cons, hbefore, hafter, hk,
    decide_true, if_true]

/-- Append a row unless its key is taken. -/
def insertIgnore (t : Table key) (r : ρ) : Table key :=
  if h : t.find? (key r) = none then
    { rows := t.rows ++ [r]
      nodup := by
        have hne := find?_eq_none.mp h
        rw [List.map_append, List.nodup_append]
        refine ⟨t.nodup, by simp, ?_⟩
        intro a ha b hb
        obtain ⟨x, hx, rfl⟩ := List.mem_map.mp ha
        simp only [List.map_cons, List.map_nil, List.mem_singleton] at hb
        exact hb ▸ hne x hx }
  else t

theorem insertIgnore_rows {t : Table key} {r : ρ} (h : t.find? (key r) = none) :
    (t.insertIgnore r).rows = t.rows ++ [r] := by
  rw [insertIgnore, dif_pos h]

theorem mem_insertIgnore {t : Table key} {r x : ρ} (h : x ∈ (t.insertIgnore r).rows) :
    x ∈ t.rows ∨ x = r := by
  unfold insertIgnore at h
  split at h
  · simpa using h
  · exact .inl h

theorem mem_insertIgnore_of_mem {t : Table key} {r x : ρ} (h : x ∈ t.rows) :
    x ∈ (t.insertIgnore r).rows := by
  unfold insertIgnore
  split
  · exact List.mem_append_left _ h
  · exact h

theorem find?_insertIgnore_self {t : Table key} {r : ρ} (h : t.find? (key r) = none) :
    (t.insertIgnore r).find? (key r) = some r := by
  have hl : t.rows.find? (fun x => decide (key x = key r)) = none := h
  simp [find?, insertIgnore_rows h, List.find?_append, hl]

theorem find?_insertIgnore_of_ne {t : Table key} {r : ρ} {k : κ} (h : key r ≠ k) :
    (t.insertIgnore r).find? k = t.find? k := by
  unfold insertIgnore
  split
  · simp [find?, List.find?_append, h]
  · rfl

theorem find?_insertIgnore_of_some {t : Table key} {r x : ρ} {k : κ} (h : t.find? k = some x) :
    (t.insertIgnore r).find? k = some x := by
  by_cases hk : key r = k
  · subst hk
    rw [insertIgnore, dif_neg (by simp [h]), h]
  · rw [find?_insertIgnore_of_ne hk, h]

/-- Put a row, dropping the one with its key. -/
def replace (t : Table key) (r : ρ) : Table key where
  rows := (t.deleteWhere fun x => decide (key x = key r)).rows ++ [r]
  nodup := by
    rw [List.map_append, List.nodup_append]
    refine ⟨(t.deleteWhere _).nodup, by simp, fun a ha b hb => ?_⟩
    obtain ⟨x, hx, rfl⟩ := List.mem_map.mp ha
    have hne := (mem_deleteWhere.mp hx).2
    simp only [List.map_cons, List.map_nil, List.mem_singleton] at hb
    rw [hb]
    simpa using hne

theorem replace_rows (t : Table key) (r : ρ) :
    (t.replace r).rows = t.rows.filter (fun x => !decide (key x = key r)) ++ [r] := rfl

theorem mem_replace {t : Table key} {r x : ρ} :
    x ∈ (t.replace r).rows ↔ x = r ∨ (x ∈ t.rows ∧ key x ≠ key r) := by
  rw [replace, List.mem_append, mem_deleteWhere, List.mem_singleton, or_comm, decide_eq_false_iff_not]

theorem find?_replace (t : Table key) (r : ρ) (k : κ) :
    (t.replace r).find? k = if k = key r then some r else t.find? k := by
  split
  · rename_i hk
    exact find?_of_mem (mem_replace.mpr (.inl rfl)) hk.symm
  · rename_i hk
    cases hf : t.find? k with
    | none =>
        refine find?_eq_none.mpr fun x hx => ?_
        rcases mem_replace.mp hx with rfl | ⟨hx, -⟩
        · exact fun h => hk h.symm
        · exact find?_eq_none.mp hf x hx
    | some x =>
        have hx := find?_key hf
        exact find?_of_mem (mem_replace.mpr (.inr ⟨mem_of_find? hf, hx ▸ hk⟩)) hx

/-! ### Rows put one after the other -/

/-- Every row in turn: of each key the last one stays. -/
def latest (rs : List ρ) : Table key := rs.foldl replace empty

variable {rs : List ρ} {r : ρ}

theorem latest_concat (rs : List ρ) (r : ρ) :
    (latest (rs ++ [r]) : Table key) = (latest rs).replace r := by
  rw [latest, List.foldl_append]
  rfl

theorem find?_latest (rs : List ρ) (k : κ) :
    (latest rs : Table key).find? k = (rs.filter fun r => decide (key r = k)).getLast? := by
  induction rs using List.reverseRecOn with
  | nil => rfl
  | append_singleton rs r ih =>
      rw [latest_concat, find?_replace, List.filter_append]
      by_cases hk : key r = k
      · rw [if_pos hk.symm, List.filter_cons_of_pos (by simpa using hk), List.filter_nil,
          List.getLast?_concat]
      · rw [if_neg fun h => hk h.symm, List.filter_cons_of_neg (by simpa using hk), List.filter_nil,
          List.append_nil, ih]

theorem mem_latest (h : r ∈ (latest rs : Table key).rows) : r ∈ rs := by
  have hfind := find?_of_mem h rfl
  rw [find?_latest] at hfind
  exact (List.mem_filter.mp (List.mem_of_getLast? hfind)).1

theorem latest_rows (t : Table key) : latest t.rows = t := by
  have hrows : ∀ rs : List ρ, (rs.map key).Nodup → (latest rs : Table key).rows = rs := by
    intro rs
    induction rs using List.reverseRecOn with
    | nil => exact fun _ => rfl
    | append_singleton rs r ih =>
        intro hnodup
        rw [List.map_append, List.nodup_append] at hnodup
        have hkeep : rs.filter (fun x => !decide (key x = key r)) = rs := by
          refine List.filter_eq_self.mpr fun x hx => ?_
          have hne := hnodup.2.2 (key x) (List.mem_map_of_mem hx) (key r) List.mem_cons_self
          simpa using hne
        rw [latest_concat, replace_rows, ih hnodup.1, hkeep]
  exact ext (hrows t.rows t.nodup)

/-- Rows may be translated before or after, where the keys stay. -/
theorem rows_latest_map {σ : Type*} {key' : σ → κ} {f : ρ → σ} (hf : ∀ r, key' (f r) = key r)
    (rs : List ρ) : (latest (rs.map f) : Table key').rows = (latest rs : Table key).rows.map f := by
  induction rs using List.reverseRecOn with
  | nil => rfl
  | append_singleton rs r ih =>
      rw [List.map_append, List.map_cons, List.map_nil, latest_concat, latest_concat, replace_rows,
        replace_rows, ih, List.map_append, List.filter_map, hf]
      simp only [Function.comp_def, hf, List.map_cons, List.map_nil]

end Table

end AiTrader
