import AiTrader.Library.Table
import Mathlib.Algebra.BigOperators.Group.List.Basic

/-! # Dictionaries

A dictionary is a table of pairs.  A new key goes to the end, a key that is there keeps its place.

* `put`, `modify`: `d[k] = v`, and a value made from the one that is there.
* `filter_key`: the rows of a key.
* `ofList_rows`: pairs with distinct keys, entered one after the other.
* `get?_accumulate`: one value for each key, made from the items of that key in their order.
* `sum_accumulate`: what every item adds, summed over the keys. -/

namespace AiTrader

abbrev Dict (κ ς : Type*) := Table (Prod.fst : κ × ς → κ)

namespace Dict

variable {κ ς α : Type*} [DecidableEq κ] {d : Dict κ ς} {k j : κ} {v : ς}

def get? (d : Dict κ ς) (k : κ) : Option ς := (d.find? k).map Prod.snd

/-- `d[k] = v`. -/
def put (d : Dict κ ς) (k : κ) (v : ς) : Dict κ ς :=
  if (d.find? k).isSome then
    d.updateWhere (fun r => decide (r.1 = k)) (fun r => (r.1, v)) fun _ => rfl
  else d.insertIgnore (k, v)

/-- `d[k] = f(d.get(k, default))`. -/
def modify (d : Dict κ ς) (k : κ) (default : ς) (f : ς → ς) : Dict κ ς :=
  d.put k (f ((d.get? k).getD default))

theorem put_rows_of_new (h : d.find? k = none) : (d.put k v).rows = d.rows ++ [(k, v)] := by
  rw [put, h, if_neg (by simp)]
  exact Table.insertIgnore_rows h

theorem put_rows_of_mem (h : (d.find? k).isSome = true) :
    (d.put k v).rows = d.rows.map fun r => if r.1 = k then (r.1, v) else r := by
  rw [put, if_pos h]
  simp [Table.updateWhere]

theorem get?_put : (d.put k v).get? j = if j = k then some v else d.get? j := by
  rw [put, get?, get?]
  split
  · rename_i hsome
    rw [Table.find?_updateWhere]
    cases hj : d.find? j with
    | none =>
        rw [if_neg]
        · rfl
        · rintro rfl
          rw [hj] at hsome
          cases hsome
    | some r =>
        have hr := Table.find?_key hj
        by_cases hk : j = k
        · simp [hr, hk]
        · simp [hr, hk]
  · rename_i hnone
    have hfind : d.find? k = none := Option.not_isSome_iff_eq_none.mp hnone
    by_cases hk : j = k
    · subst hk
      rw [if_pos rfl, Table.find?_insertIgnore_self (r := (j, v)) hfind]
      rfl
    · rw [if_neg hk, Table.find?_insertIgnore_of_ne (r := (k, v)) (Ne.symm hk)]

theorem get?_modify {default : ς} {f : ς → ς} :
    (d.modify k default f).get? j =
      if j = k then some (f ((d.get? k).getD default)) else d.get? j := get?_put

theorem mem_keys : k ∈ d.rows.map Prod.fst ↔ (d.get? k).isSome = true := by
  rw [get?, Option.isSome_map]
  constructor
  · intro hk
    obtain ⟨r, hr, rfl⟩ := List.mem_map.mp hk
    rw [Table.find?_of_mem hr rfl]
    rfl
  · intro hk
    obtain ⟨r, hr⟩ := Option.isSome_iff_exists.mp hk
    exact List.mem_map.mpr ⟨r, Table.mem_of_find? hr, Table.find?_key hr⟩

theorem get?_of_mem (h : (k, v) ∈ d.rows) : d.get? k = some v := by
  rw [get?, Table.find?_of_mem h rfl]
  rfl

theorem rows_of_find? {r : κ × ς} (h : d.find? k = some r) :
    ∃ pre post, d.rows = pre ++ r :: post ∧ (∀ x ∈ pre, x.1 ≠ k) ∧ ∀ x ∈ post, x.1 ≠ k := by
  have hkey : r.1 = k := Table.find?_key h
  obtain ⟨pre, post, hrows⟩ := List.append_of_mem (Table.mem_of_find? h)
  have hnodup := d.nodup
  rw [hrows, List.map_append, List.map_cons, List.nodup_append] at hnodup
  refine ⟨pre, post, hrows, fun x hx heq => ?_, fun x hx heq => ?_⟩
  · exact hnodup.2.2 x.1 (List.mem_map_of_mem hx) r.1 List.mem_cons_self (heq.trans hkey.symm)
  · exact (List.nodup_cons.mp hnodup.2.1).1 (List.mem_map.mpr ⟨x, hx, heq.trans hkey.symm⟩)

theorem filter_key (d : Dict κ ς) (k : κ) :
    d.rows.filter (fun r => decide (r.1 = k)) = ((d.get? k).map fun v => (k, v)).toList := by
  rw [get?]
  cases hk : d.find? k with
  | none =>
      refine List.filter_eq_nil_iff.mpr fun r hr => ?_
      simpa using Table.find?_eq_none.mp hk r hr
  | some r =>
      have hkey : r.1 = k := Table.find?_key hk
      obtain ⟨pre, post, hrows, hpre, hpost⟩ := rows_of_find? hk
      have hnone : ∀ xs : List (κ × ς), (∀ x ∈ xs, x.1 ≠ k) →
          xs.filter (fun x => decide (x.1 = k)) = [] := fun xs hxs =>
        List.filter_eq_nil_iff.mpr fun x hx => by simpa using hxs x hx
      rw [hrows, List.filter_append, hnone pre hpre, List.filter_cons,
        if_pos (decide_eq_true hkey), hnone post hpost, ← hkey]
      rfl

/-! ### Pairs entered one after the other -/

/-- The dictionary of a list of pairs; the last pair of a key counts. -/
def ofList (kvs : List (κ × ς)) : Dict κ ς := kvs.foldl (fun d kv => d.put kv.1 kv.2) Table.empty

theorem ofList_concat (kvs : List (κ × ς)) (kv : κ × ς) :
    ofList (kvs ++ [kv]) = (ofList kvs).put kv.1 kv.2 := by
  rw [ofList, List.foldl_append]
  rfl

theorem mem_keys_ofList {kvs : List (κ × ς)} :
    k ∈ (ofList kvs).rows.map Prod.fst ↔ k ∈ kvs.map Prod.fst := by
  induction kvs using List.reverseRecOn with
  | nil => rfl
  | append_singleton kvs kv ih =>
      rw [mem_keys, ofList_concat, get?_put, List.map_append, List.mem_append, ← ih, mem_keys]
      by_cases hk : k = kv.1
      · simp [hk]
      · simp [hk]

theorem mem_of_get?_ofList {kvs : List (κ × ς)} (h : (ofList kvs).get? k = some v) :
    (k, v) ∈ kvs := by
  induction kvs using List.reverseRecOn with
  | nil => cases h
  | append_singleton kvs kv ih =>
      rw [ofList_concat, get?_put] at h
      split at h
      · rename_i hk
        cases h
        simp [hk]
      · exact List.mem_append_left _ (ih h)

/-- Distinct keys stay as they are. -/
theorem ofList_rows {kvs : List (κ × ς)} (h : (kvs.map Prod.fst).Nodup) :
    (ofList kvs).rows = kvs := by
  induction kvs using List.reverseRecOn with
  | nil => rfl
  | append_singleton kvs kv ih =>
      rw [List.map_append, List.nodup_append] at h
      have hnew : (ofList kvs).find? kv.1 = none := by
        refine Table.find?_eq_none.mpr fun r hr hkey => ?_
        have hmem := mem_keys_ofList.mp (List.mem_map_of_mem hr)
        exact h.2.2 _ hmem kv.1 (by simp) hkey
      rw [ofList_concat, put_rows_of_new hnew, ih h.1]

/-! ### One value for each key -/

variable (key : α → κ) (init : ς) (step : ς → α → ς)

/-- Every item goes into the value of its key. -/
def accumulate (as : List α) : Dict κ ς :=
  as.foldl (fun d a => d.modify (key a) init fun s => step s a) Table.empty

variable {key init step} {as : List α}

theorem accumulate_concat (a : α) :
    accumulate key init step (as ++ [a]) =
      (accumulate key init step as).modify (key a) init fun s => step s a := by
  rw [accumulate, List.foldl_append]
  rfl

theorem get?_accumulate (as : List α) (k : κ) :
    (accumulate key init step as).get? k =
      if ∃ a ∈ as, key a = k then
        some ((as.filter fun a => decide (key a = k)).foldl step init)
      else none := by
  induction as using List.reverseRecOn with
  | nil => simp [accumulate, get?]
  | append_singleton as a ih =>
      have hex : (∃ b ∈ as ++ [a], key b = k) ↔ (∃ b ∈ as, key b = k) ∨ key a = k := by
        simp [or_and_right, exists_or]
      rw [accumulate_concat, get?_modify, List.filter_append, List.foldl_append]
      by_cases hk : k = key a
      · subst hk
        rw [if_pos rfl, if_pos (hex.mpr (.inr rfl)), ih]
        by_cases hold : ∃ b ∈ as, key b = key a
        · simp [hold]
        · have hnone : as.filter (fun b => decide (key b = key a)) = [] :=
            List.filter_eq_nil_iff.mpr fun b hb => by
              simpa using fun heq => hold ⟨b, hb, heq⟩
          simp [hold, hnone]
      · rw [if_neg hk, ih]
        have hne : ¬ key a = k := fun heq => hk heq.symm
        have hiff : (∃ b ∈ as ++ [a], key b = k) ↔ ∃ b ∈ as, key b = k :=
          hex.trans (or_iff_left hne)
        simp only [hiff, hne, List.filter_cons, decide_false, Bool.false_eq_true, if_false,
          List.filter_nil, List.foldl_nil]

theorem sum_modify {M : Type*} [AddCommMonoid M] {w : ς → M} {c : M} {f : ς → ς}
    (hinit : w init = 0) (hf : ∀ s, w (f s) = w s + c) :
    ((d.modify k init f).rows.map fun r => w r.2).sum = (d.rows.map fun r => w r.2).sum + c := by
  rw [modify]
  cases hk : d.find? k with
  | none => rw [put_rows_of_new hk, get?, hk, List.map_append, List.sum_append]; simp [hf, hinit]
  | some r =>
      have hsome : (d.find? k).isSome = true := by rw [hk]; rfl
      have hkey : r.1 = k := Table.find?_key hk
      have hget : d.get? k = some r.2 := by rw [get?, hk]; rfl
      obtain ⟨pre, post, hrows, hpre, hpost⟩ := rows_of_find? hk
      have hsame : ∀ (xs : List (κ × ς)) (v : ς), (∀ x ∈ xs, x.1 ≠ k) →
          (xs.map fun x => if x.1 = k then (x.1, v) else x) = xs := fun xs v hxs => by
        conv_rhs => rw [← List.map_id xs]
        exact List.map_congr_left fun x hx => if_neg (hxs x hx)
      rw [put_rows_of_mem hsome, hget, Option.getD_some, hrows, List.map_append, List.map_cons,
        hsame pre _ hpre, hsame post _ hpost, if_pos hkey]
      simp only [List.map_append, List.map_cons, List.sum_append, List.sum_cons, hf]
      rw [add_right_comm (w r.2) c, ← add_assoc]

theorem sum_accumulate {M : Type*} [AddCommMonoid M] {w : ς → M} {c : α → M}
    (hinit : w init = 0) (hstep : ∀ s a, w (step s a) = w s + c a) (as : List α) :
    ((accumulate key init step as).rows.map fun r => w r.2).sum = (as.map c).sum := by
  induction as using List.reverseRecOn with
  | nil => rfl
  | append_singleton as a ih =>
      rw [accumulate_concat, sum_modify hinit (fun s => hstep s a), ih]
      simp

end Dict

end AiTrader
