import Mathlib.Data.List.Pairwise
import Mathlib.Order.Basic

/-! # Pages of a list that shrinks

A list is handed out in pages of a fixed size, and between two pages some of what is still to come
may be taken away.

* `pages`: the pages, unless the fuel runs out.
* `pages_isSome`: as many pages as the size divides the length, and one more, are enough.
* `flatten_sublist`: what is handed out keeps its order and comes once.
* `filter_flatten`: what is never taken away is handed out.
* `mem_drop_iff`: in a list in strict order, what lies behind a page is what is less than its last
  entry.
* `eq_of_mem_iff`: lists in strict order are told apart by their entries. -/

namespace AiTrader.Paging

variable {α : Type*} {size fuel k : ℕ} {keep : ℕ → α → Bool} {rows : List α} {ps : List (List α)}

/-- Pages of `size` entries.  Of what lies behind page `k`, only what `keep k` admits is there for
the next page. -/
def pages (size : ℕ) (keep : ℕ → α → Bool) : ℕ → ℕ → List α → Option (List (List α))
  | 0, _, _ => none
  | fuel + 1, k, rows =>
      if rows.length ≤ size then some [rows]
      else (pages size keep fuel (k + 1) ((rows.drop size).filter (keep k))).map (rows.take size :: ·)

theorem pages_cases (h : pages size keep (fuel + 1) k rows = some ps) :
    (rows.length ≤ size ∧ ps = [rows]) ∨
    ∃ rest, size < rows.length ∧
      pages size keep fuel (k + 1) ((rows.drop size).filter (keep k)) = some rest ∧
      ps = rows.take size :: rest := by
  rw [pages] at h
  split at h
  · rename_i hle
    exact .inl ⟨hle, (Option.some.inj h).symm⟩
  · rename_i hlt
    obtain ⟨rest, hrest, hps⟩ := Option.map_eq_some_iff.mp h
    exact .inr ⟨rest, Nat.lt_of_not_le hlt, hrest, hps.symm⟩

theorem pages_isSome (keep : ℕ → α → Bool) (k : ℕ) (rows : List α) (hsize : 0 < size)
    (hfuel : rows.length / size < fuel) :
    ∃ ps, pages size keep fuel k rows = some ps := by
  induction fuel generalizing k rows with
  | zero => exact absurd hfuel (Nat.not_lt_zero _)
  | succ fuel ih =>
      rw [pages]
      split
      · exact ⟨[rows], rfl⟩
      · rename_i hlt
        have hshorter : ((rows.drop size).filter (keep k)).length ≤ rows.length - size := by
          rw [← List.length_drop]
          exact List.length_filter_le _ _
        have hquot : ((rows.drop size).filter (keep k)).length / size < fuel := by
          have hdiv := Nat.div_le_div_right (c := size) hshorter
          have hless : rows.length / size = (rows.length - size) / size + 1 :=
            Nat.div_eq_sub_div hsize (Nat.le_of_not_le hlt)
          omega
        obtain ⟨rest, hrest⟩ := ih (k + 1) _ hquot
        exact ⟨rows.take size :: rest, by rw [hrest, Option.map_some]⟩

theorem length_le (h : pages size keep fuel k rows = some ps) : ps.length ≤ fuel := by
  induction fuel generalizing k rows ps with
  | zero => cases h
  | succ fuel ih =>
      rcases pages_cases h with ⟨-, rfl⟩ | ⟨rest, -, hrest, rfl⟩
      · exact Nat.succ_le_succ (Nat.zero_le fuel)
      · exact Nat.succ_le_succ (ih hrest)

theorem flatten_sublist (h : pages size keep fuel k rows = some ps) : ps.flatten.Sublist rows := by
  induction fuel generalizing k rows ps with
  | zero => cases h
  | succ fuel ih =>
      rcases pages_cases h with ⟨-, rfl⟩ | ⟨rest, -, hrest, rfl⟩
      · simp
      · have hbehind := (ih hrest).trans List.filter_sublist
        have hall := hbehind.append_left (rows.take size)
        rwa [List.take_append_drop] at hall

/-- What meets `p` is handed out if no step but the last took it away. -/
theorem filter_flatten {p : α → Bool} (h : pages size keep fuel k rows = some ps)
    (hkeep : ∀ j, j + 1 < ps.length → ∀ x, p x = true → keep (k + j) x = true) :
    ps.flatten.filter p = rows.filter p := by
  induction fuel generalizing k rows ps with
  | zero => cases h
  | succ fuel ih =>
      rcases pages_cases h with ⟨-, rfl⟩ | ⟨rest, -, hrest, rfl⟩
      · rw [List.flatten_singleton]
      · have hpos : 0 < rest.length := by
          cases fuel with
          | zero => cases hrest
          | succ fuel =>
              rcases pages_cases hrest with ⟨-, rfl⟩ | ⟨-, -, -, rfl⟩ <;> exact Nat.succ_pos _
        have hfirst : ((rows.drop size).filter (keep k)).filter p = (rows.drop size).filter p := by
          rw [List.filter_filter]
          refine List.filter_congr fun x _ => ?_
          cases hp : p x with
          | false => rfl
          | true => rw [Bool.true_and]; exact hkeep 0 (Nat.succ_lt_succ hpos) x hp
        have hbehind := ih hrest fun j hj x hx => by
          rw [Nat.add_assoc, Nat.add_comm 1 j]
          exact hkeep (j + 1) (Nat.succ_lt_succ hj) x hx
        rw [List.flatten_cons, List.filter_append, hbehind, hfirst, ← List.filter_append,
          List.take_append_drop]

/-- What lies behind the first entries of a list in strict order. -/
theorem mem_drop_iff {κ : Type*} [Preorder κ] {key : α → κ} {last x : α}
    (hsorted : rows.Pairwise fun a b => key b < key a)
    (hlast : (rows.take size).getLast? = some last) :
    x ∈ rows.drop size ↔ x ∈ rows ∧ key x < key last := by
  obtain ⟨front, hfront⟩ := List.getLast?_eq_some_iff.mp hlast
  have hsplit := hsorted
  rw [← List.take_append_drop size rows, List.pairwise_append] at hsplit
  obtain ⟨hpage, -, hbehind⟩ := hsplit
  have hmem : last ∈ rows.take size := List.mem_of_getLast? hlast
  constructor
  · intro hx
    exact ⟨List.mem_of_mem_drop hx, hbehind last hmem x hx⟩
  · rintro ⟨hx, hlt⟩
    rw [← List.take_append_drop size rows] at hx
    rcases List.mem_append.mp hx with hx | hx
    · -- nothing on the page is less than its last entry
      rw [hfront, List.pairwise_append] at hpage
      rw [hfront] at hx
      rcases List.mem_append.mp hx with hx | hx
      · exact absurd (hlt.trans (hpage.2.2 x hx last List.mem_cons_self)) (lt_irrefl _)
      · exact absurd (List.mem_singleton.mp hx ▸ hlt) (lt_irrefl _)
    · exact hx

theorem eq_of_mem_iff {κ : Type*} [Preorder κ] {key : α → κ} {rows' : List α}
    (hrows : rows.Pairwise fun a b => key b < key a)
    (hrows' : rows'.Pairwise fun a b => key b < key a) (h : ∀ x, x ∈ rows ↔ x ∈ rows') :
    rows = rows' := by
  have hnodup {l : List α} (hl : l.Pairwise fun a b => key b < key a) : l.Nodup :=
    hl.imp fun hlt heq => absurd (heq ▸ hlt) (lt_irrefl _)
  have hperm := (List.perm_ext_iff_of_nodup (hnodup hrows) (hnodup hrows')).mpr h
  exact hperm.eq_of_pairwise (fun _ _ _ _ hab hba => absurd hba hab.asymm) hrows hrows'

end AiTrader.Paging
