import Mathlib.Data.List.Nodup
import Mathlib.Data.List.Pairwise
import Mathlib.Logic.Function.Basic

/-! # Getting the row of a key, or inserting it

Callers that each want the one row of a key look the key up, insert a row when there is none, and
look it up again when the unique index refuses the insert.  Look-up, insert and commit are steps
of their own, and the steps of different callers interleave.  Of a row only its id and its key
matter here; a row without a key is never looked up, and the index does not see it.

* `Step`: one statement of one caller.
* `Kept`: what holds in every state, whatever the order of the statements.
* `Kept.only_row`: a caller that has returned has returned the id of the only row of its key.
* `Kept.own_row`: callers with different keys have returned different ids. -/

namespace AiTrader.GetOrInsert

/-- The id and the key of a row. -/
structure Entry (κ : Type*) where
  id : ℕ
  key : Option κ

section
variable {κ : Type*} [DecidableEq κ]

/-- The first row of a key. -/
def find (entries : List (Entry κ)) (k : κ) : Option ℕ :=
  (entries.find? fun e => decide (e.key = some k)).map Entry.id

/-- Ids ascend, and no key stands twice. -/
structure Indexed (entries : List (Entry κ)) : Prop where
  ids : entries.Pairwise fun a b => a.id < b.id
  keys : entries.Pairwise fun a b => a.key ≠ none → a.key ≠ b.key

variable {entries : List (Entry κ)} {e : Entry κ} {k : κ} {id : ℕ}

theorem find_eq_some (h : find entries k = some id) : ∃ e ∈ entries, e.id = id ∧ e.key = some k := by
  obtain ⟨e, he, rfl⟩ := Option.map_eq_some_iff.mp h
  exact ⟨e, List.mem_of_find?_eq_some he, rfl, by simpa using List.find?_some he⟩

theorem find_eq_none : find entries k = none ↔ ∀ e ∈ entries, e.key ≠ some k := by
  rw [find, Option.map_eq_none_iff, List.find?_eq_none]
  simp

theorem Indexed.filter_key (h : Indexed entries) (he : e ∈ entries) (hk : e.key = some k) :
    entries.filter (fun e => decide (e.key = some k)) = [e] := by
  have hkeys := h.keys
  clear h
  induction entries with
  | nil => cases he
  | cons a entries ih =>
      obtain ⟨hfirst, hrest⟩ := List.pairwise_cons.mp hkeys
      rcases List.mem_cons.mp he with rfl | he
      · rw [List.filter_cons_of_pos (by simpa using hk), List.filter_eq_nil_iff.mpr]
        intro b hb
        have hne := hfirst b hb (by rw [hk]; exact Option.some_ne_none k)
        rw [hk] at hne
        simpa using fun h => hne h.symm
      · have hne : a.key ≠ some k := by
          intro ha
          exact hfirst e he (by rw [ha]; exact Option.some_ne_none k) (ha.trans hk.symm)
        rw [List.filter_cons_of_neg (by simpa using hne)]
        exact ih he hrest

omit [DecidableEq κ] in
theorem Indexed.eq_of_id (h : Indexed entries) {a b : Entry κ} (ha : a ∈ entries)
    (hb : b ∈ entries) (hid : a.id = b.id) : a = b := by
  have hnodup : (entries.map Entry.id).Nodup :=
    List.pairwise_map.mpr (h.ids.imp fun hlt => Nat.ne_of_lt hlt)
  exact List.inj_on_of_nodup_map hnodup ha hb hid

theorem Indexed.concat (h : Indexed entries) (hid : ∀ a ∈ entries, a.id < e.id)
    (hkey : ∀ k, e.key = some k → find entries k = none) : Indexed (entries ++ [e]) := by
  constructor
  case ids =>
    refine List.pairwise_append.mpr ⟨h.ids, List.pairwise_singleton _ _, fun a ha b hb => ?_⟩
    rw [List.mem_singleton.mp hb]
    exact hid a ha
  case keys =>
    refine List.pairwise_append.mpr ⟨h.keys, List.pairwise_singleton _ _, ?_⟩
    intro a ha b hb hne heq
    rw [List.mem_singleton.mp hb] at heq
    cases hk : e.key with
    | none => exact hne (heq.trans hk)
    | some k => exact find_eq_none.mp (hkey k hk) a ha (heq.trans hk)

end

/-- Where a caller stands. -/
inductive Phase
  | start
  | ready
  | inserted (id : ℕ)
  | conflict
  | returned (id : ℕ)
  | failed

/-- The committed rows, and the row of the open transaction. -/
structure St (ω κ : Type*) where
  committed : List (Entry κ)
  pending : Option (ω × Entry κ)
  phase : ω → Phase

namespace St

variable {ω κ : Type*} [DecidableEq ω]

/-- The caller `i` moves on. -/
def goto (s : St ω κ) (i : ω) (p : Phase) : St ω κ :=
  { s with phase := Function.update s.phase i p }

@[simp] theorem goto_committed (s : St ω κ) (i : ω) (p : Phase) :
    (s.goto i p).committed = s.committed := rfl

@[simp] theorem goto_pending (s : St ω κ) (i : ω) (p : Phase) :
    (s.goto i p).pending = s.pending := rfl

@[simp] theorem goto_phase (s : St ω κ) (i : ω) (p : Phase) :
    (s.goto i p).phase = Function.update s.phase i p := rfl

end St

section
variable {ω κ : Type*} [DecidableEq ω] [DecidableEq κ] (key : ω → Option κ)

/-- One statement of one caller. -/
inductive Step (s : St ω κ) : St ω κ → Prop
  | stay : Step s s
  | found {i : ω} {k : κ} {id : ℕ} (hphase : s.phase i = .start ∨ s.phase i = .conflict)
      (hkey : key i = some k) (hfind : find s.committed k = some id) :
      Step s (s.goto i (.returned id))
  | absent {i : ω} {k : κ} (hphase : s.phase i = .start) (hkey : key i = some k)
      (hfind : find s.committed k = none) : Step s (s.goto i .ready)
  | lost {i : ω} {k : κ} (hphase : s.phase i = .conflict) (hkey : key i = some k)
      (hfind : find s.committed k = none) : Step s (s.goto i .failed)
  | insert {i : ω} {id : ℕ} (hphase : s.phase i = .ready) (hidle : s.pending = none)
      (hid : ∀ e ∈ s.committed, e.id < id)
      (hfree : ∀ k, key i = some k → find s.committed k = none) :
      Step s { s.goto i (.inserted id) with pending := some (i, ⟨id, key i⟩) }
  | refuse {i : ω} {k : κ} (hphase : s.phase i = .ready) (hkey : key i = some k)
      (htaken : find s.committed k ≠ none) : Step s (s.goto i .conflict)
  | commit {i : ω} {e : Entry κ} (hpending : s.pending = some (i, e)) :
      Step s { s.goto i (.returned e.id) with committed := s.committed ++ [e], pending := none }

/-- What holds in every state.  A call fails only if it was `dead` from the start. -/
structure Kept (dead : ω → Prop) (s : St ω κ) : Prop where
  table : Indexed s.committed
  pending : ∀ i e, s.pending = some (i, e) →
    Indexed (s.committed ++ [e]) ∧ e.key = key i ∧ s.phase i = .inserted e.id
  returned : ∀ i id, s.phase i = .returned id → ∃ e ∈ s.committed, e.id = id ∧ e.key = key i
  conflict : ∀ i, s.phase i = .conflict → ∃ k, key i = some k ∧ find s.committed k ≠ none
  failed : ∀ i, s.phase i = .failed → dead i

variable {key} {dead : ω → Prop} {s s' : St ω κ}

/-- What a phase says of its caller. -/
def TrueOf (key : ω → Option κ) (dead : ω → Prop) (committed : List (Entry κ)) (i : ω) :
    Phase → Prop
  | .returned id => ∃ e ∈ committed, e.id = id ∧ e.key = key i
  | .conflict => ∃ k, key i = some k ∧ find committed k ≠ none
  | .failed => dead i
  | _ => True

omit [DecidableEq ω] in
theorem Kept.caller (hs : Kept key dead s) (i : ω) :
    TrueOf key dead s.committed i (s.phase i) := by
  cases hphase : s.phase i with
  | returned id => exact hs.returned i id hphase
  | conflict => exact hs.conflict i hphase
  | failed => exact hs.failed i hphase
  | _ => trivial

omit [DecidableEq ω] in
theorem Kept.of_callers (htable : Indexed s.committed)
    (hpending : ∀ i e, s.pending = some (i, e) →
      Indexed (s.committed ++ [e]) ∧ e.key = key i ∧ s.phase i = .inserted e.id)
    (hcallers : ∀ i, TrueOf key dead s.committed i (s.phase i)) : Kept key dead s := by
  refine ⟨htable, hpending, fun i id hphase => ?_, fun i hphase => ?_, fun i hphase => ?_⟩
  · have htrue := hcallers i
    rwa [hphase] at htrue
  · have htrue := hcallers i
    rwa [hphase] at htrue
  · have htrue := hcallers i
    rwa [hphase] at htrue

omit [DecidableEq ω] in
/-- A new row takes nothing back. -/
theorem TrueOf.concat {committed : List (Entry κ)} {i : ω} {p : Phase} (e : Entry κ)
    (h : TrueOf key dead committed i p) : TrueOf key dead (committed ++ [e]) i p := by
  cases p with
  | returned id =>
      obtain ⟨e', he', hid, hk⟩ := h
      exact ⟨e', List.mem_append_left _ he', hid, hk⟩
  | conflict =>
      obtain ⟨k, hk, htaken⟩ := h
      refine ⟨k, hk, fun hnone => htaken ?_⟩
      rw [find_eq_none] at hnone ⊢
      exact fun e' he' => hnone e' (List.mem_append_left _ he')
  | failed => exact h
  | _ => trivial

theorem Kept.goto (hs : Kept key dead s) {i : ω} {p : Phase}
    (hidle : ∀ id, s.phase i ≠ .inserted id) (hp : TrueOf key dead s.committed i p) :
    Kept key dead (s.goto i p) := by
  refine .of_callers hs.table (fun j e he => ?_)
    ((Function.forall_update_iff s.phase fun j q => TrueOf key dead s.committed j q).mpr
      ⟨hp, fun j _ => hs.caller j⟩)
  obtain ⟨htable, hkey, hphase⟩ := hs.pending j e he
  have hji : j ≠ i := by
    rintro rfl
    exact hidle _ hphase
  refine ⟨htable, hkey, ?_⟩
  exact (Function.update_of_ne hji p s.phase).trans hphase

theorem Kept.step (hs : Kept key dead s) (h : Step key s s') : Kept key dead s' := by
  cases h with
  | stay => exact hs
  | @found i k id hphase hkey hfind =>
      obtain ⟨e, he, hid, hek⟩ := find_eq_some hfind
      refine hs.goto (fun id' h => ?_) ⟨e, he, hid, hek.trans hkey.symm⟩
      rcases hphase with hphase | hphase <;> cases hphase.symm.trans h
  | absent hphase hkey hfind => exact hs.goto (fun id h => by cases hphase.symm.trans h) trivial
  | @lost i k hphase hkey hfind =>
      -- the row that it lost to is still there
      obtain ⟨k', hkey', htaken⟩ := hs.conflict i hphase
      rw [hkey, Option.some.injEq] at hkey'
      rw [← hkey'] at htaken
      exact absurd hfind htaken
  | @insert i id hphase hidle hid hfree =>
      refine .of_callers hs.table (fun j e he => ?_)
        ((Function.forall_update_iff s.phase fun j q => TrueOf key dead s.committed j q).mpr
          ⟨trivial, fun j _ => hs.caller j⟩)
      cases he
      exact ⟨hs.table.concat hid hfree, rfl, Function.update_self i _ s.phase⟩
  | @refuse i k hphase hkey htaken =>
      exact hs.goto (fun id h => by cases hphase.symm.trans h) ⟨k, hkey, htaken⟩
  | @commit i e hpending =>
      obtain ⟨htable, hkey, -⟩ := hs.pending i e hpending
      exact .of_callers htable (fun j e' he' => (by cases he'))
        ((Function.forall_update_iff s.phase fun j q =>
          TrueOf key dead (s.committed ++ [e]) j q).mpr
            ⟨⟨e, List.mem_concat_self, rfl, hkey⟩, fun j _ => (hs.caller j).concat e⟩)

/-! ### Callers that have returned -/

omit [DecidableEq ω] in
/-- **The only row.** -/
theorem Kept.only_row (hs : Kept key dead s) {i : ω} {k : κ} {id : ℕ} (hkey : key i = some k)
    (hret : s.phase i = .returned id) :
    s.committed.filter (fun e => decide (e.key = some k)) = [⟨id, some k⟩] := by
  obtain ⟨e, he, rfl, hek⟩ := hs.returned i id hret
  rw [hkey] at hek
  rw [hs.table.filter_key he hek, ← hek]

omit [DecidableEq ω] in
/-- **A row of its own.** -/
theorem Kept.own_row (hs : Kept key dead s) {i j : ω} {id id' : ℕ} (hkey : key i ≠ key j)
    (hi : s.phase i = .returned id) (hj : s.phase j = .returned id') : id ≠ id' := by
  rintro rfl
  obtain ⟨a, ha, haid, hak⟩ := hs.returned i id hi
  obtain ⟨b, hb, hbid, hbk⟩ := hs.returned j id hj
  rw [hs.table.eq_of_id ha hb (haid.trans hbid.symm)] at hak
  exact hkey (hak.symm.trans hbk)

end

end AiTrader.GetOrInsert
