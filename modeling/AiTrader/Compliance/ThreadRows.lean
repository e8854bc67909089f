import AiTrader.Compliance.Recorders
import AiTrader.Library.GetOrInsert

/-! # One recommendation for a thread

The calls of `record` get the row of their thread or insert it (`simulates_step`): reading the
tip of the chain in between is a step that changes nothing for the others. -/

namespace AiTrader.Compliance

open Text Transition GetOrInsert

/-! ### Rows as entries -/

/-- The id and the thread of a stored row. -/
def IsRow (row : Row) (e : Entry String) : Prop :=
  row.get "id" = .int e.id ∧ row.get "thread_id" = optText e.key

/-- The row of a call has the call's thread in its column. -/
def Write.ThreadColumn {C : PayloadColumns} (w : Write C) : Prop :=
  Kwargs.get w.payload.values "thread_id" = optText w.thread

section
variable {H : Host} {C : PayloadColumns} {rows : List Row} {entries : List (Entry String)}

theorem isText_optText {key : Option String} {t : String} :
    isText (optText key) t = decide (key = some t) := by
  cases key with
  | none => rfl
  | some s => simp [optText, isText]

theorem find_isText (h : List.Forall₂ IsRow rows entries) (t : String) :
    (rows.find? fun row => isText (row.get "thread_id") t).map (fun row => row.get "id") =
      (find entries t).map fun id => .int id := by
  induction h with
  | nil => rfl
  | @cons row e rows entries hrow _ ih =>
      obtain ⟨hid, hthread⟩ := hrow
      rw [find, List.find?_cons, List.find?_cons, hthread, isText_optText]
      cases hk : decide (e.key = some t) with
      | true => exact congrArg some hid
      | false => exact ih

theorem filter_isText (h : List.Forall₂ IsRow rows entries) (t : String) :
    (rows.filter fun row => isText (row.get "thread_id") t).map (fun row => row.get "id") =
      (entries.filter fun e => decide (e.key = some t)).map fun e => .int e.id := by
  induction h with
  | nil => rfl
  | @cons row e rows entries hrow _ ih =>
      obtain ⟨hid, hthread⟩ := hrow
      rw [List.filter_cons, List.filter_cons, hthread, isText_optText]
      cases hk : decide (e.key = some t) with
      | true =>
          rw [if_pos rfl, if_pos rfl, List.map_cons, List.map_cons, hid, ih]
      | false => exact ih

theorem get_storedRow_of_content {payload : Payload C} {id : ℕ} {prev c : String}
    (hc : c ∈ C.names) : (storedRow H id payload prev).get c = Kwargs.get payload.values c := by
  have hsome : (List.lookup c payload.values).isSome = true := by
    rw [← payload.keys] at hc
    obtain ⟨kv, hkv, rfl⟩ := List.mem_map.mp hc
    exact List.lookup_isSome_iff.mpr ⟨kv, hkv, beq_self_eq_true _⟩
  obtain ⟨v, hv⟩ := Option.isSome_iff_exists.mp hsome
  rw [storedRow, Kwargs.get, Kwargs.get, List.lookup_append, hv, Option.some_or]

theorem isRow_storedRow {w : Write recommendationColumns} (h : w.ThreadColumn) (id : ℕ)
    (prev : String) : IsRow (storedRow H id w.payload prev) ⟨id, w.thread⟩ := by
  constructor
  · rw [get_storedRow_of_meta (by decide)]
    rfl
  · rw [get_storedRow_of_content (by decide)]
    exact h

end

theorem recordWrite_threadColumn (H : Host) (Cs : Casing) (createdAt : F64)
    (analyst : Option String) (args : RecordArgs) :
    (recordWrite H Cs createdAt analyst args).ThreadColumn := rfl

/-! ### The calls get their row or insert it -/

namespace RecorderState

/-- A phase as that of a caller that gets or inserts a row. -/
def phaseOf : Compliance.Phase → GetOrInsert.Phase
  | .start => .start
  | .noExisting => .ready
  | .tipRead _ => .ready
  | .inserted id => .inserted id
  | .conflict => .conflict
  | .returned (.int (.ofNat id)) => .returned id
  | .returned _ => .failed
  | .raised => .failed

section
variable {ω : Type*} [DecidableEq ω] {H : Host} {calls : ω → Write recommendationColumns}

/-- The open transaction: there is none, or it has one more row. -/
inductive Transaction (s : RecorderState ω) : Option (ω × Entry String) → Prop
  | idle (h : s.db.working = none) : Transaction s none
  | row {i : ω} {row : Row} {e : Entry String} {table : ChainTable}
      (h : s.db.working = some (i, table)) (hrows : table.rows = s.db.committed.rows ++ [row])
      (hrow : IsRow row e) (hseq : table.seq = e.id) (hnew : s.db.committed.seq < e.id)
      (hphase : s.phase i = .inserted e.id) : Transaction s (some (i, e))

/-- The state of the store, seen as that of callers that get or insert a row. -/
structure Simulates (s : RecorderState ω) (a : St ω String) : Prop where
  committed : List.Forall₂ IsRow s.db.committed.rows a.committed
  transaction : Transaction s a.pending
  phase : a.phase = phaseOf ∘ s.phase
  seq : ∀ e ∈ a.committed, e.id ≤ s.db.committed.seq
  holder : ∀ i id, s.phase i = .inserted id → ∃ table, s.db.working = some (i, table)

variable {s s' : RecorderState ω} {a : St ω String} {st : Statement ω}

/-- What the other callers see is what is committed. -/
theorem Simulates.view_eq (h : Simulates s a) {i : ω} (hphase : ∀ id, s.phase i ≠ .inserted id) :
    s.db.view i = s.db.committed := by
  have htrans := h.transaction
  generalize a.pending = pending at htrans
  cases htrans with
  | idle hidle => exact WriteLock.view_eq_committed fun t ht => by cases hidle.symm.trans ht
  | @row j row e table hopen hrows hrow hseq hnew hj =>
      refine WriteLock.view_eq_committed fun t ht => ?_
      cases hopen.symm.trans ht
      exact hphase _ hj

theorem phaseOf_update (h : Simulates s a) (i : ω) (p : Compliance.Phase) :
    Function.update a.phase i (phaseOf p) = phaseOf ∘ Function.update s.phase i p := by
  rw [h.phase, Function.comp_update]

theorem Simulates.goto (h : Simulates s a) {i : ω} (p : Compliance.Phase)
    (hphase : ∀ id, s.phase i ≠ .inserted id) (hp : ∀ id, p ≠ .inserted id) :
    Simulates (s.goto i p) (a.goto i (phaseOf p)) := by
  refine ⟨h.committed, ?_, phaseOf_update h i p, h.seq,
    WriteLock.holder_update (fun id hid => absurd hid (hp id)) fun j _ => h.holder j⟩
  have htrans := h.transaction
  rw [St.goto_pending]
  generalize a.pending = pending at htrans ⊢
  cases htrans with
  | idle hidle => exact .idle hidle
  | @row j row e table hworking hrows hrow hseq hnew hj =>
      have hji : j ≠ i := by
        rintro rfl
        exact hphase _ hj
      refine .row hworking hrows hrow hseq hnew ?_
      rw [goto_phase, Function.update_of_ne hji, hj]

theorem simulates_selectExisting (h : Simulates s a) {i : ω}
    (hstep : s.step H calls (.selectExisting i) = some s') :
    ∃ a', Step (fun i => (calls i).thread) a a' ∧ Simulates s' a' := by
  have hfinds : ∀ t, s.db.committed.findThread t = (find a.committed t).map fun id => .int id :=
    find_isText h.committed
  simp only [RecorderState.step] at hstep
  split at hstep
  · rename_i t hphase hthread
    have hidle : ∀ id, s.phase i ≠ .inserted id := fun id hid => by cases hphase.symm.trans hid
    have ha : a.phase i = .start := by rw [h.phase, Function.comp_apply, hphase, phaseOf]
    rw [h.view_eq hidle, hfinds] at hstep
    cases hfind : find a.committed t with
    | some id =>
        rw [hfind] at hstep
        cases hstep
        exact ⟨_, .found (.inl ha) hthread hfind,
          h.goto (.returned (.int (.ofNat id))) hidle fun _ hid => by cases hid⟩
    | none =>
        rw [hfind] at hstep
        cases hstep
        exact ⟨_, .absent ha hthread hfind, h.goto .noExisting hidle fun _ hid => by cases hid⟩
  · rename_i t hphase hthread
    have hidle : ∀ id, s.phase i ≠ .inserted id := fun id hid => by cases hphase.symm.trans hid
    have ha : a.phase i = .conflict := by rw [h.phase, Function.comp_apply, hphase, phaseOf]
    rw [h.view_eq hidle, hfinds] at hstep
    cases hfind : find a.committed t with
    | some id =>
        rw [hfind] at hstep
        cases hstep
        exact ⟨_, .found (.inr ha) hthread hfind,
          h.goto (.returned (.int (.ofNat id))) hidle fun _ hid => by cases hid⟩
    | none =>
        rw [hfind] at hstep
        cases hstep
        exact ⟨_, .lost ha hthread hfind, h.goto .raised hidle fun _ hid => by cases hid⟩
  · cases hstep

/-- Reading the tip changes nothing for the others. -/
theorem simulates_selectTip (h : Simulates s a) {i : ω}
    (hstep : s.step H calls (.selectTip i) = some s') :
    ∃ a', Step (fun i => (calls i).thread) a a' ∧ Simulates s' a' := by
  simp only [RecorderState.step] at hstep
  split at hstep
  · rename_i hphase
    cases hstep
    have hidle : ∀ id, s.phase i ≠ .inserted id := fun id hid => by cases hphase.symm.trans hid
    have hsame : ∀ prev, a.goto i (phaseOf (.tipRead prev)) = a := by
      intro prev
      rw [St.goto, Function.update_eq_self_iff.mpr]
      rw [h.phase, Function.comp_apply, hphase, phaseOf, phaseOf]
    refine ⟨a, .stay, ?_⟩
    have hmoved := h.goto (.tipRead (chainTip (s.db.view i).rows)) hidle fun _ hid => by cases hid
    rwa [hsame] at hmoved
  · cases hstep

theorem simulates_insert (hcalls : ∀ i, (calls i).ThreadColumn) (h : Simulates s a) {i : ω}
    (hstep : s.step H calls (.insert i) = some s') :
    ∃ a', Step (fun i => (calls i).thread) a a' ∧ Simulates s' a' := by
  have hfinds : ∀ t, s.db.committed.findThread t = (find a.committed t).map fun id => .int id :=
    find_isText h.committed
  simp only [RecorderState.step] at hstep
  split at hstep
  · rename_i prev hphase hidle
    have ha : a.phase i = .ready := by rw [h.phase, Function.comp_apply, hphase, phaseOf]
    have hpending : a.pending = none := by
      have htrans := h.transaction
      generalize a.pending = pending at htrans ⊢
      cases htrans with
      | idle => rfl
      | row hworking => cases hidle.symm.trans hworking
    split at hstep
    · rename_i htaken
      cases hstep
      obtain ⟨t, ht, hsome⟩ := (Option.any_eq_true _ _).mp htaken
      rw [hfinds, Option.isSome_map, Option.isSome_iff_ne_none] at hsome
      exact ⟨_, .refuse ha ht hsome,
        h.goto .conflict (fun id hid => by cases hphase.symm.trans hid) fun _ hid => by cases hid⟩
    · rename_i hfree
      obtain ⟨db, hdb, rfl⟩ := Option.map_eq_some_iff.mp hstep
      obtain ⟨-, rfl⟩ := WriteLock.write_eq hdb
      have hnew : ∀ e ∈ a.committed, e.id < s.db.committed.seq + 1 :=
        fun e he => Nat.lt_succ_of_le (h.seq e he)
      have hunused : ∀ t, (calls i).thread = some t → find a.committed t = none := by
        intro t ht
        have hnone : s.db.committed.findThread t = none := by
          simpa [RecorderState.threadTaken, ht] using hfree
        rwa [hfinds, Option.map_eq_none_iff] at hnone
      refine ⟨_, .insert ha hpending hnew hunused, h.committed, ?_,
        phaseOf_update h i (.inserted _), h.seq, ?_⟩
      · have hrow : IsRow (storedRow H (s.db.committed.seq + 1) (calls i).payload prev)
            ⟨s.db.committed.seq + 1, (calls i).thread⟩ := isRow_storedRow (hcalls i) _ prev
        rw [WriteLock.latest_of_idle hidle]
        exact .row rfl rfl hrow rfl (Nat.lt_succ_self _) (Function.update_self i _ s.phase)
      · refine WriteLock.holder_update (fun id _ => ⟨_, rfl⟩) fun j _ id hj => ?_
        obtain ⟨table, ht⟩ := h.holder j id hj
        cases hidle.symm.trans ht
  · cases hstep

theorem simulates_commit (h : Simulates s a) {i : ω} (hstep : s.step H calls (.commit i) = some s') :
    ∃ a', Step (fun i => (calls i).thread) a a' ∧ Simulates s' a' := by
  simp only [RecorderState.step] at hstep
  split at hstep
  · rename_i id hphase
    obtain ⟨db, hdb, rfl⟩ := Option.map_eq_some_iff.mp hstep
    obtain ⟨table, hworking⟩ := h.holder i id hphase
    have htrans := h.transaction
    generalize hpending : a.pending = pending at htrans
    cases htrans with
    | idle hidle => cases hidle.symm.trans hworking
    | @row j row e table' hopen hrows hrow hseq hnew hj =>
        cases hopen.symm.trans hworking
        cases hj.symm.trans hphase
        have hlatest : s.db.latest = table := by rw [WriteLock.latest, hworking]
        rw [WriteLock.commit_eq hdb, hlatest]
        refine ⟨_, .commit hpending, ?_, .idle rfl,
          phaseOf_update h i (.returned (.int (.ofNat e.id))), ?_, ?_⟩
        · show List.Forall₂ IsRow table.rows (a.committed ++ [e])
          rw [hrows]
          exact List.rel_append h.committed (.cons hrow .nil)
        · show ∀ e' ∈ a.committed ++ [e], e'.id ≤ table.seq
          rw [hseq, List.forall_mem_append, List.forall_mem_singleton]
          exact ⟨fun e' he' => (h.seq e' he').trans hnew.le, le_rfl⟩
        · refine WriteLock.holder_update (fun id hid => by cases hid) fun j hji id hj' => ?_
          obtain ⟨table', hother⟩ := h.holder j id hj'
          cases hworking.symm.trans hother
          exact absurd rfl hji
  · cases hstep

/-- **One statement** is one step of a caller that gets or inserts a row, or none. -/
theorem simulates_step (hcalls : ∀ i, (calls i).ThreadColumn) (h : Simulates s a)
    (hstep : s.step H calls st = some s') :
    ∃ a', Step (fun i => (calls i).thread) a a' ∧ Simulates s' a' := by
  cases st with
  | selectExisting i => exact simulates_selectExisting h hstep
  | selectTip i => exact simulates_selectTip h hstep
  | insert i => exact simulates_insert hcalls h hstep
  | commit i => exact simulates_commit h hstep

/-! ### Every reachable state -/

/-- What the primary key and the unique index guarantee of a table. -/
def KeyedTable (table : ChainTable) : Prop :=
  ∃ entries, List.Forall₂ IsRow table.rows entries ∧ Indexed entries ∧
    ∀ e ∈ entries, e.id ≤ table.seq

/-- The calls look like callers that get or insert their row, and none of them fails. -/
def Filing (calls : ω → Write recommendationColumns) (s : RecorderState ω) : Prop :=
  ∃ a, Simulates s a ∧ Kept (fun i => (calls i).thread) (fun _ => False) a

omit [DecidableEq ω] in
theorem Filing.of_starts (h : s.Starts calls) (htable : KeyedTable s.db.committed) :
    Filing calls s := by
  obtain ⟨entries, hrows, hindexed, hseq⟩ := htable
  have hphase : ∀ i, s.phase i = .start ∨ s.phase i = .noExisting := by
    intro i
    rw [h.2 i, Write.begin]
    split
    · exact .inl rfl
    · exact .inr rfl
  have hbegin : ∀ i q, phaseOf (s.phase i) = q → q = .start ∨ q = .ready := by
    rintro i _ rfl
    rcases hphase i with hi | hi
    · exact .inl (by rw [hi, phaseOf])
    · exact .inr (by rw [hi, phaseOf])
  refine ⟨⟨entries, none, phaseOf ∘ s.phase⟩, ⟨hrows, .idle h.1, rfl, hseq, fun i id hi => ?_⟩,
    hindexed, fun i e he => (by cases he), ?_, ?_, ?_⟩
  · rcases hphase i with hi' | hi' <;> cases hi.symm.trans hi'
  · intro i id hi
    rcases hbegin i _ hi with hq | hq <;> cases hq
  · intro i hi
    rcases hbegin i _ hi with hq | hq <;> cases hq
  · intro i hi
    rcases hbegin i _ hi with hq | hq <;> cases hq

theorem Filing.step (hcalls : ∀ i, (calls i).ThreadColumn) (hs : Filing calls s)
    (h : s.step H calls st = some s') : Filing calls s' := by
  obtain ⟨a, hsim, hkept⟩ := hs
  obtain ⟨a', hstep, hsim'⟩ := simulates_step hcalls hsim h
  exact ⟨a', hsim', hkept.step hstep⟩

/-- The call has returned or raised. -/
def hasEnded : Compliance.Phase → Bool
  | .returned _ => true
  | .raised => true
  | _ => false

omit [DecidableEq ω] in
/-- A call for a thread that has ended has returned the id of the only row of its thread. -/
theorem Filing.only_row (hs : Filing calls s) {i : ω} {t : String}
    (hdone : hasEnded (s.phase i) = true) (hthread : (calls i).thread = some t) :
    ∃ id : ℕ, s.phase i = .returned (.int id) ∧
      (s.db.committed.rows.filter fun row => isText (row.get "thread_id") t).map
        (fun row => row.get "id") = [.int id] := by
  obtain ⟨a, hsim, hkept⟩ := hs
  have hphase : a.phase i = phaseOf (s.phase i) := congrFun hsim.phase i
  have hfailed : phaseOf (s.phase i) ≠ .failed := fun hf => hkept.failed i (hphase.trans hf)
  have hret : ∃ id : ℕ, s.phase i = .returned (.int id) := by
    cases hp : s.phase i with
    | returned v =>
        rw [hp] at hfailed
        cases v with
        | int z =>
            cases z with
            | ofNat id => exact ⟨id, rfl⟩
            | negSucc n => exact absurd rfl hfailed
        | _ => exact absurd rfl hfailed
    | raised =>
        rw [hp] at hfailed
        exact absurd rfl hfailed
    | _ =>
        rw [hp] at hdone
        cases hdone
  obtain ⟨id, hid⟩ := hret
  refine ⟨id, hid, ?_⟩
  rw [hid] at hphase
  rw [filter_isText hsim.committed, hkept.only_row hthread hphase]
  rfl

omit [DecidableEq ω] in
/-- Calls for different threads return different ids. -/
theorem Filing.own_row (hs : Filing calls s) {i j : ω} {id id' : ℕ}
    (hthread : (calls i).thread ≠ (calls j).thread) (hi : s.phase i = .returned (.int id))
    (hj : s.phase j = .returned (.int id')) : id ≠ id' := by
  obtain ⟨a, hsim, hkept⟩ := hs
  refine hkept.own_row hthread ?_ ?_
  · rw [hsim.phase, Function.comp_apply, hi]
    rfl
  · rw [hsim.phase, Function.comp_apply, hj]
    rfl

end

end RecorderState

end AiTrader.Compliance
