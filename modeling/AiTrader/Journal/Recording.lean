import AiTrader.Library.GetOrInsert
import AiTrader.Library.Transition
import AiTrader.Library.WriteLock
import AiTrader.Text

/-! # Recording a decision

`record_decision` of `journal.py`, any number of calls on one table.  Each statement of a call is
one step: the look-up of an existing row for the thread, the `INSERT` against the unique index,
the look-up after a conflict, the `COMMIT` and the closing of the connection.  A refused `INSERT`
has opened the write transaction, and it stays open until the connection is closed.

* `simulates_step`: the calls get the row of their thread or insert it (`GetOrInsert`). -/

namespace AiTrader.Journal

/-! ### Calls -/

/-- A call.  `prepared` is what the other arguments make of the remaining columns; without it an
exception ended the call before the store was opened. -/
structure DecisionCall (ρ : Type*) where
  threadId : Option String
  prepared : Option ρ

/-- The thread that the row is unique for: only a text that is not blank is one. -/
def DecisionCall.thread {ρ : Type*} (call : DecisionCall ρ) : Option String :=
  call.threadId.filter fun t => Text.strip t ≠ ""

/-! ### The table and its statements -/

/-- A row of `trades`; `columns` are the ones besides `id` and `thread_id`. -/
structure DecisionRow (ρ : Type*) where
  id : ℕ
  threadId : Option String
  columns : ρ

/-- The rows in the order of `id`, and the largest `id` handed out. -/
structure DecisionTable (ρ : Type*) where
  rows : List (DecisionRow ρ)
  seq : ℕ

section
variable {ρ : Type*}

/-- `SELECT id … WHERE thread_id=? ORDER BY id ASC LIMIT 1`. -/
def DecisionTable.findThread (table : DecisionTable ρ) (t : String) : Option ℕ :=
  (table.rows.find? fun row => decide (row.threadId = some t)).map DecisionRow.id

/-- The `INSERT`. -/
def DecisionTable.insert (table : DecisionTable ρ) (threadId : Option String) (columns : ρ) :
    DecisionTable ρ where
  rows := table.rows ++ [⟨table.seq + 1, threadId, columns⟩]
  seq := table.seq + 1

/-- Where a call stands. -/
inductive DecisionPhase
  | start
  | ready
  | inserted (id : ℕ)
  | conflict
  | closing (result : Option ℕ)
  | returned (result : Option ℕ)

/-- Where a call begins: only one for a thread looks for an existing row. -/
def DecisionCall.begin (call : DecisionCall ρ) : DecisionPhase :=
  if call.prepared.isNone then .returned none
  else if call.thread.isSome then .start
  else .ready

structure DecisionState (ω ρ : Type*) where
  db : WriteLock ω (DecisionTable ρ)
  phase : ω → DecisionPhase

inductive DecisionStatement (ω : Type*)
  | select (i : ω)
  | insert (i : ω)
  | commit (i : ω)
  | close (i : ω)

variable {ω : Type*} [DecidableEq ω] (calls : ω → DecisionCall ρ)

namespace DecisionState

/-- The call `i` moves on. -/
def goto (s : DecisionState ω ρ) (i : ω) (p : DecisionPhase) : DecisionState ω ρ :=
  { s with phase := Function.update s.phase i p }

/-- The row of the call would violate the unique index on `thread_id`. -/
def threadTaken (s : DecisionState ω ρ) (i : ω) : Bool :=
  (calls i).thread.any fun t => (s.db.committed.findThread t).isSome

/-- One statement of one call. -/
def step (s : DecisionState ω ρ) : DecisionStatement ω → Option (DecisionState ω ρ)
  | .select i =>
      match s.phase i, (calls i).thread with
      | .start, some t =>
          match (s.db.view i).findThread t with
          | some id => some (s.goto i (.returned (some id)))
          | none => some (s.goto i .ready)
      | .conflict, some t => some (s.goto i (.closing ((s.db.view i).findThread t)))
      | _, _ => none
  | .insert i =>
      match s.phase i, (calls i).prepared, s.db.working with
      | .ready, some columns, none =>
          if s.threadTaken calls i then
            -- the transaction that the `INSERT` began is still open
            (s.db.write i id).map fun db => { s.goto i .conflict with db := db }
          else
            (s.db.write i fun table => table.insert (calls i).thread columns).map fun db =>
              { s.goto i (.inserted (s.db.committed.seq + 1)) with db := db }
      | _, _, _ => none
  | .commit i =>
      match s.phase i with
      | .inserted id =>
          (s.db.commit i).map fun db => { s.goto i (.returned (some id)) with db := db }
      | _ => none
  | .close i =>
      match s.phase i with
      | .closing r => some { s.goto i (.returned r) with db := s.db.rollback i }
      | _ => none

@[simp] theorem goto_db (s : DecisionState ω ρ) (i : ω) (p : DecisionPhase) :
    (s.goto i p).db = s.db := rfl

@[simp] theorem goto_phase (s : DecisionState ω ρ) (i : ω) (p : DecisionPhase) :
    (s.goto i p).phase = Function.update s.phase i p := rfl

/-- The call has returned. -/
def isReturned : DecisionPhase → Bool
  | .returned _ => true
  | _ => false

/-! ### The calls get their row or insert it -/

open GetOrInsert

/-- The id and the thread of a row. -/
def entry (row : DecisionRow ρ) : Entry String := ⟨row.id, row.threadId⟩

/-- A phase as that of a caller that gets or inserts a row. -/
def phaseOf : DecisionPhase → Phase
  | .start => .start
  | .ready => .ready
  | .inserted id => .inserted id
  | .conflict => .conflict
  | .closing (some id) => .returned id
  | .closing none => .failed
  | .returned (some id) => .returned id
  | .returned none => .failed

/-- The open transaction: there is none, it has one more row, or its `INSERT` was refused. -/
inductive Transaction (s : DecisionState ω ρ) : Option (ω × Entry String) → Prop
  | idle (h : s.db.working = none) : Transaction s none
  | row {i : ω} {row : DecisionRow ρ} {table : DecisionTable ρ}
      (h : s.db.working = some (i, table)) (hrows : table.rows = s.db.committed.rows ++ [row])
      (hseq : table.seq = row.id) (hnew : s.db.committed.seq < row.id)
      (hphase : s.phase i = .inserted row.id) : Transaction s (some (i, entry row))
  | refused {i : ω} (h : s.db.working = some (i, s.db.committed))
      (hphase : s.phase i = .conflict ∨ ∃ r, s.phase i = .closing r) : Transaction s none

/-- The state of the store, seen as that of callers that get or insert a row. -/
structure Simulates (s : DecisionState ω ρ) (a : St ω String) : Prop where
  committed : a.committed = s.db.committed.rows.map entry
  transaction : Transaction s a.pending
  phase : a.phase = phaseOf ∘ s.phase
  seq : ∀ row ∈ s.db.committed.rows, row.id ≤ s.db.committed.seq
  holder : ∀ i id, s.phase i = .inserted id → ∃ table, s.db.working = some (i, table)

variable {calls} {s s' : DecisionState ω ρ} {a : St ω String} {st : DecisionStatement ω}

theorem findThread_eq (table : DecisionTable ρ) (t : String) :
    table.findThread t = find (table.rows.map entry) t := by
  rw [DecisionTable.findThread, find, List.find?_map, Option.map_map]
  rfl

/-- What the other callers see, and the one whose `INSERT` was refused, is what is committed. -/
theorem Simulates.view_eq (h : Simulates s a) {i : ω}
    (hphase : s.phase i = .start ∨ s.phase i = .conflict) :
    s.db.view i = s.db.committed := by
  have htrans := h.transaction
  generalize a.pending = pending at htrans
  cases htrans with
  | idle hidle => exact WriteLock.view_eq_committed fun t ht => by cases hidle.symm.trans ht
  | @row j row table hopen hrows hseq hnew hj =>
      refine WriteLock.view_eq_committed fun t ht => ?_
      cases hopen.symm.trans ht
      rcases hphase with hphase | hphase <;> cases hj.symm.trans hphase
  | @refused j hopen hj =>
      rw [WriteLock.view, hopen]
      exact ite_self _

theorem phaseOf_update (h : Simulates s a) (i : ω) (p : DecisionPhase) :
    Function.update a.phase i (phaseOf p) = phaseOf ∘ Function.update s.phase i p := by
  rw [h.phase, Function.comp_update]

theorem Simulates.goto (h : Simulates s a) {i : ω} (p : DecisionPhase)
    (hphase : s.phase i = .start ∨ s.phase i = .ready ∨
      s.phase i = .conflict ∧ ∃ r, p = .closing r)
    (hp : ∀ id, p ≠ .inserted id) : Simulates (s.goto i p) (a.goto i (phaseOf p)) := by
  refine ⟨h.committed, ?_, phaseOf_update h i p, h.seq,
    WriteLock.holder_update (fun id hid => absurd hid (hp id)) fun j _ => h.holder j⟩
  have htrans := h.transaction
  rw [St.goto_pending]
  generalize a.pending = pending at htrans ⊢
  cases htrans with
  | idle hidle => exact .idle hidle
  | @row j row table hworking hrows hseq hnew hj =>
      have hji : j ≠ i := by
        rintro rfl
        rw [hj] at hphase
        rcases hphase with hphase | hphase | ⟨hphase, -⟩ <;> cases hphase
      refine .row hworking hrows hseq hnew ?_
      rw [goto_phase, Function.update_of_ne hji, hj]
  | @refused j hworking hj =>
      refine .refused hworking ?_
      rw [goto_phase]
      by_cases hji : j = i
      · subst hji
        rw [Function.update_self]
        rcases hphase with hphase | hphase | ⟨-, hclosing⟩
        · rw [hphase] at hj
          rcases hj with hj | ⟨r, hj⟩ <;> cases hj
        · rw [hphase] at hj
          rcases hj with hj | ⟨r, hj⟩ <;> cases hj
        · exact .inr hclosing
      · rw [Function.update_of_ne hji]
        exact hj

theorem simulates_select (h : Simulates s a) {i : ω} (hstep : s.step calls (.select i) = some s') :
    ∃ a', Step (fun i => (calls i).thread) a a' ∧ Simulates s' a' := by
  simp only [DecisionState.step] at hstep
  split at hstep
  · rename_i t hphase hthread
    have ha : a.phase i = .start := by rw [h.phase, Function.comp_apply, hphase, phaseOf]
    rw [h.view_eq (.inl hphase), findThread_eq, ← h.committed] at hstep
    split at hstep
    · rename_i id hfind
      cases hstep
      exact ⟨_, .found (.inl ha) hthread hfind, h.goto (.returned (some id)) (.inl hphase)
        fun _ hid => by cases hid⟩
    · rename_i hfind
      cases hstep
      exact ⟨_, .absent ha hthread hfind, h.goto .ready (.inl hphase)
        fun _ hid => by cases hid⟩
  · rename_i t hphase hthread
    have ha : a.phase i = .conflict := by rw [h.phase, Function.comp_apply, hphase, phaseOf]
    rw [h.view_eq (.inr hphase), findThread_eq, ← h.committed] at hstep
    cases hfind : find a.committed t with
    | some id =>
        rw [hfind] at hstep
        cases hstep
        exact ⟨_, .found (.inr ha) hthread hfind,
          h.goto (.closing (some id)) (.inr (.inr ⟨hphase, _, rfl⟩)) fun _ hid => by cases hid⟩
    | none =>
        rw [hfind] at hstep
        cases hstep
        exact ⟨_, .lost ha hthread hfind,
          h.goto (.closing none) (.inr (.inr ⟨hphase, _, rfl⟩)) fun _ hid => by cases hid⟩
  · cases hstep

theorem simulates_insert (h : Simulates s a) {i : ω} (hstep : s.step calls (.insert i) = some s') :
    ∃ a', Step (fun i => (calls i).thread) a a' ∧ Simulates s' a' := by
  simp only [DecisionState.step] at hstep
  split at hstep
  · rename_i columns hphase hprepared hidle
    have ha : a.phase i = .ready := by rw [h.phase, Function.comp_apply, hphase, phaseOf]
    have hpending : a.pending = none := by
      have htrans := h.transaction
      generalize a.pending = pending at htrans ⊢
      cases htrans with
      | idle => rfl
      | row hworking => cases hidle.symm.trans hworking
      | refused => rfl
    have hnone : ∀ j id, s.phase j ≠ .inserted id := by
      intro j id hj
      obtain ⟨table, ht⟩ := h.holder j id hj
      cases hidle.symm.trans ht
    split at hstep
    · rename_i htaken
      obtain ⟨db, hdb, rfl⟩ := Option.map_eq_some_iff.mp hstep
      obtain ⟨-, rfl⟩ := WriteLock.write_eq hdb
      obtain ⟨t, ht, hsome⟩ := (Option.any_eq_true _ _).mp htaken
      rw [findThread_eq, ← h.committed, Option.isSome_iff_ne_none] at hsome
      refine ⟨_, .refuse ha ht hsome, h.committed, ?_, phaseOf_update h i .conflict, h.seq, ?_⟩
      · rw [St.goto_pending, hpending]
        refine .refused (i := i) ?_ (.inl (Function.update_self i _ s.phase))
        rw [WriteLock.latest_of_idle hidle]
        rfl
      · exact WriteLock.holder_update (fun id hid => by cases hid)
          fun j _ id hj => absurd hj (hnone j id)
    · rename_i hfree
      obtain ⟨db, hdb, rfl⟩ := Option.map_eq_some_iff.mp hstep
      obtain ⟨-, rfl⟩ := WriteLock.write_eq hdb
      have hnew : ∀ e ∈ a.committed, e.id < s.db.committed.seq + 1 := by
        rw [h.committed, List.forall_mem_map]
        exact fun row hrow => Nat.lt_succ_of_le (h.seq row hrow)
      have hunused : ∀ t, (calls i).thread = some t → find a.committed t = none := by
        intro t ht
        rw [h.committed, ← findThread_eq]
        simpa [threadTaken, ht] using hfree
      refine ⟨_, .insert ha hpending hnew hunused, h.committed, ?_,
        phaseOf_update h i (.inserted _), h.seq, ?_⟩
      · rw [WriteLock.latest_of_idle hidle]
        show Transaction _
          (some (i, entry ⟨s.db.committed.seq + 1, (calls i).thread, columns⟩))
        exact .row rfl rfl rfl (Nat.lt_succ_self _) (Function.update_self i _ s.phase)
      · exact WriteLock.holder_update (fun id _ => ⟨_, rfl⟩)
          fun j _ id hj => absurd hj (hnone j id)
  · cases hstep

theorem simulates_commit (h : Simulates s a) {i : ω} (hstep : s.step calls (.commit i) = some s') :
    ∃ a', Step (fun i => (calls i).thread) a a' ∧ Simulates s' a' := by
  simp only [DecisionState.step] at hstep
  split at hstep
  · rename_i id hphase
    obtain ⟨db, hdb, rfl⟩ := Option.map_eq_some_iff.mp hstep
    obtain ⟨table, hworking⟩ := h.holder i id hphase
    have htrans := h.transaction
    generalize hpending : a.pending = pending at htrans
    cases htrans with
    | idle hidle => cases hidle.symm.trans hworking
    | @refused j hrefused hj =>
        cases hrefused.symm.trans hworking
        rcases hj with hj | ⟨r, hj⟩ <;> cases hj.symm.trans hphase
    | @row j row table' hrow hrows hseq hnew hj =>
        cases hrow.symm.trans hworking
        cases hj.symm.trans hphase
        have hlatest : s.db.latest = table := by rw [WriteLock.latest, hworking]
        rw [WriteLock.commit_eq hdb, hlatest]
        refine ⟨_, .commit hpending, ?_, .idle rfl, phaseOf_update h i (.returned (some row.id)),
          ?_, ?_⟩
        · show a.committed ++ [entry row] = table.rows.map entry
          rw [hrows, List.map_append, ← h.committed]
          rfl
        · show ∀ r ∈ table.rows, r.id ≤ table.seq
          rw [hrows, hseq, List.forall_mem_append, List.forall_mem_singleton]
          exact ⟨fun r hr => (h.seq r hr).trans hnew.le, le_rfl⟩
        · refine WriteLock.holder_update (fun id hid => by cases hid) fun j hji id hj' => ?_
          obtain ⟨table', hother⟩ := h.holder j id hj'
          cases hworking.symm.trans hother
          exact absurd rfl hji
  · cases hstep

/-- Closing the connection ends the refused transaction, if there is one. -/
theorem simulates_close (h : Simulates s a) {i : ω} (hstep : s.step calls (.close i) = some s') :
    ∃ a', Step (fun i => (calls i).thread) a a' ∧ Simulates s' a' := by
  simp only [DecisionState.step] at hstep
  split at hstep
  · rename_i r hphase
    cases hstep
    have hsame : a.phase = phaseOf ∘ Function.update s.phase i (.returned r) := by
      rw [← phaseOf_update h]
      refine (Function.update_eq_self_iff.mpr ?_).symm
      rw [h.phase, Function.comp_apply, hphase]
      cases r <;> rfl
    have hother : ∀ j id, Function.update s.phase i (.returned r) j = .inserted id →
        j ≠ i ∧ s.phase j = .inserted id := by
      intro j id hj
      by_cases hji : j = i
      · subst hji
        rw [Function.update_self] at hj
        cases hj
      · rw [Function.update_of_ne hji] at hj
        exact ⟨hji, hj⟩
    refine ⟨a, .stay, ?_⟩
    have htrans := h.transaction
    by_cases hheld : ∃ table, s.db.working = some (i, table)
    · -- the transaction of a refused `INSERT`
      obtain ⟨table, hworking⟩ := hheld
      rw [WriteLock.rollback_self hworking]
      refine ⟨h.committed, ?_, hsame, h.seq, fun j id hj => ?_⟩
      · generalize a.pending = pending at htrans ⊢
        cases htrans with
        | idle => exact .idle rfl
        | refused => exact .idle rfl
        | @row j row table' hrow hrows hseq hnew hj =>
            cases hrow.symm.trans hworking
            cases hj.symm.trans hphase
      · obtain ⟨hji, hinserted⟩ := hother j id hj
        obtain ⟨table', hopen⟩ := h.holder j id hinserted
        cases hworking.symm.trans hopen
        exact absurd rfl hji
    · have hnot : ∀ table, s.db.working ≠ some (i, table) := fun table ht => hheld ⟨table, ht⟩
      rw [WriteLock.rollback_of_ne hnot]
      refine ⟨h.committed, ?_, hsame, h.seq, fun j id hj => h.holder j id (hother j id hj).2⟩
      generalize a.pending = pending at htrans ⊢
      cases htrans with
      | idle hidle => exact .idle hidle
      | @row j row table hrow hrows hseq hnew hj =>
          have hji : j ≠ i := fun hji => hnot table (hji ▸ hrow)
          exact .row hrow hrows hseq hnew ((Function.update_of_ne hji _ s.phase).trans hj)
      | @refused j hrefused hj =>
          have hji : j ≠ i := fun hji => hnot _ (hji ▸ hrefused)
          refine .refused hrefused ?_
          show Function.update s.phase i _ j = _ ∨ ∃ r, Function.update s.phase i _ j = _
          rw [Function.update_of_ne hji]
          exact hj
  · cases hstep

/-- **One statement** is one step of a caller that gets or inserts a row, or none. -/
theorem simulates_step (h : Simulates s a) (hstep : s.step calls st = some s') :
    ∃ a', Step (fun i => (calls i).thread) a a' ∧ Simulates s' a' := by
  cases st with
  | select i => exact simulates_select h hstep
  | insert i => exact simulates_insert h hstep
  | commit i => exact simulates_commit h hstep
  | close i => exact simulates_close h hstep

/-! ### Every reachable state -/

/-- No call has begun, no transaction is open, and the table is as its keys guarantee. -/
structure Starts (calls : ω → DecisionCall ρ) (s : DecisionState ω ρ) : Prop where
  idle : s.db.working = none
  phase : ∀ i, s.phase i = (calls i).begin
  table : Indexed (s.db.committed.rows.map entry)
  seq : ∀ row ∈ s.db.committed.rows, row.id ≤ s.db.committed.seq

/-- The calls look like callers that get or insert their row; only one whose arguments ended it
has failed. -/
def Recording (calls : ω → DecisionCall ρ) (s : DecisionState ω ρ) : Prop :=
  ∃ a, Simulates s a ∧
    Kept (fun i => (calls i).thread) (fun i => (calls i).prepared = none) a

omit [DecidableEq ω] in
theorem Starts.phase_cases (h : Starts calls s) (i : ω) :
    s.phase i = .returned none ∧ (calls i).prepared = none ∨ s.phase i = .start ∨
      s.phase i = .ready := by
  rw [h.phase, DecisionCall.begin]
  split
  · rename_i hnone
    exact .inl ⟨rfl, Option.isNone_iff_eq_none.mp hnone⟩
  · split
    · exact .inr (.inl rfl)
    · exact .inr (.inr rfl)

omit [DecidableEq ω] in
theorem Recording.of_starts (h : Starts calls s) : Recording calls s := by
  have hphase : ∀ i q, phaseOf (s.phase i) = q →
      q = .start ∨ q = .ready ∨ q = .failed ∧ (calls i).prepared = none := by
    rintro i _ rfl
    rcases h.phase_cases i with ⟨hi, hnone⟩ | hi | hi
    · exact .inr (.inr ⟨by rw [hi, phaseOf], hnone⟩)
    · exact .inl (by rw [hi, phaseOf])
    · exact .inr (.inl (by rw [hi, phaseOf]))
  refine ⟨⟨s.db.committed.rows.map entry, none, phaseOf ∘ s.phase⟩,
    ⟨rfl, .idle h.idle, rfl, h.seq, fun i id hi => ?_⟩, h.table, fun i e he => (by cases he), ?_, ?_,
    ?_⟩
  · rcases h.phase_cases i with ⟨hi', -⟩ | hi' | hi' <;> cases hi.symm.trans hi'
  · intro i id hi
    rcases hphase i _ hi with hq | hq | ⟨hq, -⟩ <;> cases hq
  · intro i hi
    rcases hphase i _ hi with hq | hq | ⟨hq, -⟩ <;> cases hq
  · intro i hi
    rcases hphase i _ hi with hq | hq | ⟨-, hnone⟩
    · cases hq
    · cases hq
    · exact hnone

theorem Recording.step (hs : Recording calls s) (h : s.step calls st = some s') :
    Recording calls s' := by
  obtain ⟨a, hsim, hkept⟩ := hs
  obtain ⟨a', hstep, hsim'⟩ := simulates_step hsim h
  exact ⟨a', hsim', hkept.step hstep⟩

omit [DecidableEq ω] in
/-- A call for a thread whose arguments make a row returns the id of the only row of its
thread. -/
theorem Recording.only_row (hs : Recording calls s) {i : ω} {t : String}
    (hdone : isReturned (s.phase i) = true) (hprepared : (calls i).prepared ≠ none)
    (hthread : (calls i).thread = some t) :
    ∃ id, s.phase i = .returned (some id) ∧
      (s.db.committed.rows.filter fun row => decide (row.threadId = some t)).map DecisionRow.id =
        [id] := by
  obtain ⟨a, hsim, hkept⟩ := hs
  cases hphase : s.phase i with
  | returned result =>
      cases result with
      | none =>
          have hfailed : a.phase i = .failed := by
            rw [hsim.phase, Function.comp_apply, hphase, phaseOf]
          exact absurd (hkept.failed i hfailed) hprepared
      | some id =>
          have hret : a.phase i = .returned id := by
            rw [hsim.phase, Function.comp_apply, hphase, phaseOf]
          have honly := congrArg (List.map Entry.id) (hkept.only_row hthread hret)
          rw [hsim.committed, List.filter_map, List.map_map] at honly
          exact ⟨id, rfl, honly⟩
  | _ =>
      rw [hphase] at hdone
      cases hdone

omit [DecidableEq ω] in
/-- Calls for different threads return different ids. -/
theorem Recording.own_row (hs : Recording calls s) {i j : ω} {id id' : ℕ}
    (hthread : (calls i).thread ≠ (calls j).thread) (hi : s.phase i = .returned (some id))
    (hj : s.phase j = .returned (some id')) : id ≠ id' := by
  obtain ⟨a, hsim, hkept⟩ := hs
  refine hkept.own_row hthread ?_ ?_
  · rw [hsim.phase, Function.comp_apply, hi, phaseOf]
  · rw [hsim.phase, Function.comp_apply, hj, phaseOf]

end DecisionState

end

end AiTrader.Journal
