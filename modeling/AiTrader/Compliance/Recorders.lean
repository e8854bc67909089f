import AiTrader.Compliance.Tampering
import AiTrader.Library.Transition
import AiTrader.Library.WriteLock

/-! # Concurrent recorders

Any number of calls of `record`, or of `_append`, on one compliance table.  Each statement of a
call is one step: the look-up of an existing row for the thread, the read of the chain tip, the
`INSERT` and the `COMMIT`.  Reads take no lock; the `INSERT` opens the write transaction.

* `Recording`: what holds in every state, whatever the order of the statements.
* `step_verify`: an `INSERT` keeps the chain valid exactly when the tip it links to is still the
  tip of the table and the row reads back as it was hashed.
* `recorders_verify_iff`: after all calls have returned the chain is valid exactly when every
  `INSERT` was such an `INSERT`. -/

namespace AiTrader.Compliance

open Text Transition

/-! ### Calls -/

/-- What one call writes.  `thread` is the thread that the row is unique for. -/
structure Write (C : PayloadColumns) where
  payload : Payload C
  thread : Option String
  thread_column : ∀ t, thread = some t → Kwargs.get payload.values "thread_id" = .str t

/-- `record`. -/
def recordWrite (H : Host) (Cs : Casing) (createdAt : F64) (analyst : Option String)
    (args : RecordArgs) : Write recommendationColumns where
  payload := recordPayload H Cs createdAt analyst args
  thread := recordThread args
  thread_column t ht := by
    show optText (recordThread args) = _
    rw [ht]
    rfl

/-- `_append` of a request or an outcome: a thread has many interactions. -/
def appendWrite (payload : Payload interactionColumns) : Write interactionColumns where
  payload := payload
  thread := none
  thread_column _ ht := by cases ht

/-! ### The table and its statements -/

/-- The rows in the order of `id`, and the largest `id` handed out. -/
structure ChainTable where
  rows : List Row
  seq : ℕ

/-- `SELECT id … WHERE thread_id=? ORDER BY id ASC LIMIT 1`. -/
def ChainTable.findThread (table : ChainTable) (t : String) : Option PyVal :=
  (table.rows.find? fun row => isText (row.get "thread_id") t).map fun row => row.get "id"

/-- `INSERT` of a payload linked to `prev`. -/
def ChainTable.insert (H : Host) {C : PayloadColumns} (table : ChainTable) (payload : Payload C)
    (prev : String) : ChainTable where
  rows := table.rows ++ [storedRow H (table.seq + 1) payload prev]
  seq := table.seq + 1

/-- Where a call stands. -/
inductive Phase where
  | start
  | noExisting
  | tipRead (prev : String)
  | inserted (id : ℕ)
  | conflict
  | returned (id : PyVal)
  | raised
deriving Repr

/-- Only a call for a thread looks for an existing row. -/
def Write.begin {C : PayloadColumns} (w : Write C) : Phase :=
  if w.thread.isSome then .start else .noExisting

structure RecorderState (ω : Type*) where
  db : WriteLock ω ChainTable
  phase : ω → Phase

inductive Statement (ω : Type*) where
  | selectExisting (i : ω)
  | selectTip (i : ω)
  | insert (i : ω)
  | commit (i : ω)

section
variable {ω : Type*} [DecidableEq ω] (H : Host) {C : PayloadColumns} (calls : ω → Write C)

namespace RecorderState

/-- The call `i` moves on. -/
def goto (s : RecorderState ω) (i : ω) (p : Phase) : RecorderState ω :=
  { s with phase := Function.update s.phase i p }

/-- The row of the call would violate the unique index on `thread_id`. -/
def threadTaken (s : RecorderState ω) (i : ω) : Bool :=
  (calls i).thread.any fun t => (s.db.committed.findThread t).isSome

/-- One statement of one call. -/
def step (s : RecorderState ω) : Statement ω → Option (RecorderState ω)
  | .selectExisting i =>
      match s.phase i, (calls i).thread with
      | .start, some t =>
          match (s.db.view i).findThread t with
          | some id => some (s.goto i (.returned id))
          | none => some (s.goto i .noExisting)
      | .conflict, some t =>
          match (s.db.view i).findThread t with
          | some id => some (s.goto i (.returned id))
          | none => some (s.goto i .raised)
      | _, _ => none
  | .selectTip i =>
      match s.phase i with
      | .noExisting => some (s.goto i (.tipRead (chainTip (s.db.view i).rows)))
      | _ => none
  | .insert i =>
      match s.phase i, s.db.working with
      | .tipRead prev, none =>
          -- a conflict rolls back, so the lock is free again
          if s.threadTaken calls i then some (s.goto i .conflict)
          else
            (s.db.write i fun table => table.insert H (calls i).payload prev).map fun db =>
              { s.goto i (.inserted (s.db.committed.seq + 1)) with db := db }
      | _, _ => none
  | .commit i =>
      match s.phase i with
      | .inserted id =>
          (s.db.commit i).map fun db => { s.goto i (.returned (.int id)) with db := db }
      | _ => none

/-- The call has returned. -/
def isReturned : Phase → Bool
  | .returned _ => true
  | _ => false

/-- No call has begun and no transaction is open. -/
def Starts (s : RecorderState ω) : Prop :=
  s.db.working = none ∧ ∀ i, s.phase i = (calls i).begin

/-- Every call has returned. -/
def Done (s : RecorderState ω) : Prop := ∀ i, isReturned (s.phase i) = true

/-- If the statement inserts a row, the tip it links to is still the tip of the table, and the row
reads back as it was hashed. -/
def TipCurrent (s : RecorderState ω) : Statement ω → Prop
  | .insert i => ∀ prev, s.phase i = .tipRead prev → s.threadTaken calls i = false →
      prev = chainTip s.db.committed.rows ∧ (calls i).payload.ReadsBack H prev
  | _ => True

/-! ### One statement -/

/-- The call holds the write lock. -/
def holds : Phase → Bool
  | .inserted _ => true
  | _ => false

variable {H calls} {s s' : RecorderState ω} {a : Statement ω}

@[simp] theorem goto_db (s : RecorderState ω) (i : ω) (p : Phase) : (s.goto i p).db = s.db := rfl

@[simp] theorem goto_phase (s : RecorderState ω) (i : ω) (p : Phase) :
    (s.goto i p).phase = Function.update s.phase i p := rfl

theorem step_cases (h : s.step H calls a = some s') :
    (∃ i p, s' = s.goto i p ∧ holds (s.phase i) = false ∧ holds p = false ∧
      (p = .conflict → s.threadTaken calls i = true) ∧
      (p = .raised → s.phase i = .conflict ∧
        ∃ t, (calls i).thread = some t ∧ (s.db.view i).findThread t = none) ∧
      s.TipCurrent H calls a) ∨
    (∃ i prev, a = .insert i ∧ s.phase i = .tipRead prev ∧ s.threadTaken calls i = false ∧
      s.db.working = none ∧
      s' = { s.goto i (.inserted (s.db.committed.seq + 1)) with
        db := ⟨s.db.committed, some (i, s.db.committed.insert H (calls i).payload prev)⟩ }) ∨
    (∃ i id db, a = .commit i ∧ s.phase i = .inserted id ∧ s.db.commit i = some db ∧
      s' = { s.goto i (.returned (.int id)) with db := db }) := by
  cases a with
  | selectExisting i =>
      left
      simp only [step] at h
      split at h
      · rename_i t hphase hthread
        split at h <;> cases h
        · exact ⟨i, _, rfl, by simp [hphase, holds], rfl, by simp, by simp, trivial⟩
        · exact ⟨i, _, rfl, by simp [hphase, holds], rfl, by simp, by simp, trivial⟩
      · rename_i t hphase hthread
        split at h <;> cases h
        · exact ⟨i, _, rfl, by simp [hphase, holds], rfl, by simp, by simp, trivial⟩
        · rename_i hnone
          exact ⟨i, _, rfl, by simp [hphase, holds], rfl, by simp,
            fun _ => ⟨hphase, t, hthread, hnone⟩, trivial⟩
      · cases h
  | selectTip i =>
      left
      simp only [step] at h
      split at h
      · rename_i hphase
        cases h
        exact ⟨i, _, rfl, by simp [hphase, holds], rfl, by simp, by simp, trivial⟩
      · cases h
  | insert i =>
      simp only [step] at h
      split at h
      · rename_i prev hphase hidle
        split at h
        · rename_i htaken
          cases h
          refine .inl ⟨i, _, rfl, by simp [hphase, holds], rfl, fun _ => htaken, by simp, ?_⟩
          intro _ _ hfree
          rw [htaken] at hfree
          cases hfree
        · rename_i hfree
          obtain ⟨db, hdb, rfl⟩ := Option.map_eq_some_iff.mp h
          obtain ⟨-, rfl⟩ := WriteLock.write_eq hdb
          refine .inr (.inl ⟨i, prev, rfl, hphase, by simpa using hfree, hidle, ?_⟩)
          rw [WriteLock.latest_of_idle hidle]
      · cases h
  | commit i =>
      simp only [step] at h
      split at h
      · rename_i id hphase
        obtain ⟨db, hdb, rfl⟩ := Option.map_eq_some_iff.mp h
        exact .inr (.inr ⟨i, id, db, rfl, hphase, hdb, rfl⟩)
      · cases h

/-! ### Every reachable state -/

/-- The call that has inserted is the one with the open transaction, committed rows stay at the
front of the table, and a call that lost its race finds the row it lost to. -/
structure Recording (calls : ω → Write C) (s : RecorderState ω) : Prop where
  holder : ∀ i, holds (s.phase i) = true ↔ ∃ table, s.db.working = some (i, table)
  grows : s.db.committed.rows <+: s.db.latest.rows
  lost : ∀ i, s.phase i = .conflict → s.threadTaken calls i = true
  found : ∀ i, s.phase i ≠ .raised

omit [DecidableEq ω] in
theorem Recording.of_starts (h : s.Starts calls) : Recording calls s where
  holder i := by
    rw [h.1, h.2]
    unfold Write.begin
    split <;> simp [holds]
  grows := by rw [WriteLock.latest_of_idle h.1]
  lost i hi := by
    rw [h.2] at hi
    unfold Write.begin at hi
    split at hi <;> cases hi
  found i hi := by
    rw [h.2] at hi
    unfold Write.begin at hi
    split at hi <;> cases hi

omit [DecidableEq ω] in
theorem threadTaken_mono {i : ω} (h : s.db.committed.rows <+: s'.db.committed.rows)
    (ht : s.threadTaken calls i = true) : s'.threadTaken calls i = true := by
  obtain ⟨added, hadded⟩ := h
  unfold RecorderState.threadTaken at ht ⊢
  obtain ⟨t, hthread, hfound⟩ := (Option.any_eq_true _ _).mp ht
  refine (Option.any_eq_true _ _).mpr ⟨t, hthread, ?_⟩
  simp only [ChainTable.findThread, Option.isSome_map, List.find?_isSome, ← hadded] at hfound ⊢
  obtain ⟨row, hrow, hid⟩ := hfound
  exact ⟨row, List.mem_append_left _ hrow, hid⟩

theorem committed_prefix (hs : Recording calls s) (h : s.step H calls a = some s') :
    s.db.committed.rows <+: s'.db.committed.rows := by
  obtain ⟨i, p, rfl, -⟩ | ⟨i, prev, -, -, -, -, rfl⟩ | ⟨i, id, db, -, hphase, hdb, rfl⟩ :=
    step_cases h
  · exact List.prefix_rfl
  · exact List.prefix_rfl
  · rw [WriteLock.commit_eq hdb]
    exact hs.grows

theorem Recording.step (hs : Recording calls s) (h : s.step H calls a = some s') :
    Recording calls s' := by
  have hprefix := committed_prefix hs h
  obtain ⟨i, p, rfl, hclosed, hp, hlost, hraised, -⟩ | ⟨i, prev, -, hphase, hfree, hidle, rfl⟩ |
    ⟨i, id, db, -, hphase, hdb, rfl⟩ := step_cases h
  · refine ⟨fun j => ?_, hs.grows, ?_, ?_⟩
    · by_cases hji : j = i
      · subst hji
        rw [goto_phase, Function.update_self, hp, goto_db, ← hs.holder, hclosed]
      · rw [goto_phase, Function.update_of_ne hji, goto_db, hs.holder]
    · exact (Function.forall_update_iff s.phase fun j q =>
        q = .conflict → s.threadTaken calls j = true).mpr ⟨hlost, fun j _ => hs.lost j⟩
    · refine (Function.forall_update_iff s.phase fun _ q => q ≠ .raised).mpr
        ⟨fun hraise => ?_, fun j _ => hs.found j⟩
      obtain ⟨hconflict, t, hthread, hnone⟩ := hraised hraise
      -- the row that it lost to is committed, and nobody removes it
      have htaken := hs.lost i hconflict
      have hview : s.db.view i = s.db.committed := by
        apply WriteLock.view_eq_committed
        intro table hw
        have hopen := (hs.holder i).mpr ⟨table, hw⟩
        rw [hconflict] at hopen
        cases hopen
      rw [hview] at hnone
      simp [RecorderState.threadTaken, hthread, hnone] at htaken
  · refine ⟨fun j => ?_, ?_, ?_, ?_⟩
    · by_cases hji : j = i
      · subst hji
        simp [holds]
      · simp only [goto_phase, Function.update_of_ne hji]
        rw [hs.holder, hidle]
        simp [Ne.symm hji]
    · exact List.prefix_append _ _
    · exact (Function.forall_update_iff s.phase fun j q =>
        q = .conflict → s.threadTaken calls j = true).mpr
          ⟨fun hinserted => (by cases hinserted), fun j _ => hs.lost j⟩
    · exact (Function.forall_update_iff s.phase fun _ q => q ≠ .raised).mpr
        ⟨fun hinserted => (by cases hinserted), fun j _ => hs.found j⟩
  · obtain ⟨table, hw⟩ := (hs.holder i).mp (by rw [hphase]; rfl)
    refine ⟨fun j => ?_, ?_, ?_, ?_⟩
    · rw [WriteLock.commit_eq hdb]
      by_cases hji : j = i
      · subst hji
        simp [holds, WriteLock.idle]
      · simp only [goto_phase, Function.update_of_ne hji]
        rw [hs.holder, hw]
        simp [WriteLock.idle, Ne.symm hji]
    · rw [WriteLock.commit_eq hdb]
      exact List.prefix_rfl
    · refine (Function.forall_update_iff s.phase fun j q =>
        q = .conflict → RecorderState.threadTaken calls _ j = true).mpr
          ⟨fun hreturned => (by cases hreturned), fun j _ hj => ?_⟩
      exact threadTaken_mono hprefix (hs.lost j hj)
    · exact (Function.forall_update_iff s.phase fun _ q => q ≠ .raised).mpr
        ⟨fun hreturned => (by cases hreturned), fun j _ => hs.found j⟩

/-- **Step.** The rows as the holder of the lock sees them still chain after a statement exactly
when they did and an `INSERT` met its tip unchanged with a row that reads back. -/
theorem step_verify (h : s.step H calls a = some s') :
    (verifyRows H (payloadOf C) s'.db.latest.rows).ok = true ↔
      (verifyRows H (payloadOf C) s.db.latest.rows).ok = true ∧ s.TipCurrent H calls a := by
  obtain ⟨i, p, rfl, -, -, -, -, hcurrent⟩ | ⟨i, prev, rfl, hphase, hfree, hidle, rfl⟩ |
    ⟨i, id, db, rfl, -, hdb, rfl⟩ := step_cases h
  · rw [goto_db]
    exact (and_iff_left hcurrent).symm
  · have hrows : (WriteLock.mk s.db.committed
        (some (i, s.db.committed.insert H (calls i).payload prev))).latest.rows =
        s.db.committed.rows ++ [storedRow H (s.db.committed.seq + 1) (calls i).payload prev] := rfl
    rw [hrows, verifyRows_storedRow, WriteLock.latest_of_idle hidle]
    refine and_congr_right fun _ => ?_
    constructor
    · intro hprev prev' hphase' _
      rw [hphase] at hphase'
      cases hphase'
      exact hprev
    · intro hcurrent
      exact hcurrent prev hphase hfree
  · rw [WriteLock.commit_eq hdb, WriteLock.latest_idle]
    exact (and_iff_left trivial).symm

omit [DecidableEq ω] in
/-- Once all calls have returned, no transaction is open. -/
theorem Recording.idle_of_done (hs : Recording calls s) (hdone : s.Done) : s.db.working = none := by
  cases hw : s.db.working with
  | none => rfl
  | some held =>
      have hholds := (hs.holder held.1).mpr ⟨held.2, hw⟩
      have hreturned := hdone held.1
      cases hphase : s.phase held.1 <;> simp [hphase, holds, isReturned] at hholds hreturned

/-- **Run.** From a table whose chain verifies, and after every call has returned, the chain
verifies and no committed row is lost exactly when every `INSERT` met unchanged the tip that its
call had read, and stored a row that reads back as it was hashed. -/
theorem recorders_verify_iff {t : RecorderState ω} {tr : List (RecorderState ω × Statement ω)}
    (hstart : s.Starts calls)
    (hok : (verifyRows H (payloadOf C) s.db.committed.rows).ok = true)
    (hrun : Path (step H calls) s tr t) (hdone : t.Done) :
    ((verifyRows H (payloadOf C) t.db.committed.rows).ok = true ∧
        ∀ x ∈ tr, x.1.db.committed.rows <+: t.db.committed.rows) ↔
      ∀ x ∈ tr, x.1.TipCurrent H calls x.2 := by
  obtain ⟨hkept, hrec⟩ := hrun.rel_last (I := Recording calls)
    (R := fun x y => x.db.committed.rows <+: y.db.committed.rows)
    (fun _ _ _ => List.IsPrefix.trans)
    (fun _ _ _ hx h => hx.step h) (fun _ _ _ hx h => committed_prefix hx h) (.of_starts hstart)
  rw [and_iff_left hkept, ← WriteLock.latest_of_idle (hrec.idle_of_done hdone)]
  have hall := hrun.dichotomy
    (I := fun x => (verifyRows H (payloadOf C) x.db.latest.rows).ok = true)
    (B := fun x => ¬ (verifyRows H (payloadOf C) x.db.latest.rows).ok = true)
    (J := fun x a => x.TipCurrent H calls a)
    (fun _ _ _ hx h hj => (step_verify h).mpr ⟨hx, hj⟩)
    (fun _ _ _ _ h hj hy => hj ((step_verify h).mp hy).2)
    (fun _ _ _ hx h hy => hx ((step_verify h).mp hy).1)
    (by rw [WriteLock.latest_of_idle hstart.1]; exact hok)
  rcases hall with ⟨hI, hJ⟩ | ⟨hB, hJ⟩
  · exact iff_of_true hI hJ
  · exact iff_of_false hB hJ

end RecorderState

end

/-! ### Two calls at once -/

/-- An empty table and two calls that have not begun. -/
def twoCalls {C : PayloadColumns} (calls : Bool → Write C) : RecorderState Bool where
  db := .idle ⟨[], 0⟩
  phase i := (calls i).begin

/-- The state after a schedule of two calls. -/
def runTwo {C : PayloadColumns} (calls : Bool → Write C) (schedule : List (Statement Bool)) :
    Option (List (RecorderState Bool × Statement Bool) × RecorderState Bool) :=
  trace (RecorderState.step binaryHost calls) (twoCalls calls) schedule

/-- Two re-entered commits of one thread's recommendation. -/
def sameThread : Bool → Write recommendationColumns := fun second =>
  recordWrite binaryHost .ascii (.fin (if second then 1700000042 else 1700000000)) none
    { action := "BUY", threadId := some "t-1" }

/-- The second call loses the race on the unique index and returns the first one's row. -/
def sameThreadSchedule : List (Statement Bool) :=
  [.selectExisting false, .selectExisting true, .selectTip false, .selectTip true, .insert false,
   .commit false, .insert true, .selectExisting true]

theorem sameThread_done : (runTwo sameThread sameThreadSchedule).any (fun r =>
    RecorderState.isReturned (r.2.phase false) && RecorderState.isReturned (r.2.phase true)) =
      true := by
  decide +kernel

theorem recorders_verify_sameThread :
    ∃ tr t, runTwo sameThread sameThreadSchedule = some (tr, t) ∧
      (((verifyRows binaryHost (payloadOf recommendationColumns) t.db.committed.rows).ok = true ∧
          ∀ x ∈ tr, x.1.db.committed.rows <+: t.db.committed.rows) ↔
        ∀ x ∈ tr, x.1.TipCurrent binaryHost sameThread x.2) := by
  obtain ⟨⟨tr, t⟩, hrun, hdone⟩ := (Option.any_eq_true _ _).mp sameThread_done
  refine ⟨tr, t, hrun, RecorderState.recorders_verify_iff ⟨rfl, fun _ => rfl⟩ rfl
    (Path.of_trace hrun) fun i => ?_⟩
  obtain ⟨hfirst, hsecond⟩ := (Bool.and_eq_true _ _).mp hdone
  cases i with
  | false => exact hfirst
  | true => exact hsecond

/-- The request and the outcome of one interaction, logged at once. -/
def requestAndOutcome : Bool → Write interactionColumns := fun second =>
  appendWrite (if second then loggedOutcome else loggedRequest)

/-- Both calls read the tip before either inserts. -/
def bothReadFirst : List (Statement Bool) :=
  [.selectTip false, .selectTip true, .insert false, .commit false, .insert true, .commit true]

theorem bothReadFirst_rows : (runTwo requestAndOutcome bothReadFirst).map
    (fun r => (r.2.db.committed.rows, RecorderState.isReturned (r.2.phase false),
      RecorderState.isReturned (r.2.phase true))) =
    some ([] ++ [storedRow binaryHost 1 loggedRequest genesisHash] ++
      [storedRow binaryHost 2 loggedOutcome genesisHash], true, true) :=
  rfl

/-- Two calls that read one tip fork the chain: the table that held no row verified, both rows
are committed, and the table no longer verifies. -/
theorem bothReadFirst_forks :
    (verifyRows binaryHost (payloadOf interactionColumns) []).ok = true ∧
      (runTwo requestAndOutcome bothReadFirst).map (fun r =>
        ((verifyRows binaryHost (payloadOf interactionColumns) r.2.db.committed.rows).ok,
          RecorderState.isReturned (r.2.phase false), RecorderState.isReturned (r.2.phase true))) =
        some (false, true, true) := by
  refine ⟨rfl, ?_⟩
  have hforked : (verifyRows binaryHost (payloadOf interactionColumns)
      ([] ++ [storedRow binaryHost 1 loggedRequest genesisHash] ++
        [storedRow binaryHost 2 loggedOutcome genesisHash])).ok = false := by
    rw [Bool.eq_false_iff, ne_eq, verifyRows_storedRow]
    rintro ⟨-, htip, -⟩
    rw [chainTip, List.getLast?_concat] at htip
    simp only [storedRow_row_hash, hashText_str (binaryHost.sha256_ne _), hashJson] at htip
    exact binaryHost_ne_genesis _ htip.symm
  have hrows := congrArg (Option.map fun r : List Row × Bool × Bool =>
    ((verifyRows binaryHost (payloadOf interactionColumns) r.1).ok, r.2)) bothReadFirst_rows
  rw [Option.map_map, Option.map_some, hforked] at hrows
  exact hrows

end AiTrader.Compliance
