import AiTrader.Library.Fallible
import AiTrader.Session.Store

/-! # Operations of the session store

One definition for each public function of `session_store.py` that the run lifecycle uses,
and for each what it does to the run row, the message rows and the transcript of a run:
the lemmas named `…_runState`, `…_runs` and `…_runEvents`. -/

namespace AiTrader.Session

open Text

/-- What a write returns: a value and the store after the commit, or the raised error. -/
abbrev Write (α : Type) := Except StoreError (α × Store)

namespace Store

/-! ### Sessions and runs -/

section creation
variable (C : Casing)

/-- `create_session`. -/
def createSession (s : Store) (now : Stamp) (userId symbol profile timeframe : String)
    (title : Option String) : Except StoreError (SessionRow × Store) := do
  let uid ← required userId "user_id"
  let sym ← required symbol "symbol"
  let prof ← required profile "profile"
  let tf ← required timeframe "timeframe"
  let row : SessionRow :=
    { sessionId := s.nextId, userId := uid, title := title.bind (text · 200),
      symbol := C.upper sym, profile := C.upper prof, timeframe := tf, status := .active,
      activeRunId := none, createdAt := now, updatedAt := now, archivedAt := none }
  return (row,
    { s with
      sessions := s.sessions.insertIgnore row
      nextId := s.nextId + 1
      runs_minted := fun r hr => Nat.lt_succ_of_lt (s.runs_minted r hr)
      messages_minted := fun m hm => Nat.lt_succ_of_lt (s.messages_minted m hm) })

/-- What `create_run` is asked to store. -/
structure RunRequest where
  sessionId : Id
  userId : String
  kind : RunKind
  symbol : String
  timeframe : String
  profile : String
  model : Option String
  manualTrade : Option PyVal

/-- The row `create_run` inserts: running, with no terminal state. -/
def newRun (runId threadId : Id) (now : Stamp) (q : RunRequest) (uid sym tf prof : String) :
    RunRow :=
  { runId := runId, sessionId := q.sessionId, userId := uid, threadId := threadId,
    kind := q.kind, symbol := C.upper sym, timeframe := tf, profile := C.upper prof,
    model := q.model.bind (text ·), manualTrade := q.manualTrade, status := .running,
    terminalStatus := none, startedAt := now, endedAt := none, lastEventAt := now, lastSeq := 0 }

/-- Append a run row under the identifier minted for it; `thread_id` takes the next one. -/
def insertRun (s : Store) (row : RunRow) (h : row.runId = s.nextId) : Store :=
  { s with
    runs := s.runs.insertIgnore row
    nextId := s.nextId + 2
    runs_minted := fun r hr => by
      rcases Table.mem_insertIgnore hr with hr | rfl
      · exact Nat.lt_add_right 2 (s.runs_minted r hr)
      · rw [h]; exact Nat.lt_add_of_pos_right (by decide)
    messages_minted := fun m hm => Nat.lt_add_right 2 (s.messages_minted m hm) }

/-- `create_run`: `none` when the session is missing, deleted or another user's. -/
def createRun (s : Store) (now : Stamp) (q : RunRequest) :
    Except StoreError (Option RunRow × Store) := do
  let uid ← required q.userId "user_id"
  match s.sessions.find? q.sessionId with
  | none => return (none, s)
  | some sess =>
      if sess.userId ≠ uid ∨ sess.status = .deleted then return (none, s)
      let sym ← required q.symbol "symbol"
      let tf ← required q.timeframe "timeframe"
      let prof ← required q.profile "profile"
      let row := newRun C s.nextId (s.nextId + 1) now q uid sym tf prof
      let s₁ := s.insertRun row rfl
      return (some row,
        { s₁ with
          sessions := s₁.sessions.updateWhere (fun r => r.sessionId = q.sessionId)
            (fun r => { r with activeRunId := some row.runId, updatedAt := now }) (fun _ => rfl) })

variable {C} {s s' : Store} {now : Stamp} {q : RunRequest} {r : Option RunRow}

theorem createRun_cases (h : s.createRun C now q = .ok (r, s')) :
    (r = none ∧ s' = s) ∨
      ∃ uid sess sym tf prof, s.sessions.find? q.sessionId = some sess ∧ sess.userId = uid ∧
        sess.status ≠ .deleted ∧ r = some (newRun C s.nextId (s.nextId + 1) now q uid sym tf prof) ∧
        s' = { s.insertRun (newRun C s.nextId (s.nextId + 1) now q uid sym tf prof) rfl with
          sessions := s.sessions.updateWhere (fun x => x.sessionId = q.sessionId)
            (fun x => { x with activeRunId := some s.nextId, updatedAt := now })
            (fun _ => rfl) } := by
  obtain ⟨uid, -, h⟩ := Fallible.bind_eq_ok.mp h
  split at h
  · cases h
    exact .inl ⟨rfl, rfl⟩
  · rename_i sess hsess
    split at h
    · cases h
      exact .inl ⟨rfl, rfl⟩
    · rename_i hown
      rw [not_or, not_not] at hown
      obtain ⟨sym, -, h⟩ := Fallible.bind_eq_ok.mp h
      obtain ⟨tf, -, h⟩ := Fallible.bind_eq_ok.mp h
      obtain ⟨prof, -, h⟩ := Fallible.bind_eq_ok.mp h
      cases h
      exact .inr ⟨uid, sess, sym, tf, prof, hsess, hown.1, hown.2, rfl, rfl⟩

end creation

/-- `update_run_status`: a move to a live status, refused once the run is terminal. -/
def updateRunStatus (s : Store) (now : Stamp) (runId : Id) (status : RunStatus) : Write Bool :=
  if status.live then
    let hit := fun r : RunRow => decide (r.runId = runId) && r.terminalStatus.isNone
    .ok (s.runs.rows.any hit,
      s.updateRuns hit (fun r => { r with status := status, lastEventAt := now }) (fun _ => rfl))
  else .error (.terminalStatus status)

/-- `finalize_run`: records the terminal state once. -/
def finalizeRun (s : Store) (now : Stamp) (runId : Id) (terminal : RunStatus) : Write Bool :=
  if terminal.live then .error (.notTerminal terminal)
  else
    let hit := fun r : RunRow => decide (r.runId = runId) && r.terminalStatus.isNone
    let s₁ := s.updateRuns hit
      (fun r => { r with
        status := terminal, terminalStatus := some terminal,
        endedAt := some now, lastEventAt := now })
      (fun _ => rfl)
    match s.runs.find? runId with
    | some r =>
        if r.terminalStatus.isNone then .ok (true, s₁.touch r.sessionId now) else .ok (false, s₁)
    | none => .ok (false, s₁)

/-! ### The transcript -/

/-- The rows of a batch, numbered from `seq + 1`. -/
def eventRows (runId : Id) (now : Stamp) : ℕ → List (String × PyVal) → List EventRow
  | _, [] => []
  | seq, (event, payload) :: rest =>
      { runId := runId, seq := seq + 1, event := event, payload := payload, createdAt := now } ::
        eventRows runId now (seq + 1) rest

/-- `append_run_events`: the batch is numbered from the run's `last_seq`. -/
def appendRunEvents (s : Store) (now : Stamp) (runId : Id) (events : List (String × PyVal)) :
    Write ℕ :=
  match s.runs.find? runId with
  | none => .ok (0, s)
  | some r =>
      if events.isEmpty then .ok (r.lastSeq, s)
      else if events.any (fun e => (text e.1).isNone) then .error (.required "event")
      else
        let seq := r.lastSeq + events.length
        let s₁ : Store :=
          { s with
            runEvents := (eventRows runId now r.lastSeq events).foldl Table.insertIgnore
              s.runEvents }
        let s₂ := s₁.updateRuns (fun x => decide (x.runId = runId))
          (fun x => { x with lastSeq := seq, lastEventAt := now }) (fun _ => rfl)
        .ok (seq, s₂.touch r.sessionId now)

/-! ### Messages -/

/-- What `create_message` is asked to store. -/
structure MessageRequest where
  sessionId : Id
  role : Role
  kind : MessageKind
  status : MessageStatus
  content : String
  runId : Option Id
  clientMsgId : Option String
  errorDetail : Option String

/-- `COALESCE(MAX(seq), 0) + 1` over the session's messages. -/
def nextSeq (s : Store) (sessionId : Id) : ℕ :=
  ((s.messages.rows.filter (fun m => decide (m.sessionId = sessionId))).map
    MessageRow.seq).foldl max 0 + 1

/-- The message a retried send already stored. -/
def priorMessage (s : Store) (sessionId : Id) (cid : Option String) : Option MessageRow :=
  cid.bind fun c => s.messages.rows.find? (fun m =>
    decide (m.sessionId = sessionId) && decide (m.clientMsgId = some c))

/-- Append a message row under the identifier minted for it. -/
def insertMessage (s : Store) (row : MessageRow) (h : row.messageId = s.nextId) : Store :=
  { s with
    messages := s.messages.insertIgnore row
    nextId := s.nextId + 1
    runs_minted := fun r hr => Nat.lt_succ_of_lt (s.runs_minted r hr)
    messages_minted := fun m hm => by
      rcases Table.mem_insertIgnore hm with hm | rfl
      · exact Nat.lt_succ_of_lt (s.messages_minted m hm)
      · exact h ▸ Nat.lt_succ_self _ }

/-- `create_message`: idempotent on `client_msg_id`; `none` when the session is missing. -/
def createMessage (s : Store) (now : Stamp) (q : MessageRequest) : Write (Option MessageRow) :=
  if q.role = .user ∧ q.status ≠ .complete then .error .partialUserMessage
  else
    match s.sessions.find? q.sessionId with
    | none => .ok (none, s)
    | some _ =>
        let cid := q.clientMsgId.bind (text · 200)
        match s.priorMessage q.sessionId cid with
        | some prior => .ok (some prior, s)
        | none =>
            -- the foreign key on `run_id` is enforced by the connection's pragma
            if (q.runId.any fun r => (s.runs.find? r).isNone) then .error .foreignKey
            else
              let row : MessageRow :=
                { messageId := s.nextId, sessionId := q.sessionId, runId := q.runId,
                  seq := s.nextSeq q.sessionId, role := q.role, kind := q.kind,
                  content := (text q.content).getD "", status := q.status,
                  errorDetail := q.errorDetail.bind (text ·), clientMsgId := cid,
                  createdAt := now, updatedAt := now }
              .ok (some row, (s.insertMessage row rfl).touch q.sessionId now)

theorem createMessage_cases {s s' : Store} {now : Stamp} {q : MessageRequest}
    {m : Option MessageRow} (h : s.createMessage now q = .ok (m, s')) :
    s' = s ∨ ∃ (row : MessageRow) (hrow : row.messageId = s.nextId),
      row.sessionId = q.sessionId ∧ row.runId = q.runId ∧ row.seq = s.nextSeq q.sessionId ∧
        s' = (s.insertMessage row hrow).touch q.sessionId now := by
  unfold createMessage at h
  split at h
  · cases h
  · split at h
    · cases h
      exact .inl rfl
    · dsimp only at h
      split at h
      · cases h
        exact .inl rfl
      · split at h
        · cases h
        · cases h
          exact .inr ⟨_, rfl, rfl, rfl, rfl, rfl⟩

/-- `delta.replace("\x00", "")`. -/
def dropNul (t : String) : String := String.ofList (t.toList.filter (fun c => c.toNat ≠ 0))

/-- `substr(t, 1, MAX_CONTENT_CHARS)`. -/
def capContent (t : String) : String := String.ofList (t.toList.take maxContentChars)

/-- The session of a message, bumped when the message was hit. -/
def touchMessage (s : Store) (now : Stamp) (messageId : Id) : Store :=
  match s.messages.find? messageId with
  | some m => s.touch m.sessionId now
  | none => s

/-- The guard of both message updates. -/
def streamingIs (messageId : Id) (m : MessageRow) : Bool :=
  decide (m.messageId = messageId) && decide (m.status = .streaming)

/-- `append_message_delta`: refuses a message that is no longer streaming. -/
def appendMessageDelta (s : Store) (now : Stamp) (messageId : Id) (delta : String) : Write Bool :=
  let hit := s.messages.rows.any (streamingIs messageId)
  let s₁ := s.updateMessages (streamingIs messageId)
    (fun m => { m with content := capContent (m.content ++ dropNul delta), updatedAt := now })
    (fun _ => rfl)
  .ok (hit, if hit then s₁.touchMessage now messageId else s₁)

/-- `finalize_message`: moves a message out of `streaming` once. -/
def finalizeMessage (s : Store) (now : Stamp) (messageId : Id) (status : MessageStatus)
    (content errorDetail : Option String) : Write Bool :=
  if status = .streaming then .error .stillStreaming
  else
    let hit := s.messages.rows.any (streamingIs messageId)
    let detail := errorDetail.bind (text ·)
    let s₁ := s.updateMessages (streamingIs messageId)
      (fun m => { m with
        status := status, content := (content.map (capContent ∘ dropNul)).getD m.content,
        errorDetail := detail.or m.errorDetail, updatedAt := now })
      (fun _ => rfl)
    .ok (hit, if hit then s₁.touchMessage now messageId else s₁)

end Store

/-! ### What the operations do to a run's outcome -/

/-- The columns of a run row that say how far the run is. -/
structure RunState where
  status : RunStatus
  terminalStatus : Option RunStatus
  endedAt : Option Stamp
deriving DecidableEq

def RunRow.state (r : RunRow) : RunState := ⟨r.status, r.terminalStatus, r.endedAt⟩

namespace RunState

/-- A live move, refused once terminal. -/
def move (status : RunStatus) (x : RunState) : RunState :=
  if x.terminalStatus.isNone then { x with status := status } else x

/-- The terminal state, recorded once. -/
def settle (terminal : RunStatus) (now : Stamp) (x : RunState) : RunState :=
  if x.terminalStatus.isNone then ⟨terminal, some terminal, some now⟩ else x

theorem move_of_terminal {st : RunStatus} {x : RunState} (h : x.terminalStatus ≠ none) :
    x.move st = x := by
  simp [move, h]

theorem settle_of_terminal {st : RunStatus} {now : Stamp} {x : RunState}
    (h : x.terminalStatus ≠ none) : x.settle st now = x := by
  simp [settle, h]

theorem settle_of_open {st : RunStatus} {now : Stamp} {x : RunState}
    (h : x.terminalStatus = none) : x.settle st now = ⟨st, some st, some now⟩ := by
  simp [settle, h]

@[simp] theorem move_terminalStatus (st : RunStatus) (x : RunState) :
    (x.move st).terminalStatus = x.terminalStatus := by
  unfold move
  split <;> rfl

end RunState

namespace Store

/-- How far run `rid` is, if it is stored. -/
def runState (s : Store) (rid : Id) : Option RunState := (s.runs.find? rid).map RunRow.state

variable {s s' : Store} {now : Stamp} {rid k : Id}

theorem runState_of_runs (h : s'.runs = s.runs) : s'.runState k = s.runState k := by
  rw [runState, runState, h]

theorem runState_updateRuns {p : RunRow → Bool} {f : RunRow → RunRow}
    {hf : ∀ r, (f r).runId = r.runId} (h : ∀ r, (f r).state = r.state) :
    (s.updateRuns p f hf).runState k = s.runState k := by
  simp only [runState, updateRuns, Table.find?_updateWhere, Option.map_map]
  congr 1
  funext r
  simp only [Function.comp_apply]
  split
  · exact h r
  · rfl

theorem appendRunEvents_runState {evs : List (String × PyVal)} {n : ℕ}
    (h : s.appendRunEvents now rid evs = .ok (n, s')) : s'.runState k = s.runState k := by
  unfold appendRunEvents at h
  split at h
  · cases h; rfl
  · split_ifs at h with h1 h2
    · cases h; rfl
    · cases h
      rw [runState_of_runs (touch_runs _ _ _)]
      exact runState_updateRuns (fun _ => rfl)

theorem touchMessage_runs (mid : Id) : (s.touchMessage now mid).runs = s.runs := by
  unfold touchMessage
  split <;> rfl

theorem touchMessage_runEvents (mid : Id) :
    (s.touchMessage now mid).runEvents = s.runEvents := by
  unfold touchMessage
  split <;> rfl

theorem createMessage_runs {q : MessageRequest} {m : Option MessageRow}
    (h : s.createMessage now q = .ok (m, s')) :
    s'.runs = s.runs ∧ s'.runEvents = s.runEvents := by
  obtain rfl | ⟨row, hrow, -, -, -, rfl⟩ := createMessage_cases h
  · exact ⟨rfl, rfl⟩
  · exact ⟨rfl, rfl⟩

theorem appendMessageDelta_runs {mid : Id} {delta : String} {b : Bool}
    (h : s.appendMessageDelta now mid delta = .ok (b, s')) :
    s'.runs = s.runs ∧ s'.runEvents = s.runEvents := by
  simp only [appendMessageDelta, Except.ok.injEq, Prod.mk.injEq] at h
  obtain ⟨_, rfl⟩ := h
  split
  · exact ⟨touchMessage_runs _, touchMessage_runEvents _⟩
  · exact ⟨rfl, rfl⟩

theorem finalizeMessage_runs {mid : Id} {st : MessageStatus} {c d : Option String} {b : Bool}
    (h : s.finalizeMessage now mid st c d = .ok (b, s')) :
    s'.runs = s.runs ∧ s'.runEvents = s.runEvents := by
  unfold finalizeMessage at h
  split_ifs at h
  simp only [Except.ok.injEq, Prod.mk.injEq] at h
  obtain ⟨_, rfl⟩ := h
  split
  · exact ⟨touchMessage_runs _, touchMessage_runEvents _⟩
  · exact ⟨rfl, rfl⟩

theorem updateRunStatus_ok {st : RunStatus} (hst : st.live = true) :
    ∃ b s', s.updateRunStatus now rid st = .ok (b, s') := by
  rw [updateRunStatus, if_pos hst]
  exact ⟨_, _, rfl⟩

theorem updateRunStatus_runState {st : RunStatus} {b : Bool}
    (h : s.updateRunStatus now rid st = .ok (b, s')) :
    s'.runState rid = (s.runState rid).map (RunState.move st) ∧ s'.runEvents = s.runEvents := by
  unfold updateRunStatus at h
  split_ifs at h
  simp only [Except.ok.injEq, Prod.mk.injEq] at h
  obtain ⟨_, rfl⟩ := h
  refine ⟨?_, rfl⟩
  simp only [runState, updateRuns, Table.find?_updateWhere, Option.map_map]
  cases hr : s.runs.find? rid with
  | none => rfl
  | some r =>
      have hk : r.runId = rid := Table.find?_key hr
      simp only [Option.map_some, Function.comp_apply, hk, decide_true, Bool.true_and,
        RunState.move, RunRow.state, Option.some.injEq]
      split <;> simp_all

theorem finalizeRun_ok {st : RunStatus} (hst : st.live = false) :
    ∃ b s', s.finalizeRun now rid st = .ok (b, s') := by
  unfold finalizeRun
  simp only [hst, Bool.false_eq_true, if_false]
  split
  · split
    · exact ⟨_, _, rfl⟩
    · exact ⟨_, _, rfl⟩
  · exact ⟨_, _, rfl⟩

theorem finalizeRun_runState {st : RunStatus} {b : Bool}
    (h : s.finalizeRun now rid st = .ok (b, s')) :
    s'.runState rid = (s.runState rid).map (RunState.settle st now) ∧
      s'.runEvents = s.runEvents := by
  have hup : (s.updateRuns (fun r => decide (r.runId = rid) && r.terminalStatus.isNone)
      (fun r => { r with
        status := st, terminalStatus := some st, endedAt := some now, lastEventAt := now })
      (fun _ => rfl)).runState rid = (s.runState rid).map (RunState.settle st now) := by
    simp only [runState, updateRuns, Table.find?_updateWhere, Option.map_map]
    cases hr : s.runs.find? rid with
    | none => rfl
    | some r =>
        have hk : r.runId = rid := Table.find?_key hr
        simp only [Option.map_some, Function.comp_apply, hk, decide_true, Bool.true_and,
          RunState.settle, RunRow.state, Option.some.injEq]
        split <;> simp_all
  unfold finalizeRun at h
  split_ifs at h
  dsimp only at h
  split at h
  · split_ifs at h
    · cases h
      exact ⟨(runState_of_runs (touch_runs _ _ _)).trans hup, rfl⟩
    · cases h; exact ⟨hup, rfl⟩
  · cases h; exact ⟨hup, rfl⟩

end Store

/-! ### A store with one session and one run -/

/-- The store after `create_session` and `create_run`: session `0`, run `1`. -/
def sampleStore : Store :=
  let made : Except StoreError Store := do
    let (sess, s) ← Store.empty.createSession Text.Casing.ascii 0 "u1" "NIFTY" "SWING" "10m" none
    let (_, s') ← s.createRun Text.Casing.ascii 1
      { sessionId := sess.sessionId, userId := "u1", kind := .find, symbol := sess.symbol,
        timeframe := sess.timeframe, profile := sess.profile, model := none, manualTrade := none }
    return s'
  made.toOption.getD .empty

end AiTrader.Session
