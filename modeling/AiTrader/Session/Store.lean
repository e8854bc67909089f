import AiTrader.Library.Table
import AiTrader.Text
import AiTrader.Value

/-! # The session store

The tables of `session_store.py`: sessions, their runs, the messages of the conversation and
the frames of each run's transcript.  Every public function is one transaction, so it is one
function from store to store; a raised error rolls back, so it returns no store.

* **Identifiers.** `new_id` never repeats: identifiers are drawn from a counter, and that
  every stored identifier was drawn is a field of `Store`.
* **Clock.** `now()` is an argument.
* **Set-once.** `finalizeRun` and `finalizeMessage` only touch rows that have no terminal
  state yet; `updateRunStatus` and `appendMessageDelta` carry the same guard. -/

namespace AiTrader.Session

open Text

/-- Seconds since the epoch, or on the monotonic clock. -/
abbrev Stamp := ℚ

/-- An identifier minted by `new_id`. -/
abbrev Id := ℕ

/-! ### Vocabularies -/

inductive SessionStatus where
  | active | archived | deleted
deriving DecidableEq, Repr

inductive RunKind where
  | find | verify
deriving DecidableEq, Repr

inductive RunStatus where
  | running | watching | complete | cancelled | error | truncated
deriving DecidableEq, Repr

/-- `RUN_LIVE_STATUSES`. -/
def RunStatus.live : RunStatus → Bool
  | running | watching => true
  | _ => false

inductive Role where
  | user | assistant | system
deriving DecidableEq, Repr

inductive MessageKind where
  | analysisRequest | analysisAnswer | qaQuestion | qaAnswer | notice
deriving DecidableEq, Repr

inductive MessageStatus where
  | streaming | complete | truncated | error | cancelled
deriving DecidableEq, Repr

/-- The cap on one message body. -/
def maxContentChars : ℕ := 200000

/-! ### Rows -/

structure SessionRow where
  sessionId : Id
  userId : String
  title : Option String
  symbol : String
  profile : String
  timeframe : String
  status : SessionStatus
  activeRunId : Option Id
  createdAt : Stamp
  updatedAt : Stamp
  archivedAt : Option Stamp

structure RunRow where
  runId : Id
  sessionId : Id
  userId : String
  threadId : Id
  kind : RunKind
  symbol : String
  timeframe : String
  profile : String
  model : Option String
  manualTrade : Option PyVal
  status : RunStatus
  terminalStatus : Option RunStatus
  startedAt : Stamp
  endedAt : Option Stamp
  lastEventAt : Stamp
  lastSeq : ℕ

structure MessageRow where
  messageId : Id
  sessionId : Id
  runId : Option Id
  seq : ℕ
  role : Role
  kind : MessageKind
  content : String
  status : MessageStatus
  errorDetail : Option String
  clientMsgId : Option String
  createdAt : Stamp
  updatedAt : Stamp

structure EventRow where
  runId : Id
  seq : ℕ
  event : String
  payload : PyVal
  createdAt : Stamp

/-- `PRIMARY KEY (run_id, seq)`. -/
def EventRow.key (e : EventRow) : Id × ℕ := (e.runId, e.seq)

/-- The database.  No stored run or message carries an identifier not yet minted. -/
structure Store where
  sessions : Table SessionRow.sessionId
  runs : Table RunRow.runId
  messages : Table MessageRow.messageId
  runEvents : Table EventRow.key
  nextId : Id
  runs_minted : ∀ r ∈ runs.rows, r.runId < nextId
  messages_minted : ∀ m ∈ messages.rows, m.messageId < nextId

inductive StoreError where
  | required (field : String)
  | partialUserMessage
  | terminalStatus (s : RunStatus)
  | notTerminal (s : RunStatus)
  | stillStreaming
  | foreignKey
deriving DecidableEq, Repr

/-- The store before anything was written. -/
def Store.empty : Store where
  sessions := .empty
  runs := .empty
  messages := .empty
  runEvents := .empty
  nextId := 0
  runs_minted := by simp [Table.empty]
  messages_minted := by simp [Table.empty]

/-! ### Coercion helpers -/

/-- `_text`: blank text becomes `NULL`, oversized text is capped and says so. -/
def text (value : String) (cap : ℕ := maxContentChars) : Option String :=
  let t := value.toList.filter (fun c => c.toNat ≠ 0)
  if (trimBoth isSpace t).isEmpty then none
  else if t.length > cap then
    some (String.ofList (t.take cap) ++ "\n[truncated " ++ toString (t.length - cap) ++
      " characters]")
  else some (String.ofList t)

/-- `_required`. -/
def required (value field : String) : Except StoreError String :=
  match text value with
  | none => .error (.required field)
  | some t => .ok t

namespace Store

/-- `_touch`: a write to a child row bumps its session. -/
def touch (s : Store) (sessionId : Id) (stamp : Stamp) : Store :=
  { s with
    sessions := s.sessions.updateWhere (fun r => r.sessionId = sessionId)
      (fun r => { r with updatedAt := stamp }) (fun _ => rfl) }

@[simp] theorem touch_runs (s : Store) (sid : Id) (t : Stamp) : (s.touch sid t).runs = s.runs := rfl
@[simp] theorem touch_messages (s : Store) (sid : Id) (t : Stamp) :
    (s.touch sid t).messages = s.messages := rfl
@[simp] theorem touch_runEvents (s : Store) (sid : Id) (t : Stamp) :
    (s.touch sid t).runEvents = s.runEvents := rfl
@[simp] theorem touch_nextId (s : Store) (sid : Id) (t : Stamp) :
    (s.touch sid t).nextId = s.nextId := rfl

/-- Rewrite run rows in place. -/
def updateRuns (s : Store) (p : RunRow → Bool) (f : RunRow → RunRow)
    (hf : ∀ r, (f r).runId = r.runId) : Store :=
  { s with
    runs := s.runs.updateWhere p f hf
    runs_minted := fun r hr => by
      obtain ⟨x, hx, hxr⟩ := Table.mem_updateWhere hr
      rw [hxr]; exact s.runs_minted x hx }

/-- Rewrite message rows in place. -/
def updateMessages (s : Store) (p : MessageRow → Bool) (f : MessageRow → MessageRow)
    (hf : ∀ r, (f r).messageId = r.messageId) : Store :=
  { s with
    messages := s.messages.updateWhere p f hf
    messages_minted := fun m hm => by
      obtain ⟨x, hx, hxm⟩ := Table.mem_updateWhere hm
      rw [hxm]; exact s.messages_minted x hx }

end Store

end AiTrader.Session
