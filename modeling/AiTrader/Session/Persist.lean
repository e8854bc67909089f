import AiTrader.Session.Operations

/-! # The stream persister

`StreamPersister` records what one leg of a run emits: its frames into the transcript, its
prose into one assistant message, and at the end the outcome of both.

Every store call sits in a `try` that logs once and goes on, so a call that raises is a call
that leaves the store as it was and skips the rest of its method.  Which calls raise, and what
the two clocks read, is the environment's choice (`Io`). -/

namespace AiTrader.Session

/-- The store functions the persister calls. -/
inductive StoreCall where
  | createMessage | appendRunEvents | appendMessageDelta
  | updateRunStatus | finalizeRun | finalizeMessage
deriving DecidableEq, Repr

/-- What the environment supplies to one method call. -/
structure Io where
  monotonic : Stamp
  now : Stamp
  fails : StoreCall → Bool

/-- The entry point a leg was started from. -/
inductive LegKind where
  | run | resume | qa
deriving DecidableEq, Repr

/-- The words the generator closes a run with, as `_map_terminal` knows them. -/
inductive TerminalWord where
  | completed | complete | cancelled | error | truncated | disconnected | unrecognised
deriving DecidableEq, Repr

/-- `_map_terminal`. -/
def mapTerminal : TerminalWord → RunStatus × MessageStatus
  | .completed | .complete => (.complete, .complete)
  | .cancelled => (.cancelled, .cancelled)
  | .error => (.error, .error)
  | .truncated | .disconnected | .unrecognised => (.truncated, .truncated)

theorem mapTerminal_live (w : TerminalWord) : (mapTerminal w).1.live = false := by
  cases w <;> rfl

/-- Frames per transaction. -/
def batchSize : ℕ := 25

/-- The longest a frame waits, in seconds. -/
def batchMaxAge : ℚ := 1 / 4

/-- `_CONTENT_EVENTS`. -/
def contentEvents : List String := ["REASONING", "TEXT_MESSAGE"]

/-- `_TERMINAL_EVENTS`. -/
def terminalEvents : List String := ["RUN_FINISHED", "ERROR"]

/-- One persister: the run it records, and what it holds back until the next flush.
`enabled` is the deployment's switch. -/
structure Persister where
  runId : Option Id
  sessionId : Option Id
  kind : LegKind
  enabled : Bool
  messageId : Option Id
  buffer : List (String × PyVal)
  pendingText : List String
  flushedAt : Stamp
  finalized : Bool
  warned : Bool

/-- `StreamPersister.__init__`. -/
def Persister.init (io : Io) (runId sessionId : Option Id) (kind : LegKind) (enabled : Bool) :
    Persister :=
  { runId := runId, sessionId := sessionId, kind := kind, enabled := enabled, messageId := none,
    buffer := [], pendingText := [], flushedAt := io.monotonic, finalized := false,
    warned := false }

/-- A store call inside the `try`: the value and the new store, `none` when it raised. -/
def Io.call {α : Type} (io : Io) (c : StoreCall) (w : Write α) : Option (α × Store) :=
  if io.fails c then none else w.toOption

namespace Persister

/-- `active`: the run to record, if there is one and persistence is on. -/
def active (p : Persister) : Option Id := if p.enabled then p.runId else none

/-- `_warn`: a failure is logged once. -/
def warn (p : Persister) : Persister := { p with warned := true }

/-- The message `open` creates. -/
def answerRequest (p : Persister) (runId sessionId : Id) : Store.MessageRequest :=
  { sessionId := sessionId, role := .assistant,
    kind := if p.kind = .qa then .qaAnswer else .analysisAnswer,
    status := .streaming, content := "", runId := some runId, clientMsgId := none,
    errorDetail := none }

/-- `open`: the assistant message, created before the first frame. -/
def openMessage (io : Io) (p : Persister) (s : Store) : Persister × Store :=
  match p.active, p.messageId, p.sessionId with
  | some rid, none, some sid =>
      match io.call .createMessage (s.createMessage io.now (p.answerRequest rid sid)) with
      | none => (p.warn, s)
      | some (m, s') => ({ p with messageId := m.map MessageRow.messageId }, s')
  | _, _, _ => (p, s)

/-- The two store calls of `flush`, in order; `none` as soon as one raises, next to what the
store holds by then. -/
def writeBatch (io : Io) (rid : Id) (frames : List (String × PyVal)) (text : String)
    (messageId : Option Id) (s : Store) : Bool × Store :=
  match (if frames.isEmpty then some (0, s)
         else io.call .appendRunEvents (s.appendRunEvents io.now rid frames)) with
  | none => (false, s)
  | some (_, s₁) =>
      match messageId with
      | none => (true, s₁)
      | some mid =>
          if text = "" then (true, s₁)
          else
            match io.call .appendMessageDelta (s₁.appendMessageDelta io.now mid text) with
            | none => (false, s₁)
            | some (_, s₂) => (true, s₂)

/-- `flush`: writes what was held back.  Never raises. -/
def flush (io : Io) (p : Persister) (s : Store) : Persister × Store :=
  match p.active with
  | none => (p, s)
  | some rid =>
      if p.buffer.isEmpty && p.pendingText.isEmpty then (p, s)
      else
        let p' := { p with buffer := [], pendingText := [], flushedAt := io.monotonic }
        let (ok, s') := writeBatch io rid p.buffer (String.join p.pendingText) p.messageId s
        (if ok then p' else p'.warn, s')

/-- The prose of a frame: the non-empty `content` of a content event. -/
def contentOf (event : String) (payload : PyVal) : Option String :=
  match payload with
  | .dict kvs =>
      if event ∈ contentEvents then
        match Kwargs.get kvs "content" with
        | .str c => if c = "" then none else some c
        | _ => none
      else none
  | _ => none

/-- What `add` holds back.  A Q&A turn's frames never enter the run's transcript. -/
def hold (p : Persister) (event : String) (payload : PyVal) : Persister :=
  { p with
    buffer := if p.kind = .qa then p.buffer else p.buffer ++ [(event, payload)]
    pendingText := p.pendingText ++ (contentOf event payload).toList }

/-- The batch is flushed when it is terminal, full or stale. -/
def due (io : Io) (p : Persister) (event : String) : Bool :=
  decide (event ∈ terminalEvents) || decide (p.buffer.length ≥ batchSize) ||
    decide (io.monotonic - p.flushedAt ≥ batchMaxAge)

/-- `add`. -/
def add (io : Io) (p : Persister) (event : String) (payload : PyVal) (s : Store) :
    Persister × Store :=
  match p.active with
  | none => (p, s)
  | some _ =>
      let p' := p.hold event payload
      if due io p' event then flush io p' s else (p', s)

/-- The two store calls that close a run and its message. -/
def close (io : Io) (rid : Id) (run : RunStatus) (message : MessageStatus)
    (detail : Option String) (messageId : Option Id) (s : Store) : Bool × Store :=
  match io.call .finalizeRun (s.finalizeRun io.now rid run) with
  | none => (false, s)
  | some (_, s₁) =>
      match messageId with
      | none => (true, s₁)
      | some mid =>
          match io.call .finalizeMessage (s₁.finalizeMessage io.now mid message none detail) with
          | none => (false, s₁)
          | some (_, s₂) => (true, s₂)

/-- The body `finalize` and `record_disconnect` share: once, and after a flush. -/
def closeOnce (io : Io) (p : Persister) (run : RunStatus) (message : MessageStatus)
    (detail : Option String) (s : Store) : Persister × Store :=
  match p.active with
  | none => (p, s)
  | some rid =>
      if p.finalized then (p, s)
      else
        let (p', s') := flush io { p with finalized := true } s
        let (ok, s'') := close io rid run message detail p'.messageId s'
        (if ok then p' else p'.warn, s'')

/-- `finalize`. -/
def finalize (io : Io) (p : Persister) (word : TerminalWord) (detail : Option String)
    (s : Store) : Persister × Store :=
  closeOnce io p (mapTerminal word).1 (mapTerminal word).2 detail s

/-- `record_disconnect`. -/
def recordDisconnect (io : Io) (p : Persister) (s : Store) : Persister × Store :=
  closeOnce io p .truncated .truncated none s

/-- `mark_watching`: a status move.  It does not set `_finalized`. -/
def markWatching (io : Io) (p : Persister) (s : Store) : Persister × Store :=
  match p.active with
  | none => (p, s)
  | some rid =>
      let (p', s') := flush io p s
      match io.call .updateRunStatus (s'.updateRunStatus io.now rid .watching) with
      | none => (p'.warn, s')
      | some (_, s'') => (p', s'')

end Persister

/-! ### What a method changes -/

theorem Io.call_eq_some {α : Type} {io : Io} {c : StoreCall} {w : Write α} {a : α} {s : Store}
    (h : io.call c w = some (a, s)) : w = .ok (a, s) := by
  unfold Io.call at h
  split at h
  · cases h
  · cases w with
    | error e => cases h
    | ok x => simpa [Except.toOption] using h

theorem Io.call_of_ok {α : Type} {io : Io} {c : StoreCall} {w : Write α} {x : α × Store}
    (hf : io.fails c = false) (h : w = .ok x) : io.call c w = some x := by
  simp [Io.call, hf, h, Except.toOption]

theorem Io.call_of_fails {α : Type} {io : Io} {c : StoreCall} {w : Write α}
    (hf : io.fails c = true) : io.call c w = none := by
  simp [Io.call, hf]

namespace Persister

variable (io : Io) (p : Persister) (s : Store) {k rid : Id}

/-- The fields that no method but `finalize` and `record_disconnect` changes. -/
structure SameLeg (p q : Persister) : Prop where
  runId : q.runId = p.runId
  enabled : q.enabled = p.enabled
  kind : q.kind = p.kind
  messageId : q.messageId = p.messageId
  finalized : q.finalized = p.finalized

theorem SameLeg.refl (p : Persister) : SameLeg p p := ⟨rfl, rfl, rfl, rfl, rfl⟩

theorem SameLeg.trans {p q r : Persister} (h₁ : SameLeg p q) (h₂ : SameLeg q r) : SameLeg p r :=
  ⟨h₂.runId.trans h₁.runId, h₂.enabled.trans h₁.enabled, h₂.kind.trans h₁.kind,
    h₂.messageId.trans h₁.messageId, h₂.finalized.trans h₁.finalized⟩

theorem SameLeg.active {p q : Persister} (h : SameLeg p q) : q.active = p.active := by
  simp only [Persister.active, h.enabled, h.runId]

theorem writeBatch_runState (frames : List (String × PyVal)) (text : String) (mid : Option Id) :
    (writeBatch io rid frames text mid s).2.runState k = s.runState k := by
  unfold writeBatch
  split
  · rfl
  · rename_i n s₁ h₁
    have e₁ : s₁.runState k = s.runState k := by
      split at h₁
      · cases h₁; rfl
      · exact Store.appendRunEvents_runState (Io.call_eq_some h₁)
    cases mid with
    | none => exact e₁
    | some m =>
        dsimp only
        split
        · exact e₁
        · split
          · exact e₁
          · rename_i h₂
            have h₂' := Store.appendMessageDelta_runs (Io.call_eq_some h₂)
            exact (Store.runState_of_runs h₂'.1).trans e₁

theorem writeBatch_runEvents (text : String) (mid : Option Id) :
    (writeBatch io rid [] text mid s).2.runEvents = s.runEvents := by
  unfold writeBatch
  simp only [List.isEmpty_nil, if_true]
  cases mid with
  | none => rfl
  | some m =>
      dsimp only
      split
      · rfl
      · split
        · rfl
        · rename_i h₂
          exact (Store.appendMessageDelta_runs (Io.call_eq_some h₂)).2

theorem flush_sameLeg : SameLeg p (p.flush io s).1 := by
  unfold flush
  split
  · exact .refl p
  · split
    · exact .refl p
    · dsimp only
      split <;> exact ⟨rfl, rfl, rfl, rfl, rfl⟩

theorem flush_runState : (p.flush io s).2.runState k = s.runState k := by
  unfold flush
  split
  · rfl
  · split
    · rfl
    · exact writeBatch_runState io s p.buffer _ p.messageId

theorem flush_of_empty (hb : p.buffer = []) :
    (p.flush io s).1.buffer = [] ∧ (p.flush io s).2.runEvents = s.runEvents := by
  unfold flush
  split
  · exact ⟨hb, rfl⟩
  · split
    · exact ⟨hb, rfl⟩
    · refine ⟨?_, ?_⟩
      · dsimp only
        split <;> rfl
      · dsimp only
        rw [hb]
        exact writeBatch_runEvents io s _ _

theorem add_sameLeg (event : String) (payload : PyVal) :
    SameLeg p (p.add io event payload s).1 := by
  have hold_same : SameLeg p (p.hold event payload) := ⟨rfl, rfl, rfl, rfl, rfl⟩
  unfold add
  split
  · exact .refl p
  · dsimp only
    split
    · exact hold_same.trans (flush_sameLeg io _ s)
    · exact hold_same

theorem add_runState (event : String) (payload : PyVal) :
    (p.add io event payload s).2.runState k = s.runState k := by
  unfold add
  split
  · rfl
  · dsimp only
    split
    · exact flush_runState io _ s
    · rfl

theorem add_of_qa (hq : p.kind = .qa) (hb : p.buffer = []) (event : String) (payload : PyVal) :
    (p.add io event payload s).1.buffer = [] ∧
      (p.add io event payload s).2.runEvents = s.runEvents := by
  have hh : (p.hold event payload).buffer = [] := by simp [hold, hq, hb]
  unfold add
  split
  · exact ⟨hb, rfl⟩
  · dsimp only
    split
    · exact flush_of_empty io _ s hh
    · exact ⟨hh, rfl⟩

theorem openMessage_run :
    (p.openMessage io s).1.finalized = p.finalized ∧ (p.openMessage io s).1.kind = p.kind ∧
      (p.openMessage io s).1.active = p.active ∧ (p.openMessage io s).1.buffer = p.buffer ∧
      (p.openMessage io s).2.runs = s.runs ∧ (p.openMessage io s).2.runEvents = s.runEvents := by
  unfold openMessage
  split
  · split
    · exact ⟨rfl, rfl, rfl, rfl, rfl, rfl⟩
    · rename_i h
      obtain ⟨h1, h2⟩ := Store.createMessage_runs (Io.call_eq_some h)
      exact ⟨rfl, rfl, rfl, rfl, h1, h2⟩
  · exact ⟨rfl, rfl, rfl, rfl, rfl, rfl⟩

/-- The two closing calls settle the run, unless the store refuses the first of them. -/
theorem close_runState (rid : Id) {run : RunStatus} (hlive : run.live = false)
    (message : MessageStatus) (detail : Option String) (mid : Option Id) :
    (close io rid run message detail mid s).2.runState rid =
        (if io.fails .finalizeRun then s.runState rid
         else (s.runState rid).map (RunState.settle run io.now)) ∧
      (close io rid run message detail mid s).2.runEvents = s.runEvents := by
  unfold close
  cases hf : io.fails .finalizeRun with
  | true => rw [Io.call_of_fails hf]; exact ⟨rfl, rfl⟩
  | false =>
      obtain ⟨b, s₁, h₁⟩ : ∃ b s₁, s.finalizeRun io.now rid run = .ok (b, s₁) :=
        Store.finalizeRun_ok hlive
      obtain ⟨e₁, v₁⟩ := Store.finalizeRun_runState h₁
      rw [Io.call_of_ok hf h₁]
      simp only [Bool.false_eq_true, if_false]
      cases mid with
      | none => exact ⟨e₁, v₁⟩
      | some m =>
          dsimp only
          split
          · exact ⟨e₁, v₁⟩
          · rename_i h₂
            obtain ⟨r₂, v₂⟩ := Store.finalizeMessage_runs (Io.call_eq_some h₂)
            exact ⟨(Store.runState_of_runs r₂).trans e₁, v₂.trans v₁⟩

/-- **Closing.** A persister that has not closed its run yet settles it; every later closing
call is without effect. -/
theorem closeOnce_spec (ha : p.active = some rid) {run : RunStatus} (hlive : run.live = false)
    (message : MessageStatus) (detail : Option String) :
    (p.closeOnce io run message detail s).1.finalized = true ∧
      (p.closeOnce io run message detail s).1.active = some rid ∧
      (p.closeOnce io run message detail s).2.runState rid =
        if p.finalized || io.fails .finalizeRun then s.runState rid
        else (s.runState rid).map (RunState.settle run io.now) := by
  unfold closeOnce
  rw [ha]
  dsimp only
  cases hfin : p.finalized with
  | true => simp [hfin, ha]
  | false =>
      simp only [Bool.false_eq_true, if_false, Bool.false_or]
      have hs := flush_sameLeg io { p with finalized := true } s
      have hact : (({ p with finalized := true } : Persister).flush io s).1.active = some rid :=
        hs.active.trans ha
      have hcl := (close_runState io
        (({ p with finalized := true } : Persister).flush io s).2 rid hlive message detail
        (({ p with finalized := true } : Persister).flush io s).1.messageId).1
      rw [flush_runState] at hcl
      refine ⟨?_, ?_, hcl⟩
      · split
        · exact hs.finalized
        · exact hs.finalized
      · split
        · exact hact
        · exact hact

theorem closeOnce_runEvents (hb : p.buffer = []) {run : RunStatus} (hlive : run.live = false)
    (message : MessageStatus) (detail : Option String) :
    (p.closeOnce io run message detail s).1.buffer = [] ∧
      (p.closeOnce io run message detail s).2.runEvents = s.runEvents := by
  unfold closeOnce
  split
  · exact ⟨hb, rfl⟩
  · split
    · exact ⟨hb, rfl⟩
    · obtain ⟨h1, h2⟩ := flush_of_empty io { p with finalized := true } s hb
      refine ⟨?_, ?_⟩
      · dsimp only
        split <;> exact h1
      · exact (close_runState io _ _ hlive message detail _).2.trans h2

theorem closeOnce_kind (run : RunStatus) (message : MessageStatus) (detail : Option String) :
    (p.closeOnce io run message detail s).1.kind = p.kind := by
  unfold closeOnce
  split
  · rfl
  · split
    · rfl
    · have hs := flush_sameLeg io { p with finalized := true } s
      dsimp only
      split <;> exact hs.kind

theorem markWatching_kind : (p.markWatching io s).1.kind = p.kind := by
  unfold markWatching
  split
  · rfl
  · dsimp only
    split <;> exact (flush_sameLeg io p s).kind

theorem markWatching_spec (ha : p.active = some rid) :
    SameLeg p (p.markWatching io s).1 ∧
      (p.markWatching io s).2.runState rid =
        if io.fails .updateRunStatus then s.runState rid
        else (s.runState rid).map (RunState.move .watching) := by
  unfold markWatching
  rw [ha]
  dsimp only
  have hs := flush_sameLeg io p s
  cases hf : io.fails .updateRunStatus with
  | true =>
      rw [Io.call_of_fails hf]
      exact ⟨hs.trans ⟨rfl, rfl, rfl, rfl, rfl⟩, by simp [flush_runState]⟩
  | false =>
      obtain ⟨b, s₁, h₁⟩ : ∃ b s₁,
          (p.flush io s).2.updateRunStatus io.now rid .watching = .ok (b, s₁) :=
        Store.updateRunStatus_ok rfl
      rw [Io.call_of_ok hf h₁]
      refine ⟨hs, ?_⟩
      have e₁ := (Store.updateRunStatus_runState h₁).1
      simpa [flush_runState] using e₁

theorem markWatching_runEvents (hb : p.buffer = []) :
    (p.markWatching io s).1.buffer = [] ∧
      (p.markWatching io s).2.runEvents = s.runEvents := by
  unfold markWatching
  split
  · exact ⟨hb, rfl⟩
  · obtain ⟨h1, h2⟩ := flush_of_empty io p s hb
    dsimp only
    split
    · exact ⟨h1, h2⟩
    · rename_i h
      exact ⟨h1, (Store.updateRunStatus_runState (Io.call_eq_some h)).2.trans h2⟩

end Persister

end AiTrader.Session
