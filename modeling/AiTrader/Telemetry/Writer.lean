import AiTrader.Library.Keyed
import AiTrader.Telemetry.Core

/-! # Session telemetry: the writer

`telemetry.py`, `SessionWriter`: one background thread takes the observations of all streams from a
queue and folds them, by thread, into sessions.  `/run` and `/resume` put a start marker, one
observation for every frame and an end marker (`observe_stream`), each stamped with the time.  At an
end marker the session so far is saved.

An observation that raises is logged and skipped (`_run`).

* `process`: `_process`, one observation.
* `threadStep`: what it does to its thread; `process_projection`: and to no other. -/

namespace AiTrader.Telemetry

open Keyed

/-- One observation of the tee. -/
structure Observation where
  threadId : String
  entry : RunEntry
  eventName : Option String := none
  payload : Option Kwargs := none
  ts : ℚ
  entryStarted : Bool := false
  entryEnded : Bool := false

/-- `_EntryBuffer`: the frames of a stream that has not ended. -/
structure EntryBuffer where
  entry : RunEntry
  events : List Event := []
  lastTs : ℚ

/-- `_states` and `_buffers`. -/
structure Writer where
  states : Bank String SessionState := Table.empty
  buffers : Bank String EntryBuffer := Table.empty

/-- `_new_state`. -/
def newState (threadId : String) (entry : RunEntry) (ts : ℚ) : SessionState where
  threadId := threadId
  symbol := entry.symbol
  timeframe := entry.timeframe
  mode := entry.mode
  startedAt := ts

/-- `_start_entry`. -/
def startEntry (w : Writer) (obs : Observation) : Writer where
  buffers := w.buffers.set obs.threadId { entry := obs.entry, lastTs := obs.ts }
  states :=
    match obs.entry.kind with
    | .resume =>
        if (w.states.get obs.threadId).isSome then w.states
        else w.states.set obs.threadId (newState obs.threadId obs.entry obs.ts)
    | .run => w.states.set obs.threadId (newState obs.threadId obs.entry obs.ts)

/-- One step of `_fold_fragment`. -/
def foldEvent (state : SessionState) (event : FunnelEvent) : SessionState :=
  let state := { state with
    funnel := state.funnel ++ [{ event with seq := state.funnel.length }] }
  match event.kind with
  | .watchRegistered =>
      { state with
        watchCycles := state.watchCycles + 1
        toolCallsTotal := state.toolCallsTotal + 1
        toolCallsByName :=
          state.toolCallsByName.bump ((event.toolName.filter (· ≠ "")).getD watchToolName)
        watchStarts := state.watchStarts ++ event.ts.toList }
  | .toolCall =>
      { state with
        toolCallsTotal := state.toolCallsTotal + 1
        toolCallsByName :=
          state.toolCallsByName.bump ((event.toolName.filter (· ≠ "")).getD "unknown") }
  | .reasoningTurn =>
      { state with
        reasoningTurns := state.reasoningTurns + 1
        modelTurns := state.modelTurns + 1 }
  | .resumed =>
      if event.triggerKind = some .invalidation then
        { state with
          resumeCount := state.resumeCount + 1
          invalidationEvents := state.invalidationEvents + 1 }
      else
        { state with
          resumeCount := state.resumeCount + 1
          targetEvents := state.targetEvents + 1 }
  | _ => state

/-- `_fold_fragment`. -/
def foldFragment (state : SessionState) (fragment : List FunnelEvent) : SessionState :=
  fragment.foldl foldEvent state

/-- The token count of one payload: the last of its three places that holds an integer. -/
def payloadTokens (payload : Kwargs) : Option ℤ :=
  let usage : Kwargs :=
    match payload.get "usage" with
    | .dict usage => usage
    | _ => []
  [payload.get "tokens", payload.get "total_tokens", usage.get "total_tokens"].foldl
    (fun tokens value =>
      match value with
      | .int z => some z
      | _ => tokens) none

/-- `_extract_tokens`. -/
def extractTokens (events : List Event) : Option ℤ :=
  events.foldl (fun tokens event => payloadTokens event.2 <|> tokens) none

/-- `_terminal_signals`. -/
structure TerminalSignals where
  decision : Option Kwargs := none
  errored : Bool := false
  terminalTs : Option ℚ := none

section
variable (R : Runtime)

/-- `interpret_events` has read the same stamps before, so reading one does not raise here. -/
def stampOf (payload : Kwargs) : Option ℚ := (extractTs R payload).toOption.join

def terminalSignals (events : List Event) : TerminalSignals :=
  events.foldl (fun signals event =>
    if event.1 = "DECISION" then
      { signals with
        decision := some event.2
        terminalTs := stampOf R event.2 <|> signals.terminalTs }
    else if event.1 = "ERROR" then
      { signals with
        errored := true
        terminalTs := stampOf R event.2 <|> signals.terminalTs }
    else signals) {}

/-- A committed decision or an error ends the session. -/
def TerminalSignals.terminal (signals : TerminalSignals) : Bool :=
  signals.decision.isSome || signals.errored

/-- The outcome, the end, and what the decision says of the hunt. -/
def closeSession (state : SessionState) (signals : TerminalSignals) (lastTs : ℚ) : SessionState :=
  let outcome := classifyOutcome R signals.decision signals.errored
  let decision := signals.decision.getD []
  { state with
    outcome := some outcome.1
    holdReason := outcome.2
    endedAt := some (signals.terminalTs.getD lastTs)
    opportunityTier :=
      match decision.get "opportunity_tier" with
      | .str tier => if tier = "" then state.opportunityTier else some tier
      | _ => state.opportunityTier
    opportunityTerminationReason :=
      match decision.get "reason" with
      | .str reason =>
          if reason = "watch-cap-reached" ∨ reason = "session-budget-exhausted" then some reason
          else state.opportunityTerminationReason
      | _ => state.opportunityTerminationReason }

/-- `_record_event`: the payload is stamped with the time of the observation if it has none. -/
def recordEvent (obs : Observation) (name : String) (buf : EntryBuffer) :
    Except String EntryBuffer := do
  let payload ← match obs.payload with
    | some payload => do
        let ts ← extractTs R payload
        pure (if ts = none then payload.set "ts" (.float (.fin obs.ts)) else payload)
    | none => pure [("ts", .float (.fin obs.ts))]
  pure { buf with events := buf.events ++ [(name, payload)], lastTs := obs.ts }

/-- The session with one more stream folded in. -/
def foldEntry (state : SessionState) (buf : EntryBuffer) : Except String SessionState := do
  let fragment ← interpretEvents R buf.entry buf.events
  let state := foldFragment state fragment
  let state := { state with tokens := extractTokens buf.events <|> state.tokens }
  let signals := terminalSignals R buf.events
  return if signals.terminal then closeSession R state signals buf.lastTs else state

/-- `_end_entry`. -/
def endEntry (w : Writer) (obs : Observation) : Writer × List SessionRecord :=
  match w.buffers.get obs.threadId with
  | none => (w, [])
  | some buf =>
      let w := { w with buffers := w.buffers.erase obs.threadId }
      let state := (w.states.get obs.threadId).getD (newState obs.threadId buf.entry buf.lastTs)
      match foldEntry R state buf with
      | .error _ => ({ w with states := w.states.set obs.threadId state }, [])
      | .ok state =>
          -- a session is dropped once it has an outcome, and kept for its resumes until then
          if (terminalSignals R buf.events).terminal then
            ({ w with states := w.states.erase obs.threadId }, [finalizeSession R state])
          else ({ w with states := w.states.set obs.threadId state }, [finalizeSession R state])

/-- The buffer of a stream is opened by its start marker, or by its first frame. -/
def openEntry (w : Writer) (obs : Observation) : Writer :=
  if obs.entryStarted ∨ w.buffers.get obs.threadId = none then startEntry w obs else w

/-- The rest of `_process`, with the buffer of the stream. -/
def processOpened (w : Writer) (buf : EntryBuffer) (obs : Observation) :
    Writer × List SessionRecord :=
  match obs.eventName with
  | some name =>
      match recordEvent R obs name buf with
      | .error _ => (w, [])
      | .ok buf =>
          let w := { w with buffers := w.buffers.set obs.threadId buf }
          if obs.entryEnded then endEntry R w obs else (w, [])
  | none => if obs.entryEnded then endEntry R w obs else (w, [])

/-- `_process`, and the records it saves. -/
def process (w : Writer) (obs : Observation) : Writer × List SessionRecord :=
  let w := openEntry w obs
  match w.buffers.get obs.threadId with
  | none => (w, [])
  | some buf => processOpened R w buf obs

/-- The records saved on the way. -/
def saved (observations : List Observation) : List SessionRecord :=
  (run (process R) {} observations).2

/-! ### One thread -/

/-- The session and the open stream of one thread. -/
structure ThreadState where
  state : Option SessionState := none
  buffer : Option EntryBuffer := none

/-- What the writer holds of a thread. -/
def threadState (threadId : String) (w : Writer) : ThreadState where
  state := w.states.get threadId
  buffer := w.buffers.get threadId

/-- `startEntry` of one thread. -/
def threadStart (t : ThreadState) (obs : Observation) : ThreadState where
  buffer := some { entry := obs.entry, lastTs := obs.ts }
  state :=
    match obs.entry.kind, t.state with
    | .resume, some state => some state
    | _, _ => some (newState obs.threadId obs.entry obs.ts)

/-- `endEntry` of one thread. -/
def threadEnd (state : Option SessionState) (buf : EntryBuffer) (obs : Observation) :
    ThreadState × List SessionRecord :=
  let state := state.getD (newState obs.threadId buf.entry buf.lastTs)
  match foldEntry R state buf with
  | .error _ => ({ state := some state }, [])
  | .ok state =>
      ({ state := if (terminalSignals R buf.events).terminal then none else some state },
        [finalizeSession R state])

/-- `openEntry` of one thread. -/
def threadOpen (t : ThreadState) (obs : Observation) : ThreadState :=
  if obs.entryStarted ∨ t.buffer = none then threadStart t obs else t

/-- `processOpened` of one thread. -/
def threadOpened (t : ThreadState) (buf : EntryBuffer) (obs : Observation) :
    ThreadState × List SessionRecord :=
  match obs.eventName with
  | some name =>
      match recordEvent R obs name buf with
      | .error _ => (t, [])
      | .ok buf =>
          if obs.entryEnded then threadEnd R t.state buf obs else ({ t with buffer := some buf }, [])
  | none => if obs.entryEnded then threadEnd R t.state buf obs else (t, [])

/-- `process` of one thread. -/
def threadStep (t : ThreadState) (obs : Observation) : ThreadState × List SessionRecord :=
  let t := threadOpen t obs
  match t.buffer with
  | none => (t, [])
  | some buf => threadOpened R t buf obs

variable {R} {w : Writer} {obs : Observation}

theorem threadState_startEntry (threadId : String) (w : Writer) (obs : Observation) :
    threadState threadId (startEntry w obs) =
      if threadId = obs.threadId then threadStart (threadState threadId w) obs
      else threadState threadId w := by
  by_cases hid : threadId = obs.threadId
  · subst hid
    rw [if_pos rfl, threadState, threadStart, threadState, startEntry, Bank.get_set, if_pos rfl]
    cases hkind : obs.entry.kind with
    | run => simp [Bank.get_set]
    | resume =>
        cases hstate : w.states.get obs.threadId with
        | none => simp [Bank.get_set]
        | some state => simp [hstate]
  · rw [if_neg hid, threadState, threadState, startEntry, Bank.get_set, if_neg hid]
    cases hkind : obs.entry.kind with
    | run => simp [Bank.get_set, hid]
    | resume =>
        cases hstate : w.states.get obs.threadId with
        | none => simp [Bank.get_set, hid]
        | some state => simp

theorem threadState_openEntry (threadId : String) (w : Writer) (obs : Observation) :
    threadState threadId (openEntry w obs) =
      if threadId = obs.threadId then threadOpen (threadState threadId w) obs
      else threadState threadId w := by
  rw [openEntry, threadOpen]
  by_cases hstart : obs.entryStarted = true ∨ w.buffers.get obs.threadId = none
  · rw [if_pos hstart, threadState_startEntry]
    by_cases hid : threadId = obs.threadId
    · subst hid
      rw [if_pos rfl, if_pos rfl, if_pos (by exact hstart)]
    · rw [if_neg hid, if_neg hid]
  · rw [if_neg hstart]
    by_cases hid : threadId = obs.threadId
    · subst hid
      rw [if_pos rfl, if_neg (by exact hstart)]
    · rw [if_neg hid]

theorem threadState_setBuffer (threadId : String) (w : Writer) (obs : Observation)
    (buf : EntryBuffer) :
    threadState threadId { w with buffers := w.buffers.set obs.threadId buf } =
      if threadId = obs.threadId then { threadState threadId w with buffer := some buf }
      else threadState threadId w := by
  by_cases hid : threadId = obs.threadId
  · simp [threadState, Bank.get_set, hid]
  · simp [threadState, Bank.get_set, hid]

/-- `t` and `out` are what the writer holds of the observed thread after a call, and what the call
has saved; the other threads are left alone. -/
structure MovesTo (w : Writer) (obs : Observation) (r : Writer × List SessionRecord)
    (t : ThreadState × List SessionRecord) : Prop where
  own : threadState obs.threadId r.1 = t.1
  out : r.2 = t.2
  other : ∀ threadId, threadId ≠ obs.threadId → threadState threadId r.1 = threadState threadId w

theorem endEntry_movesTo {buf : EntryBuffer} (hbuf : w.buffers.get obs.threadId = some buf) :
    MovesTo w obs (endEntry R w obs) (threadEnd R (threadState obs.threadId w).state buf obs) := by
  rw [endEntry, hbuf, threadEnd, threadState]
  dsimp only
  cases hfold : foldEntry R ((w.states.get obs.threadId).getD
      (newState obs.threadId buf.entry buf.lastTs)) buf with
  | error e =>
      refine ⟨?_, rfl, fun threadId hid => ?_⟩
      · simp [threadState, Bank.get_set, Bank.get_erase]
      · simp [threadState, Bank.get_set, Bank.get_erase, hid]
  | ok state =>
      dsimp only
      by_cases hterm : (terminalSignals R buf.events).terminal = true
      · rw [if_pos hterm, if_pos hterm]
        refine ⟨?_, rfl, fun threadId hid => ?_⟩
        · simp [threadState, Bank.get_erase]
        · simp [threadState, Bank.get_erase, hid]
      · rw [if_neg hterm, if_neg hterm]
        refine ⟨?_, rfl, fun threadId hid => ?_⟩
        · simp [threadState, Bank.get_set, Bank.get_erase]
        · simp [threadState, Bank.get_set, Bank.get_erase, hid]

theorem processOpened_movesTo {buf : EntryBuffer} (hbuf : w.buffers.get obs.threadId = some buf) :
    MovesTo w obs (processOpened R w buf obs)
      (threadOpened R (threadState obs.threadId w) buf obs) := by
  rw [processOpened, threadOpened]
  cases hname : obs.eventName with
  | none =>
      dsimp only
      split
      · exact endEntry_movesTo hbuf
      · exact ⟨rfl, rfl, fun _ _ => rfl⟩
  | some name =>
      dsimp only
      cases hrecord : recordEvent R obs name buf with
      | error e => exact ⟨rfl, rfl, fun _ _ => rfl⟩
      | ok buf' =>
          have hset := fun threadId => threadState_setBuffer threadId w obs buf'
          dsimp only
          split
          · have hbuf' : ({ w with buffers := w.buffers.set obs.threadId buf' } : Writer).buffers.get
                obs.threadId = some buf' := by
              rw [Bank.get_set, if_pos rfl]
            obtain ⟨hown, hout, hother⟩ := endEntry_movesTo (R := R) hbuf'
            refine ⟨hown, hout, fun threadId hid => (hother threadId hid).trans ?_⟩
            rw [hset, if_neg hid]
          · exact ⟨by rw [hset, if_pos rfl], rfl, fun threadId hid => by rw [hset, if_neg hid]⟩

/-- **One observation** moves its thread, and no other. -/
theorem process_projection :
    Projection (process R) Observation.threadId threadState (threadStep R) := by
  have hspec : ∀ (w : Writer) (obs : Observation),
      MovesTo w obs (process R w obs) (threadStep R (threadState obs.threadId w) obs) := by
    intro w obs
    have hopen := fun threadId => threadState_openEntry threadId w obs
    have hown := hopen obs.threadId
    rw [if_pos rfl] at hown
    rw [process, threadStep, ← hown]
    cases hbuf : (openEntry w obs).buffers.get obs.threadId with
    | none =>
        rw [show (threadState obs.threadId (openEntry w obs)).buffer = none from hbuf]
        exact ⟨rfl, rfl, fun threadId hid => by rw [hopen, if_neg hid]⟩
    | some buf =>
        rw [show (threadState obs.threadId (openEntry w obs)).buffer = some buf from hbuf]
        obtain ⟨hown, hout, hother⟩ := processOpened_movesTo (R := R) hbuf
        refine ⟨hown, hout, fun threadId hid => (hother threadId hid).trans ?_⟩
        rw [hopen, if_neg hid]
  exact ⟨fun w obs => (hspec w obs).own, fun w obs => (hspec w obs).out,
    fun w obs k hk => (hspec w obs).other k hk⟩

end

end AiTrader.Telemetry
