import AiTrader.Library.Fallible
import AiTrader.Telemetry.Records

/-! # Session telemetry: the pure core

`telemetry.py`, `interpret_events` to `finalize_session`: one observed stream is mapped to funnel
events, a decision record to an outcome, and an accumulated session to a record.  An event is its
name and its payload.  What raises is an `Except`. -/

namespace AiTrader.Telemetry

open Text

/-- `WATCH_TOOL_NAME`. -/
def watchToolName : String := "watch_price_condition"

abbrev Event := String × Kwargs

section
variable (R : Runtime)

/-! ### Reading a payload -/

/-- The loop of `_extract_ts`. -/
def extractTsAt (payload : Kwargs) : List String → Except String (Option ℚ)
  | [] => .ok none
  | key :: keys =>
      match payload.get key with
      | .float (.fin q) => .ok (some q)
      | .int z =>
          match R.float z with
          | some q => .ok (some q)
          | none => .error "int too large to convert to float"
      | _ => extractTsAt payload keys

/-- `_extract_ts`. -/
def extractTs (payload : Kwargs) : Except String (Option ℚ) :=
  extractTsAt R payload ["ts", "timestamp", "time"]

/-- `_tool_name_of`. -/
def toolNameOf (payload : Kwargs) : Option String :=
  match payload.get "tool" with
  | .str name => if strip name = "" then none else some (strip name)
  | _ => none

/-- `_normalize_trigger_kind`. -/
def normalizeTriggerKind (triggerKind : Option String) : TriggerKind :=
  match triggerKind with
  | some kind =>
      if R.casing.lower (strip kind) = "invalidation" then .invalidation else .target
  | none => .target

/-- The opening marker of a fragment. -/
def openingMarker (entry : RunEntry) (ts : Option ℚ) : FunnelEvent :=
  match entry.kind with
  | .resume =>
      { seq := 0, kind := .resumed, ts, triggerKind := some (normalizeTriggerKind R entry.triggerKind) }
  | .run => { seq := 0, kind := .sessionStarted, ts }

/-- The funnel event of an observed event, if it has one. -/
def funnelEvent (event : Event) (ts : Option ℚ) : Option FunnelEvent :=
  if event.1 = "REASONING" then some { seq := 0, kind := .reasoningTurn, ts }
  else if event.1 = "TOOL_CALL_START" then
    if toolNameOf event.2 = some watchToolName then
      some { seq := 0, kind := .watchRegistered, ts, toolName := toolNameOf event.2 }
    else some { seq := 0, kind := .toolCall, ts, toolName := toolNameOf event.2 }
  else if event.1 = "DECISION" then some { seq := 0, kind := .decision, ts }
  else if event.1 = "ERROR" then some { seq := 0, kind := .error, ts }
  else none

/-- Positions from `n` on. -/
def renumber : ℕ → List FunnelEvent → List FunnelEvent
  | _, [] => []
  | n, event :: events => { event with seq := n } :: renumber (n + 1) events

/-- `interpret_events`. -/
def interpretEvents (entry : RunEntry) (events : List Event) : Except String (List FunnelEvent) := do
  let stamps ← events.mapM fun event => extractTs R event.2
  let opening := openingMarker R entry (stamps.findSome? id)
  return renumber 0 (opening :: (events.zip stamps).filterMap fun e => funnelEvent e.1 e.2)

/-! ### Outcomes -/

inductive Action
  | buy | sell | hold

/-- `_normalize_action`. -/
def normalizeAction (decision : Kwargs) : Option Action :=
  match decision.get "action" with
  | .str action =>
      let normalized := R.casing.upper (strip action)
      if normalized = "BUY" then some .buy
      else if normalized = "SELL" then some .sell
      else if normalized = "HOLD" then some .hold
      else none
  | _ => none

/-- `value.strip().lower()`, and `""` for what is no string. -/
def lowered : PyVal → String
  | .str s => R.casing.lower (strip s)
  | _ => ""

/-- `decision.get(key) is True`. -/
def isTrue (decision : Kwargs) (key : String) : Bool :=
  match decision.get key with
  | .bool b => b
  | _ => false

def classifyHoldReason (decision : Kwargs) : HoldReason :=
  let source := lowered R (decision.get "source")
  let reason := lowered R (decision.get "reason")
  if isTrue decision "forced" then .forced
  else if source = "forced_hold" ∨ source = "force_hold" ∨ reason = "no-decision-reached" then .forced
  else if contains source "forced" ∨ contains reason "forced" then .forced
  else if isTrue decision "data_gated" ∨ isTrue decision "gated" then .dataGated
  else if reason = "directional-data-unavailable" then .dataGated
  else if contains reason "data" ∧ (contains reason "unavailable" ∨ contains reason "gat") then
    .dataGated
  else .voluntary

/-- `classify_outcome`.  The run's status does not enter. -/
def classifyOutcome (decision : Option Kwargs) (errored : Bool) :
    SessionOutcome × Option HoldReason :=
  if errored then (.error, none)
  else
    match decision.bind (normalizeAction R), decision with
    | some .buy, _ => (.tradeBuy, none)
    | some .sell, _ => (.tradeSell, none)
    | some .hold, some decision => (.hold, some (classifyHoldReason R decision))
    | _, _ => (.incomplete, none)

/-! ### Finalization -/

/-- `_opportunity_extra`.  A session has no heartbeat counter, so the bag never carries one. -/
def opportunityExtra (state : SessionState) : Option Kwargs :=
  match state.opportunityTerminationReason with
  | some reason => if reason = "" then none else some [("termination_reason", .str reason)]
  | none => none

/-- The watch cycles paired with the resumes that ended them, where not negative. -/
def suspendIntervals (state : SessionState) : List ℚ :=
  let resumeTs := (state.funnel.filter fun event => event.kind = .resumed).filterMap FunnelEvent.ts
  ((state.watchStarts.zip resumeTs).map fun p => p.2 - p.1).filter fun interval => 0 ≤ interval

/-- `suspended_s` before it is bounded. -/
def rawSuspended (state : SessionState) : Option ℚ :=
  if suspendIntervals state = [] then state.suspendedS.filter (0 ≤ ·)
  else some (suspendIntervals state).sum

/-- `0 <= suspended_s <= time_to_decision_s`. -/
def boundSuspended (timeToDecision : Option ℚ) (suspended : ℚ) : ℚ :=
  match timeToDecision with
  | some total => if 0 ≤ total ∧ total < max suspended 0 then total else max suspended 0
  | none => max suspended 0

def timeToDecision (state : SessionState) : Option ℚ :=
  state.endedAt.map fun ended => ended - state.startedAt

/-- `finalize_session`. -/
def finalizeSession (state : SessionState) : SessionRecord where
  sessionId := state.threadId ++ ":" ++ R.repr state.startedAt
  threadId := state.threadId
  symbol := state.symbol
  timeframe := state.timeframe
  mode := state.mode
  startedAt := state.startedAt
  endedAt := state.endedAt
  outcome := state.outcome
  holdReason := state.holdReason
  watchCycles := state.watchCycles
  targetEvents := state.targetEvents
  invalidationEvents := state.invalidationEvents
  resumeCount := state.resumeCount
  reasoningTurns := state.reasoningTurns
  toolCallsTotal := state.toolCallsTotal
  toolCallsByName := state.toolCallsByName
  modelTurns := state.modelTurns
  tokens := state.tokens
  timeToDecisionS := timeToDecision state
  suspendedS := (rawSuspended state).map (boundSuspended (timeToDecision state))
  funnel := state.funnel
  opportunityTier := state.opportunityTier
  sessionBudget := none
  extra := opportunityExtra state

end

/-! ### Fragments -/

section
variable {R : Runtime} {entry : RunEntry} {events : List Event} {ts : Option ℚ} {event : Event}

theorem funnelEvent_kind {f : FunnelEvent} (h : funnelEvent event ts = some f) :
    f.kind ≠ .resumed ∧ f.kind ≠ .sessionStarted := by
  unfold funnelEvent at h
  split at h
  · cases h
    simp
  · split at h
    · split at h
      · cases h
        simp
      · cases h
        simp
    · split at h
      · cases h
        simp
      · split at h
        · cases h
          simp
        · cases h

theorem renumber_append (n : ℕ) (xs ys : List FunnelEvent) :
    renumber n (xs ++ ys) = renumber n xs ++ renumber (n + xs.length) ys := by
  induction xs generalizing n with
  | nil => rfl
  | cons x xs ih =>
      rw [List.cons_append, renumber, renumber, ih, List.length_cons, List.cons_append]
      congr 3
      omega

@[simp] theorem length_renumber (n : ℕ) (xs : List FunnelEvent) : (renumber n xs).length = xs.length := by
  induction xs generalizing n with
  | nil => rfl
  | cons x xs ih => rw [renumber, List.length_cons, ih, List.length_cons]

theorem map_seq_renumber (n : ℕ) (xs : List FunnelEvent) :
    (renumber n xs).map FunnelEvent.seq = List.range' n xs.length := by
  induction xs generalizing n with
  | nil => rfl
  | cons x xs ih => rw [renumber, List.map_cons, ih, List.length_cons, List.range'_succ]

theorem countP_renumber {p : FunnelEvent → Bool} (hp : ∀ event n, p { event with seq := n } = p event)
    (n : ℕ) (xs : List FunnelEvent) : (renumber n xs).countP p = xs.countP p := by
  induction xs generalizing n with
  | nil => rfl
  | cons x xs ih => rw [renumber, List.countP_cons, List.countP_cons, ih, hp]

end

end AiTrader.Telemetry
