import AiTrader.PyJson
import AiTrader.Telemetry.Core
import Mathlib.Data.List.Sort
import Mathlib.Data.Prod.Lex
import Mathlib.Data.String.Basic

/-! # Session telemetry: the store

`telemetry.py`, `save` and `load_sessions`: a session is a row of `sessions`, with its per-tool
counts and its bag as JSON texts, and a row of `funnel_events` for every event of its funnel.

The tags of an outcome, of a hold reason and of an event are kept as they are; how the interpreter
writes a number is `NumSyntax PyNum`. -/

namespace AiTrader.Telemetry

open Json PyJson

/-- `sessions`. -/
structure SessionRow where
  sessionId : String
  threadId : String
  symbol : Option String
  timeframe : Option String
  mode : Option String
  startedAt : ℚ
  endedAt : Option ℚ
  outcome : Option SessionOutcome
  holdReason : Option HoldReason
  watchCycles : ℕ
  targetEvents : ℕ
  invalidationEvents : ℕ
  resumeCount : ℕ
  reasoningTurns : ℕ
  toolCallsTotal : ℕ
  toolCallsByName : Option String
  modelTurns : ℕ
  tokens : Option ℤ
  timeToDecisionS : Option ℚ
  suspendedS : Option ℚ
  opportunityTier : Option String
  sessionBudget : Option ℚ
  extra : Option String

/-- `funnel_events`, without its `id`. -/
structure FunnelRow where
  sessionId : String
  seq : ℕ
  kind : FunnelKind
  ts : Option ℚ
  triggerKind : Option TriggerKind
  toolName : Option String
  extra : Option String

structure Store where
  sessions : Table SessionRow.sessionId := .empty
  funnelEvents : List FunnelRow := []

section
variable (N : NumSyntax PyNum)

/-! ### JSON cells -/

/-- `_json_dumps_or_none`. -/
def jsonDumpsOrNone (value : Option PyVal) : Option String := value.map (dumps .asciiSpaced N)

/-- `_json_loads_or_none`. -/
def jsonLoadsOrNone (text : Option String) : Option PyVal :=
  text.bind fun text => if Text.strip text = "" then none else loads N text

/-- `tool_calls_by_name` as a dictionary. -/
def ToolCounts.toDict (counts : ToolCounts) : Kwargs :=
  counts.rows.map fun row => (row.1, .int row.2)

/-- A dictionary of counts. -/
def ToolCounts.ofDict (d : Kwargs) : ToolCounts :=
  d.foldl (fun counts kv =>
    match kv.2 with
    | .int z => counts.replace (kv.1, z.toNat)
    | _ => counts) .empty

/-- `_decoded_tool_calls_by_name`. -/
def decodedToolCallsByName (text : Option String) : ToolCounts :=
  match jsonLoadsOrNone N text with
  | some (.dict d) => .ofDict d
  | _ => .empty

/-- An `extra` cell.  What is written there is an object or `NULL`. -/
def decodedExtra (text : Option String) : Option Kwargs :=
  match jsonLoadsOrNone N text with
  | some (.dict d) => some d
  | _ => none

/-! ### Saving -/

/-- What SQLite takes for an integer. -/
def fitsInteger (z : ℤ) : Bool := decide (-2 ^ 63 ≤ z ∧ z < 2 ^ 63)

/-- No integer of the record is too large for its column. -/
def SessionRecord.storable (record : SessionRecord) : Bool :=
  ([record.watchCycles, record.targetEvents, record.invalidationEvents, record.resumeCount,
      record.reasoningTurns, record.toolCallsTotal, record.modelTurns].all fun n => fitsInteger n) &&
    record.tokens.all fitsInteger && record.funnel.all fun event => fitsInteger event.seq

/-- `session_values`. -/
def sessionValues (record : SessionRecord) : SessionRow where
  sessionId := record.sessionId
  threadId := record.threadId
  symbol := record.symbol
  timeframe := record.timeframe
  mode := record.mode
  startedAt := record.startedAt
  endedAt := record.endedAt
  outcome := record.outcome
  holdReason := record.holdReason
  watchCycles := record.watchCycles
  targetEvents := record.targetEvents
  invalidationEvents := record.invalidationEvents
  resumeCount := record.resumeCount
  reasoningTurns := record.reasoningTurns
  toolCallsTotal := record.toolCallsTotal
  toolCallsByName := jsonDumpsOrNone N (some (.dict record.toolCallsByName.toDict))
  modelTurns := record.modelTurns
  tokens := record.tokens
  timeToDecisionS := record.timeToDecisionS
  suspendedS := record.suspendedS
  opportunityTier := record.opportunityTier
  sessionBudget := record.sessionBudget
  extra := jsonDumpsOrNone N (record.extra.map .dict)

/-- The row of an event. -/
def funnelValues (sessionId : String) (event : FunnelEvent) : FunnelRow where
  sessionId := sessionId
  seq := event.seq
  kind := event.kind
  ts := event.ts
  triggerKind := event.triggerKind
  toolName := event.toolName
  extra := jsonDumpsOrNone N (event.extra.map .dict)

/-- `save`.  An integer that does not fit raises, and nothing is committed. -/
def save (store : Store) (record : SessionRecord) : Store :=
  if record.storable then
    { sessions := store.sessions.replace (sessionValues N record)
      funnelEvents :=
        store.funnelEvents.filter (fun row => decide (row.sessionId ≠ record.sessionId)) ++
          record.funnel.map (funnelValues N record.sessionId) }
  else store

/-! ### Loading -/

/-- The filters of `load_sessions`. -/
structure Filter where
  symbol : Option String := none
  timeframe : Option String := none
  mode : Option String := none
  start : Option F64 := none
  stop : Option F64 := none

/-- The `WHERE` clause, over the columns it reads. -/
def Filter.admits (filter : Filter) (symbol timeframe mode : Option String) (startedAt : ℚ) : Bool :=
  (filter.symbol.all fun wanted => decide (symbol = some wanted)) &&
  (filter.timeframe.all fun wanted => decide (timeframe = some wanted)) &&
  (filter.mode.all fun wanted => decide (mode = some wanted)) &&
  (filter.start.all fun start => start.le (.fin startedAt)) &&
  filter.stop.all fun stop => F64.le (.fin startedAt) stop

/-- `_load_funnel`. -/
def loadFunnel (store : Store) (sessionId : String) : List FunnelEvent :=
  ((store.funnelEvents.filter fun row => decide (row.sessionId = sessionId)).insertionSort
    fun a b => a.seq ≤ b.seq).map fun row =>
      { seq := row.seq, kind := row.kind, ts := row.ts, triggerKind := row.triggerKind
        toolName := row.toolName, extra := decodedExtra N row.extra }

/-- The record made of a row.  Tier, budget and bag are left at their defaults. -/
def sessionOfRow (store : Store) (row : SessionRow) : SessionRecord where
  sessionId := row.sessionId
  threadId := row.threadId
  symbol := row.symbol
  timeframe := row.timeframe
  mode := row.mode
  startedAt := row.startedAt
  endedAt := row.endedAt
  outcome := row.outcome
  holdReason := row.holdReason
  watchCycles := row.watchCycles
  targetEvents := row.targetEvents
  invalidationEvents := row.invalidationEvents
  resumeCount := row.resumeCount
  reasoningTurns := row.reasoningTurns
  toolCallsTotal := row.toolCallsTotal
  toolCallsByName := decodedToolCallsByName N row.toolCallsByName
  modelTurns := row.modelTurns
  tokens := row.tokens
  timeToDecisionS := row.timeToDecisionS
  suspendedS := row.suspendedS
  funnel := loadFunnel N store row.sessionId

/-- `ORDER BY started_at ASC, session_id ASC`. -/
def SessionRow.sortKey (row : SessionRow) : ℚ ×ₗ String := toLex (row.startedAt, row.sessionId)

/-- `load_sessions`. -/
def loadSessions (store : Store) (filter : Filter) : List SessionRecord :=
  ((store.sessions.rows.filter fun row =>
      filter.admits row.symbol row.timeframe row.mode row.startedAt).insertionSort
    fun a b => a.sortKey ≤ b.sortKey).map (sessionOfRow N store)

end

end AiTrader.Telemetry
