import AiTrader.Agent.State

/-! # Committing a decision

A decision is rebuilt from the raw arguments of a `declare_trade` call and committed at one
chokepoint, `_finalize_decision`: it attaches the defensibility record and appends the
recommendation.  Both writes are guarded by thread, so what is written is the first decision
finalized for a thread.

`finalizeDecision_sameTrade`: finalizing changes neither the action nor the levels. -/

namespace AiTrader.Agent

open Text

/-- What the graph takes as given: its configuration, the texts that only the model reads, the
evidence readings that fill a record, and the opt-in weight map. -/
structure Env where
  host : Host
  cfg : OpportunityConfig
  maxReasoningTurns : ℕ
  /-- `format_system_prompt` -/
  systemPrompt : AgentState → String
  /-- `prune_messages`, then `compact_tool_payloads` -/
  prune : List Message → List Message
  /-- the tier and the interim read of a decision, `none` when the evaluation fails -/
  tierOf : AgentState → Decision → Option (String × PyVal)
  /-- `_parse_levels_from_text` of the plan and the validation prose -/
  proseLevels : PyVal → PyVal → Option Levels
  /-- the entries of a defensibility record other than its action, levels and data note -/
  recordEntries : AgentState → Decision → String
  /-- `_apply_weight_map_to_conviction`, when it is enabled -/
  weightedConviction : Option String → Decision → Option PyVal
  /-- the stance read off a role's answer, `none` for a failed invocation -/
  stanceOf : String → Option String → Stance
  /-- `classify_consensus` and `derive_conviction` of the two stances -/
  synthesis : Option Stance → Option Stance → String × ℕ
  /-- `build_refusal` of the question's personalisation hit, if there is one -/
  personalisationRefusal : String → Option String

/-! ### The decision behind a declaration -/

/-- `_declare_is_directional`. -/
def declareIsDirectional (h : Host) (args : Kwargs) : Bool :=
  match args.get "action" with
  | .str s => decide (h.casing.upper (strip s) ∈ ["BUY", "SELL"])
  | _ => false

/-- `_normalize_action`. -/
def normalizeAction (h : Host) (v : PyVal) : Option String :=
  if v.truthy then
    let n := h.casing.upper (strip (h.str v))
    if n ∈ ["BUY", "LONG"] then some "BUY"
    else if n ∈ ["SELL", "SHORT"] then some "SELL"
    else some n
  else none

/-- A value kept only if it is finite. -/
def finiteOnly (x : Option F64) : Option F64 := x.filter F64.isFinite

/-- `_coerce_price`.  An integer beyond the range of a double, for which `float` raises, has no
reading here. -/
def coercePrice (h : Host) : PyVal → Option F64
  | .int z => finiteOnly (some (h.rnd z))
  | .float x => finiteOnly (some x)
  | .str s => finiteOnly (h.parseFloat (strip s))
  | _ => none

/-- The decision that `_decision_from_declare` reads off the arguments of one call. -/
def declaredDecision (h : Host) (args : Kwargs) : Decision where
  action := match normalizeAction h (args.get "action") with
    | some n => if n = "" then "HOLD" else n
    | none => "HOLD"
  convictionScore := args.get "conviction_score"
  setupValidation := args.get "setup_validation"
  executionPlan := args.get "execution_plan"
  entry := coercePrice h (args.get "entry")
  stopLoss := coercePrice h (args.get "stop_loss")
  takeProfit := coercePrice h (args.get "take_profit")
  atr14 := coercePrice h (args.get "atr_14")
  managementPlan := args.get "management_plan"
  source := "declare_trade"

def isDeclare (tc : ToolCall) : Bool := decide (tc.name = "declare_trade")

def isWatch (tc : ToolCall) : Bool := decide (tc.name = "watch_price_condition")

/-- `_decision_from_declare`: the first declaration counts. -/
def decisionFromDeclare (h : Host) (okCalls : List ToolCall) : Option Decision :=
  (okCalls.find? isDeclare).map fun tc => declaredDecision h tc.args

/-- `_declare_was_rejected`. -/
def declareWasRejected (messages : List Message) : Bool :=
  messages.any fun m => match m with
    | .tool content _ name => decide (name = "declare_trade") && contains content "TRADE_REJECTED"
    | _ => false

/-! ### The defensibility record -/

/-- The levels found, or `None` when there is none. -/
def levelsOrNone (l : Levels) : Option Levels :=
  if l.entry.isNone && l.stopLoss.isNone && l.takeProfit.isNone then none else some l

/-- `_resolve_action_and_levels`: in VERIFY mode the trader's own trade, else the decision's
structured levels when all three are there, else the levels found in the prose. -/
def resolveActionAndLevels (env : Env) (d : Decision) (mode : String)
    (manualTrade : Option Kwargs) : Option String × Option Levels :=
  let own := (normalizeAction env.host (.str d.action),
    if (finiteOnly d.entry).isSome && (finiteOnly d.stopLoss).isSome &&
        (finiteOnly d.takeProfit).isSome
    then some ⟨d.entry, d.stopLoss, d.takeProfit⟩
    else env.proseLevels d.executionPlan d.setupValidation)
  match manualTrade with
  | some (kv :: kvs) =>
      if mode = "VERIFY" then
        let trade : Kwargs := kv :: kvs
        let level (k : String) := (env.host.finite (trade.get k)).map F64.fin
        (normalizeAction env.host (trade.get "side"),
          levelsOrNone ⟨level "entry", level "stop_loss", level "take_profit"⟩)
      else own
  | _ => own

/-- `build_defensibility_record`. -/
def buildDefensibilityRecord (env : Env) (s : AgentState) (d : Decision) : Defensibility :=
  let (action, levels) :=
    resolveActionAndLevels env d (env.host.casing.upper (s.mode.getD "FIND")) s.manualTrade
  { action, levels, dataDegradedNote := none, entries := env.recordEntries s d }

/-- The label of a decision reached while core tools are unresolved. -/
def degradedNote (h : Host) (messages : List Message) : String :=
  "decision reached on degraded data (core tools unresolved: " ++
    String.intercalate ", " (unresolvedCoreTools h messages) ++ ")"

/-! ### The stores behind the chokepoint -/

/-- A row of the recommendation store. -/
structure Recommendation where
  threadId : Option String
  symbol : Option String
  timeframe : Option String
  mode : Option String
  profile : Option String
  action : String
  entry : Option F64
  stopLoss : Option F64
  takeProfit : Option F64
  conviction : PyVal
  rationale : Defensibility

/-- What one process shares between its threads: `_COMMITTED_THREAD_RECORDS` and the
recommendation store. -/
structure Process where
  committedThreadRecords : List (String × Defensibility) := []
  recommendations : List Recommendation := []

/-- The key under which a thread's row is stored. -/
def storedThreadId (threadId : Option String) : Option String :=
  threadId.bind fun t => if strip t = "" then none else some (strip t)

/-- `reco_store.record`: nothing is written for a thread that has a row. -/
def recordRow (row : Recommendation) (p : Process) : Process :=
  if row.threadId.isSome ∧ ∃ r ∈ p.recommendations, r.threadId = row.threadId then p
  else { p with recommendations := p.recommendations ++ [row] }

/-- `decision[k] if finite else levels.get(k)`. -/
def preferDecision (own fallback : Option F64) : Option F64 :=
  match finiteOnly own with
  | some x => some x
  | none => finiteOnly fallback

/-- The row that `_record_recommendation` appends. -/
def recommendationRow (h : Host) (s : AgentState) (d : Decision) (record : Defensibility)
    (threadId : Option String) : Recommendation :=
  let levels := record.levels.getD ⟨none, none, none⟩
  { threadId := storedThreadId threadId
    symbol := s.symbol, timeframe := s.timeframe, mode := s.mode, profile := s.profile
    action := h.casing.upper (if d.action = "" then "HOLD" else d.action)
    entry := preferDecision d.entry levels.entry
    stopLoss := preferDecision d.stopLoss levels.stopLoss
    takeProfit := preferDecision d.takeProfit levels.takeProfit
    conviction := d.convictionScore
    rationale := record }

theorem recommendationRow_threadId (h : Host) (s : AgentState) (d : Decision)
    (record : Defensibility) (threadId : Option String) :
    (recommendationRow h s d record threadId).threadId = storedThreadId threadId := rfl

/-! ### The chokepoint -/

/-- `_stamp_opportunity_tier`: a stand-aside also carries the interim read. -/
def stampOpportunityTier (env : Env) (s : AgentState) (d : Decision) : Decision :=
  match env.tierOf s d with
  | some (tier, read) => { d with
      opportunityTier := some tier
      bestCurrentRead := if tier = "stand_aside" then read else d.bestCurrentRead }
  | none => d

/-- The record of this decision, with the note that a decision on degraded data carries. -/
def decisionRecord (env : Env) (s : AgentState) (d : Decision) : Defensibility :=
  let record := buildDefensibilityRecord env s d
  if coreAcquisitionResolved env.host s.messages then record
  else { record with dataDegradedNote := some (degradedNote env.host s.messages) }

/-- Attach the record and the label that goes with its note. -/
def attachRecord (env : Env) (s : AgentState) (d : Decision) : Decision :=
  { d with
    dataDegraded := d.dataDegraded || !coreAcquisitionResolved env.host s.messages
    defensibility := some (decisionRecord env s d) }

/-- `_apply_weight_map_to_conviction`. -/
def applyWeightMapToConviction (env : Env) (s : AgentState) (d : Decision) : Decision :=
  { d with convictionScore := (env.weightedConviction s.symbol d).getD d.convictionScore }

/-- What the chokepoint does to a decision before anything is stored. -/
def decorate (env : Env) (s : AgentState) (d : Decision) : Decision :=
  applyWeightMapToConviction env s (attachRecord env s (stampOpportunityTier env s d))

/-- `_finalize_decision`. -/
def finalizeDecision (env : Env) (threadId : Option String) (s : AgentState) (d : Decision)
    (p : Process) : Decision × Process :=
  match threadId.bind (fun t => p.committedThreadRecords.lookup t) with
  | some prior => ({ d with defensibility := some prior }, p)
  | none =>
      let record := decisionRecord env s (stampOpportunityTier env s d)
      let d := decorate env s d
      let p := recordRow (recommendationRow env.host s d record threadId) p
      (d, match threadId with
        | some t => { p with committedThreadRecords := (t, record) :: p.committedThreadRecords }
        | none => p)

section
variable (env : Env) (threadId : Option String) (s : AgentState) (d : Decision) (p : Process)

/-- What the chokepoint leaves alone. -/
structure SameTrade (d d' : Decision) : Prop where
  action : d'.action = d.action
  entry : d'.entry = d.entry
  stopLoss : d'.stopLoss = d.stopLoss
  takeProfit : d'.takeProfit = d.takeProfit
  atr14 : d'.atr14 = d.atr14
  source : d'.source = d.source

theorem stamp_sameTrade : SameTrade d (stampOpportunityTier env s d) := by
  unfold stampOpportunityTier
  split <;> exact ⟨rfl, rfl, rfl, rfl, rfl, rfl⟩

theorem decorate_sameTrade : SameTrade d (decorate env s d) := by
  have h := stamp_sameTrade env s d
  exact ⟨h.action, h.entry, h.stopLoss, h.takeProfit, h.atr14, h.source⟩

theorem decorate_defensibility : (decorate env s d).defensibility =
    some (decisionRecord env s (stampOpportunityTier env s d)) := rfl

/-- Finalizing a decision changes neither its action nor its levels. -/
theorem finalizeDecision_sameTrade : SameTrade d (finalizeDecision env threadId s d p).1 := by
  unfold finalizeDecision
  split
  · exact ⟨rfl, rfl, rfl, rfl, rfl, rfl⟩
  · exact decorate_sameTrade env s d

end

end AiTrader.Agent
