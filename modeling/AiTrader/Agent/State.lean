import AiTrader.Agent.Messages
import AiTrader.Watch.Tool

/-! # The agent's state and the bounded hunt

`AgentState` is the checkpointed state of one thread.  The predicates of the bounded hunt read
its counters: the watch cap, the session budget, the re-arm gate after an invalidation and the
heartbeat account. -/

namespace AiTrader.Agent

open Text

/-! ### Configuration -/

/-- The part of `OpportunityConfig` that the graph reads. -/
structure OpportunityConfig where
  watchCap : ℕ
  sessionMaxTurns : ℕ
  sessionMaxWallSecs : ℚ
  heartbeatMax : ℕ
  watchCap_pos : 1 ≤ watchCap
  sessionMaxTurns_pos : 1 ≤ sessionMaxTurns
  sessionMaxWallSecs_pos : 0 < sessionMaxWallSecs

/-- `_resolve_int`, for a default and a lower bound that are not negative. -/
def resolveInt (h : Host) (raw : Option String) (default low : ℕ) : ℕ :=
  match raw.bind (fun r => if strip r = "" then none else h.parseInt (strip r)) with
  | some value => if value < low then default else value.toNat
  | none => default

/-- `_resolve_float` with the band from zero to infinity, both ends reverted to the default. -/
def resolveSecs (h : Host) (raw : Option String) (default : ℚ) : ℚ :=
  match raw.bind (fun r => if strip r = "" then none else h.parseFloat (strip r)) with
  | some (.fin value) => if value ≤ 0 then default else value
  | _ => default

theorem resolveInt_ge (h : Host) (raw : Option String) {default low : ℕ} (hd : low ≤ default) :
    low ≤ resolveInt h raw default low := by
  unfold resolveInt
  split
  · split
    · exact hd
    · omega
  · exact hd

theorem resolveSecs_pos (h : Host) (raw : Option String) {default : ℚ} (hd : 0 < default) :
    0 < resolveSecs h raw default := by
  unfold resolveSecs
  split
  · split
    · exact hd
    · rename_i hv
      exact not_le.mp hv
  · exact hd

/-- `resolve_opportunity_config`, from the environment. -/
def resolveOpportunityConfig (h : Host) (getenv : String → Option String) :
    OpportunityConfig where
  watchCap := resolveInt h (getenv "OPPORTUNITY_WATCH_CAP") 3 1
  sessionMaxTurns := resolveInt h (getenv "OPPORTUNITY_SESSION_MAX_TURNS") 40 1
  sessionMaxWallSecs := resolveSecs h (getenv "OPPORTUNITY_SESSION_MAX_WALL_SECS") 3600
  heartbeatMax := resolveInt h (getenv "OPPORTUNITY_HEARTBEAT_MAX") 6 0
  watchCap_pos := resolveInt_ge h _ (by omega)
  sessionMaxTurns_pos := resolveInt_ge h _ (by omega)
  sessionMaxWallSecs_pos := resolveSecs_pos h _ (by decide +kernel)

/-- `resolve_max_reasoning_turns`. -/
def resolveMaxReasoningTurns (h : Host) (getenv : String → Option String) : ℕ :=
  resolveInt h (getenv "DEEP_QUANT_MAX_REASONING_TURNS") 6 1

/-! ### Watch theses -/

/-- The two canonical directions. -/
inductive Side where
  | above | below
deriving DecidableEq, Repr

/-- A thesis fingerprint. -/
structure Thesis where
  symbol : Option String
  timeframe : Option String
  direction : Option Side
  level : Option ℚ
deriving DecidableEq, Repr

/-- `_normalize_direction`. -/
def normalizeDirection (h : Host) : PyVal → Option Side
  | .str s =>
      let token := h.casing.lower (strip s)
      if token ∈ ["above", "up", "long", "buy"] then some .above
      else if token ∈ ["below", "down", "short", "sell"] then some .below
      else none
  | _ => none

/-- A string field that is not blank. -/
def nonBlank : PyVal → Option String
  | .str s => if strip s = "" then none else some (strip s)
  | _ => none

/-- `thesis_fingerprint`. -/
def thesisFingerprint (h : Host) (args : Kwargs) : Thesis :=
  let levelRaw := match args.get "price_level" with
    | .none => args.get "level"
    | v => v
  { symbol := (nonBlank (args.get "symbol")).map h.casing.upper
    timeframe := (nonBlank (args.get "timeframe")).map h.casing.lower
    direction := normalizeDirection h (args.get "direction")
    level := (h.finite levelRaw).map h.round4 }

def Side.text : Side → String
  | .above => "above"
  | .below => "below"

/-- The fingerprint as the dictionary it is stored as. -/
def Thesis.toArgs (t : Thesis) : Kwargs :=
  let text (o : Option String) : PyVal := (o.map PyVal.str).getD .none
  [("symbol", text t.symbol), ("timeframe", text t.timeframe),
    ("direction", text (t.direction.map Side.text)),
    ("level", (t.level.map (fun q => PyVal.float (.fin q))).getD .none)]

/-- `is_rearm_unchanged`. -/
def isRearmUnchanged (h : Host) (prior proposed : Kwargs) (atr : Option ℚ) : Bool :=
  let fpPrior := thesisFingerprint h prior
  let fpProp := thesisFingerprint h proposed
  match fpPrior.level, fpProp.level, atr with
  | some level, some level', some atr =>
      fpPrior.symbol.isSome && fpPrior.timeframe.isSome && fpPrior.direction.isSome &&
        fpProp.symbol.isSome && fpProp.timeframe.isSome && fpProp.direction.isSome &&
        decide (fpPrior.symbol = fpProp.symbol) && decide (fpPrior.timeframe = fpProp.timeframe) &&
        decide (fpPrior.direction = fpProp.direction) && decide (0 < atr) &&
        F64.le (h.rnd |level - level'|) (h.rnd (atr / 2))
  | _, _, _ => false

/-- `volatility_floored_invalidation`. -/
def volatilityFlooredInvalidation (h : Host) (direction refPrice proposedInv : PyVal)
    (atr : Option ℚ) : Option F64 :=
  match normalizeDirection h direction, h.finite refPrice, atr with
  | some side, some ref, some atr =>
      if 0 < atr then
        match side with
        | .above =>
            let floored := h.rnd (ref - atr)
            match h.finite proposedInv with
            | some inv => if F64.le (.fin inv) floored then some (.fin inv) else some floored
            | none => some floored
        | .below =>
            let floored := h.rnd (ref + atr)
            match h.finite proposedInv with
            | some inv => if F64.le floored (.fin inv) then some (.fin inv) else some floored
            | none => some floored
      else none
  | _, _, _ => none

/-! ### The committed decision -/

/-- Execution levels. -/
structure Levels where
  entry : Option F64
  stopLoss : Option F64
  takeProfit : Option F64
deriving DecidableEq, Repr

/-- A defensibility record: the action and levels it resolved, the degraded-data note and the
remaining entries. -/
structure Defensibility where
  action : Option String
  levels : Option Levels
  dataDegradedNote : Option String
  entries : String
deriving DecidableEq, Repr

structure Decision where
  action : String
  convictionScore : PyVal
  reason : Option String := none
  setupValidation : PyVal
  executionPlan : PyVal
  entry : Option F64 := none
  stopLoss : Option F64 := none
  takeProfit : Option F64 := none
  atr14 : Option F64 := none
  managementPlan : PyVal := .none
  source : String
  opportunityTier : Option String := none
  bestCurrentRead : PyVal := .none
  dataDegraded : Bool := false
  defensibility : Option Defensibility := none

/-! ### State -/

inductive Phase where
  | research | debate
deriving DecidableEq, Repr

/-- A role's parsed stance. -/
structure Stance where
  role : String
  lean : String
  strength : ℕ
  arguments : List String
  biggestRisk : String
  available : Bool
deriving DecidableEq, Repr

/-- The checkpointed state of a thread. -/
structure AgentState where
  messages : List Message := []
  mode : Option String := none
  symbol : Option String := none
  timeframe : Option String := none
  profile : Option String := none
  manualTrade : Option Kwargs := none
  decision : Option Decision := none
  reasoningTurns : ℕ := 0
  marketDataSeen : Bool := false
  qaTurns : ℕ := 0
  verifyDevilsAdvocateDone : Bool := false
  phase : Option Phase := none
  debateTurns : ℕ := 0
  debateRound : ℕ := 0
  bullStance : Option Stance := none
  bearStance : Option Stance := none
  watchCycles : ℕ := 0
  sessionTurns : ℕ := 0
  sessionStartedAt : Option ℚ := none
  invalidationCount : ℕ := 0
  postmortemPending : Bool := false
  priorThesis : Option Thesis := none
  heartbeatCount : ℕ := 0
  lastResumeKind : Option Watch.ResumeKind := none

/-- `(mode or "").strip().upper()`. -/
def AgentState.modeKey (h : Host) (s : AgentState) : String :=
  h.casing.upper (strip (s.mode.getD ""))

/-! ### The bounds of a session -/

section
variable (h : Host) (cfg : OpportunityConfig) (s : AgentState)

/-- `watch_cap_reached`. -/
def watchCapReached : Bool := decide (cfg.watchCap ≤ s.watchCycles)

/-- `session_budget_exhausted`. -/
def sessionBudgetExhausted (now : ℚ) : Bool :=
  if cfg.sessionMaxTurns ≤ s.sessionTurns then true
  else match s.sessionStartedAt with
    | none => false
    | some startedAt => F64.le (.fin cfg.sessionMaxWallSecs) (h.rnd (now - startedAt))

/-- `termination_reason`: the watch cap comes first. -/
def terminationReason (now : ℚ) : Option String :=
  if watchCapReached cfg s then some "watch-cap-reached"
  else if sessionBudgetExhausted h cfg s now then some "session-budget-exhausted"
  else none

/-- What `account_heartbeat` returns. -/
structure HeartbeatAccounting where
  accepted : Bool
  heartbeatCount : ℕ
  sessionTurns : ℕ

/-- `account_heartbeat`. -/
def accountHeartbeat : HeartbeatAccounting :=
  if cfg.heartbeatMax ≤ s.heartbeatCount then
    ⟨false, min s.heartbeatCount cfg.heartbeatMax, s.sessionTurns⟩
  else ⟨true, s.heartbeatCount + 1, s.sessionTurns + 1⟩

end

variable {h : Host} {cfg : OpportunityConfig} {s : AgentState} {now : ℚ}

theorem accountHeartbeat_turns : (accountHeartbeat cfg s).sessionTurns =
    s.sessionTurns + if s.heartbeatCount < cfg.heartbeatMax then 1 else 0 := by
  unfold accountHeartbeat
  split
  · rw [if_neg (by omega)]
    rfl
  · rw [if_pos (by omega)]

theorem sessionBudgetExhausted_of_turns (ht : cfg.sessionMaxTurns ≤ s.sessionTurns) :
    sessionBudgetExhausted h cfg s now = true := by
  rw [sessionBudgetExhausted, if_pos ht]

theorem turns_lt_of_not_exhausted (hb : sessionBudgetExhausted h cfg s now = false) :
    s.sessionTurns < cfg.sessionMaxTurns := by
  by_contra hge
  rw [sessionBudgetExhausted_of_turns (by omega)] at hb
  cases hb

end AiTrader.Agent
