import AiTrader.Agent.Graph
import AiTrader.QuantCore.Validator

/-! # Validated trades

A `declare_trade` call is read three times: the executor coerces its arguments and runs the
tool, the server parses the action again and validates the levels, and the graph rebuilds the
decision from the raw arguments.  The graph learns of a rejection from a marker in the tool's
text.

* `declareTrade`: the tool with the server behind it.
* `declareTrade_accepted`: a directional trade without the marker has passed the validator.
* `committed_trade_validated_iff`: a committed trade is the one that was validated exactly when
  the three readings of its declaration agree. -/

namespace AiTrader.Agent

open Text QuantCore

/-! ### The tool -/

/-- The arguments of `declare_trade`, coerced to their declared types. -/
structure DeclareArgs where
  action : String
  convictionScore : ℤ
  setupValidation : String
  executionPlan : String
  entry : Option F64
  stopLoss : Option F64
  takeProfit : Option F64
  atr14 : Option F64
  managementPlan : Option Kwargs

/-- How the check of a management plan ends; an error that it raises leaves the tool. -/
inductive PlanGate where
  | passed
  | unparsable
  | rejected (message : String)
  | raised (error : String)

def PlanGate.isRaised : PlanGate → Bool
  | .raised _ => true
  | _ => false

/-- What executes the calls: the coercion of arguments, the check of a management plan against
the profile's minimum, and the way to the server. -/
structure Executor where
  coerce : Kwargs → Option DeclareArgs
  /-- the message for arguments that do not coerce -/
  coercionError : Kwargs → String
  planGate : DeclareArgs → F64 → PlanGate
  /-- the error that the request met, if it met one -/
  transport : DeclareArgs → Option String → Option String

/-- An execution of the tool: its text and the validator's answer, if it was asked. -/
structure ToolRun where
  text : String
  outcome : Option ValidatorOutcome := none

/-- `_is_directional_action`. -/
def isDirectionalAction (h : Host) (action : String) : Bool :=
  decide (h.casing.upper (strip action) ∈ ["BUY", "SELL"])

/-- The profile that the tool reads off its configuration. -/
def toolProfile (profile : Option String) : Option String :=
  profile.bind fun p => if strip p = "" then none else some (strip p)

/-- The tool's reading of the intraday profile. -/
def isIntraday (h : Host) (profile : Option String) : Bool :=
  profile.any fun p => decide (h.casing.upper (strip p) = "INTRADAY")

/-- `validator.min_risk_reward_for_profile`. -/
def toolMinRr (h : Host) (profile : Option String) : F64 :=
  if isIntraday h profile then h.rnd (13 / 10) else h.rnd 2

/-- `min_rr_display`. -/
def minRrDisplay (h : Host) (profile : Option String) : String :=
  if isIntraday h profile then "1:1.3" else "1:2"

/-- The levels that the server validates: all three or none. -/
def levelsOf (entry stopLoss takeProfit : Option F64) : Option ExecutionLevels :=
  match entry, stopLoss, takeProfit with
  | some e, some sl, some tp => some ⟨e, sl, tp⟩
  | _, _, _ => none

/-- `evaluate_declared_trade_with_profile`. -/
def evaluateDeclaredTradeWithProfile (rnd : ℚ → F64) (action : String)
    (entry stopLoss takeProfit atr14 : Option F64) (profile : Option String) : ValidatorOutcome :=
  validateTradeWithMinRr rnd (Action.fromStrLenient action) (levelsOf entry stopLoss takeProfit)
    atr14 (minRiskRewardForProfile rnd profile)

/-- A text that rejects the declaration. -/
def rejection (text : String) : String := "TRADE_REJECTED: " ++ text

def planUnparsableText (action : String) : String :=
  rejection ("the " ++ action ++ " management_plan could not be parsed into a " ++
    "valid multi-leg plan. Provide `legs` as a list of " ++
    "\x7b\"target\": float, \"fraction\": float\x7d entries (and optional " ++
    "`breakeven`/`trailing`), then call declare_trade again.")

def planRejectedText (action message minRr : String) : String :=
  rejection ("the Trade_Validator rejected this " ++ action ++ " management plan " ++
    "because '" ++ message ++ "'. Revise the management plan (leg fractions in " ++
    "(0.0, 1.0] summing to <= 1.0, scale-out targets ordered on the profit side, " ++
    "breakeven strictly between entry and the first target, and the blended " ++
    "Risk:Reward at/above the " ++ minRr ++ " minimum for this profile), then " ++
    "call declare_trade again.")

def tradeRejectedText (action reason minRr : String) : String :=
  rejection ("the Trade_Validator rejected this " ++ action ++ " because " ++
    "'" ++ reason ++ "'. Revise the entry/stop_loss/take_profit so Risk:Reward " ++
    ">= " ++ minRr ++ " (the minimum for this profile) and the stop is " ++
    ">= 1.5x ATR, then call declare_trade again.")

def unreachableText (action error : String) : String :=
  rejection ("the authoritative Trade_Validator could not be reached " ++
    "(" ++ error ++ "), so this " ++ action ++ " was NOT validated or committed. " ++
    "This is an infrastructure fault, NOT a problem with your levels — " ++
    "re-declaring the same or revised levels will fail the same way. " ++
    "Report the setup as unvalidated and stand aside.")

def successText (action : String) (convictionScore : ℤ) : String :=
  "Trade declared successfully: " ++ action ++ " with " ++ toString convictionScore ++
    "% conviction."

/-- The request to the server and what the tool makes of its answer. -/
def postDeclaration (h : Host) (x : Executor) (profile : Option String) (a : DeclareArgs) :
    ToolRun :=
  match x.transport a profile with
  | some error =>
      { text := if isDirectionalAction h a.action then unreachableText a.action error
          else successText a.action a.convictionScore }
  | none =>
      let outcome := evaluateDeclaredTradeWithProfile h.rnd a.action a.entry a.stopLoss
        a.takeProfit a.atr14 profile
      { text := match outcome with
          | .fail reason => tradeRejectedText a.action reason.asTag (minRrDisplay h profile)
          | .pass _ => successText a.action a.convictionScore
        outcome := some outcome }

/-- `declare_trade`. -/
def declareTrade (h : Host) (x : Executor) (profile : Option String) (a : DeclareArgs) :
    ToolRun :=
  let profile := toolProfile profile
  match a.managementPlan.map fun _ => x.planGate a (toolMinRr h profile) with
  | some .unparsable => { text := planUnparsableText a.action }
  | some (.rejected message) =>
      { text := planRejectedText a.action message (minRrDisplay h profile) }
  | some (.raised error) => { text := error }
  | some .passed | none => postDeclaration h x profile a

/-- A `declare_trade` call given to the executor. -/
def executeDeclare (h : Host) (x : Executor) (profile : Option String) (args : Kwargs) :
    ToolRun :=
  match x.coerce args with
  | some a => declareTrade h x profile a
  | none => { text := x.coercionError args }

/-! ### What an accepted text means -/

section
variable {h : Host} {x : Executor} {profile : Option String} {a : DeclareArgs}

theorem rejection_marked (text : String) : contains (rejection text) "TRADE_REJECTED" = true := by
  have hmark : "TRADE_REJECTED: " = "" ++ "TRADE_REJECTED" ++ ": " := by decide
  have htext : rejection text = "" ++ "TRADE_REJECTED" ++ (": " ++ text) :=
    (congrArg (· ++ text) hmark).trans String.append_assoc
  rw [htext]
  exact contains_of_append _ _ _

theorem isDirectionalAction_of_server {action : String}
    (hdir : Action.fromStrLenient action ≠ .hold) : isDirectionalAction h action = true := by
  have hname := Action.fromStrLenient_directional hdir
  have hupper : h.casing.upper (strip action) = (Action.fromStrLenient action).name := by
    refine upper_strip_of_trim h.casing hname ?_
    cases Action.fromStrLenient action <;> decide
  simp only [isDirectionalAction, hupper, decide_eq_true_eq]
  cases hact : Action.fromStrLenient action with
  | buy => decide
  | sell => decide
  | hold => exact absurd hact hdir

theorem postDeclaration_accepted (hdir : Action.fromStrLenient a.action ≠ .hold)
    (hmark : contains (postDeclaration h x profile a).text "TRADE_REJECTED" = false) :
    (postDeclaration h x profile a).outcome = some (evaluateDeclaredTradeWithProfile h.rnd a.action
        a.entry a.stopLoss a.takeProfit a.atr14 profile) ∧
      (evaluateDeclaredTradeWithProfile h.rnd a.action a.entry a.stopLoss a.takeProfit a.atr14
        profile).isPass = true := by
  unfold postDeclaration at hmark ⊢
  cases htransport : x.transport a profile with
  | some error =>
      -- the fault of a directional trade is reported as a rejection
      simp only [htransport, isDirectionalAction_of_server hdir, if_true] at hmark
      rw [unreachableText, rejection_marked] at hmark
      cases hmark
  | none =>
      simp only [htransport, true_and] at hmark ⊢
      cases houtcome : evaluateDeclaredTradeWithProfile h.rnd a.action a.entry a.stopLoss
          a.takeProfit a.atr14 profile with
      | pass riskReward => rfl
      | fail reason =>
          simp only [houtcome] at hmark
          rw [tradeRejectedText, rejection_marked] at hmark
          cases hmark

/-- The check of the management plan, if there is one, does not raise. -/
def PlanChecked (h : Host) (x : Executor) (profile : Option String) (a : DeclareArgs) : Prop :=
  a.managementPlan.isSome = true →
    (x.planGate a (toolMinRr h (toolProfile profile))).isRaised = false

/-- **A directional trade whose text has no rejection marker was validated and passed.** -/
theorem declareTrade_accepted (hdir : Action.fromStrLenient a.action ≠ .hold)
    (hplan : PlanChecked h x profile a)
    (hmark : contains (declareTrade h x profile a).text "TRADE_REJECTED" = false) :
    (declareTrade h x profile a).outcome = some (evaluateDeclaredTradeWithProfile h.rnd a.action
        a.entry a.stopLoss a.takeProfit a.atr14 (toolProfile profile)) ∧
      (evaluateDeclaredTradeWithProfile h.rnd a.action a.entry a.stopLoss a.takeProfit a.atr14
        (toolProfile profile)).isPass = true := by
  unfold declareTrade at hmark ⊢
  cases hgiven : a.managementPlan with
  | none =>
      simp only [hgiven, Option.map_none] at hmark ⊢
      exact postDeclaration_accepted hdir hmark
  | some plan =>
      have hraised := hplan (by rw [hgiven]; rfl)
      simp only [hgiven, Option.map_some] at hmark ⊢
      cases hgate : x.planGate a (toolMinRr h (toolProfile profile)) with
      | passed =>
          simp only [hgate] at hmark ⊢
          exact postDeclaration_accepted hdir hmark
      | unparsable =>
          simp only [hgate] at hmark
          rw [planUnparsableText, rejection_marked] at hmark
          cases hmark
      | rejected message =>
          simp only [hgate] at hmark
          rw [planRejectedText, rejection_marked] at hmark
          cases hmark
      | raised error =>
          rw [hgate] at hraised
          cases hraised

end

/-! ### The three readings of a declaration -/

/-- A decision to buy or to sell. -/
def IsTrade (d : Decision) : Prop := d.action = "BUY" ∨ d.action = "SELL"

section
variable (h : Host) (x : Executor) (profile : Option String)

/-- **The trade was validated**: the declaration was executed, and the validator passed the
direction, the levels and the volatility of this very decision under the minimum of the run's
profile. -/
def Validated (args : Kwargs) (d : Decision) : Prop :=
  ∃ a action outcome, x.coerce args = some a ∧ action.name = d.action ∧
    (executeDeclare h x profile args).outcome = some outcome ∧
    outcome = validateTradeWithMinRr h.rnd action (levelsOf d.entry d.stopLoss d.takeProfit)
      d.atr14 (minRiskRewardForProfile h.rnd (toolProfile profile)) ∧
    outcome.isPass = true ∧ Action.fromStrLenient a.action = action ∧
    a.entry = d.entry ∧ a.stopLoss = d.stopLoss ∧ a.takeProfit = d.takeProfit ∧ a.atr14 = d.atr14

/-- The executor and the server read the arguments as the graph does. -/
structure ReadsAs (args : Kwargs) (a : DeclareArgs) : Prop where
  action : (Action.fromStrLenient a.action).name = (declaredDecision h args).action
  entry : a.entry = coercePrice h (args.get "entry")
  stopLoss : a.stopLoss = coercePrice h (args.get "stop_loss")
  takeProfit : a.takeProfit = coercePrice h (args.get "take_profit")
  atr14 : a.atr14 = coercePrice h (args.get "atr_14")
  plan : PlanChecked h x profile a

/-- The arguments coerce, and the three readings of them agree. -/
def ReadsAlike (args : Kwargs) : Prop :=
  ∃ a, x.coerce args = some a ∧ ReadsAs h x profile args a

/-- The results of the calls that are declarations are those of the executor. -/
def ExecutedBy (calls : List ToolCall) (results : List String) : Prop :=
  results.length = calls.length ∧ ∀ run ∈ calls.zip results, isDeclare run.1 = true →
    run.2 = (executeDeclare h x profile run.1.args).text

end

section
variable {h : Host} {x : Executor} {profile : Option String} {args : Kwargs}
  {calls : List ToolCall} {results : List String} {d d' : Decision}

theorem IsTrade.not_hold {action : Action} (hd : IsTrade d) (hname : action.name = d.action) :
    action ≠ .hold := by
  rintro rfl
  rcases hd with hd | hd
  · rw [hd] at hname
    exact absurd hname (by decide)
  · rw [hd] at hname
    exact absurd hname (by decide)

theorem Validated.readsAlike (hv : Validated h x profile args (declaredDecision h args)) :
    ReadsAlike h x profile args := by
  obtain ⟨a, action, outcome, ha, hname, hrun, -, -, hserver, hentry, hstop, htake, hatr⟩ := hv
  refine ⟨a, ha, ⟨by rw [hserver, hname], hentry, hstop, htake, hatr, fun hgiven => ?_⟩⟩
  -- a check that raises never asks the validator
  obtain ⟨plan, hplan⟩ := Option.isSome_iff_exists.mp hgiven
  simp only [executeDeclare, ha, declareTrade, hplan, Option.map_some] at hrun
  cases hgate : x.planGate a (toolMinRr h (toolProfile profile)) with
  | raised error =>
      simp only [hgate] at hrun
      cases hrun
  | passed => rfl
  | unparsable => rfl
  | rejected message => rfl

/-- A trade that is read alike and whose text has no marker was validated. -/
theorem ReadsAlike.validated (hd : IsTrade (declaredDecision h args))
    (hmark : contains (executeDeclare h x profile args).text "TRADE_REJECTED" = false)
    (hr : ReadsAlike h x profile args) :
    Validated h x profile args (declaredDecision h args) := by
  obtain ⟨a, ha, hread⟩ := hr
  have hrun : executeDeclare h x profile args = declareTrade h x profile a := by
    simp only [executeDeclare, ha]
  rw [hrun] at hmark
  obtain ⟨houtcome, hpass⟩ :=
    declareTrade_accepted (hd.not_hold hread.action) hread.plan hmark
  refine ⟨a, _, _, ha, hread.action, by rw [hrun]; exact houtcome, ?_, hpass, rfl, hread.entry,
    hread.stopLoss, hread.takeProfit, hread.atr14⟩
  have hentry : a.entry = (declaredDecision h args).entry := hread.entry
  have hstop : a.stopLoss = (declaredDecision h args).stopLoss := hread.stopLoss
  have htake : a.takeProfit = (declaredDecision h args).takeProfit := hread.takeProfit
  have hatr : a.atr14 = (declaredDecision h args).atr14 := hread.atr14
  rw [← hentry, ← hstop, ← htake, ← hatr]
  rfl

theorem declareWasRejected_append (out out' : List Message) :
    declareWasRejected (out ++ out') = (declareWasRejected out || declareWasRejected out') :=
  List.any_append

theorem unmarked_of_accepted (hacc : declareWasRejected (executed calls results) = false)
    {tc : ToolCall} {text : String} (hrun : (tc, text) ∈ calls.zip results)
    (htc : isDeclare tc = true) : contains text "TRADE_REJECTED" = false := by
  have hmem : answer text tc.name tc ∈ executed calls results := by
    have hzip : executed calls results =
        (calls.zip results).map fun run => answer run.2 run.1.name run.1 := by
      rw [List.map_zip_eq_zipWith]
      rfl
    rw [hzip]
    exact List.mem_map_of_mem (f := fun run : ToolCall × String => answer run.2 run.1.name run.1)
      hrun
  have hclean := List.any_eq_false.mp hacc _ hmem
  have hname : tc.name = "declare_trade" := of_decide_eq_true htc
  simpa [answer, hname] using hclean

/-- **Accepted declarations.**  The trade read off the first of them was validated exactly when
its readings agree. -/
theorem declared_validated_iff (hexec : ExecutedBy h x profile calls results)
    (hacc : declareWasRejected (executed calls results) = false)
    (hd : decisionFromDeclare h calls = some d) (htrade : IsTrade d) :
    ∃ tc, calls.find? isDeclare = some tc ∧
      (Validated h x profile tc.args d ↔ ReadsAlike h x profile tc.args) := by
  obtain ⟨tc, htc, rfl⟩ := Option.map_eq_some_iff.mp hd
  refine ⟨tc, htc, Validated.readsAlike, fun hr => ?_⟩
  have hdeclare : isDeclare tc = true := List.find?_some htc
  obtain ⟨i, hi, hget⟩ := List.getElem_of_mem (List.mem_of_find?_eq_some htc)
  have hi' : i < results.length := hexec.1 ▸ hi
  have hrun : (tc, results[i]) ∈ calls.zip results := by
    have hzip : (calls.zip results)[i]? = some (tc, results[i]) := by
      simp [hget, hi, hi']
    exact List.mem_of_getElem? hzip
  have htext : results[i] = (executeDeclare h x profile tc.args).text := hexec.2 _ hrun hdeclare
  have hmark := unmarked_of_accepted hacc hrun hdeclare
  rw [htext] at hmark
  exact hr.validated htrade hmark

theorem SameTrade.validated_iff (hsame : SameTrade d d') :
    Validated h x profile args d' ↔ Validated h x profile args d := by
  simp only [Validated, hsame.action, hsame.entry, hsame.stopLoss, hsame.takeProfit, hsame.atr14]

end

/-! ### The committed trade -/

/-- The Judge's declarations are executed by the executor. -/
def JudgeExecutedBy (h : Host) (x : Executor) (profile : Option String) (turns : List JudgeTurn) :
    Prop :=
  ∀ turn ∈ turns, ∀ r ∈ turn.response,
    ExecutedBy h x profile (judgeDeclares r) turn.declareResults

/-- A trade among the decisions of `tool_node` comes from executed declarations, none of them
rejected. -/
theorem toolDecision_declared {env : Env} {s : AgentState} {now : ℚ} {results : List String}
    {d : Decision} (hd : toolDecision env s now results = some d) (htrade : IsTrade d) :
    declareWasRejected (executed (partitionCalls env s now).okCalls results) = false ∧
      decisionFromDeclare env.host (partitionCalls env s now).okCalls = some d := by
  simp only [toolDecision] at hd
  split at hd
  · cases hd
  · split at hd
    · split at hd
      · -- the data gate commits a HOLD
        cases hd
        rcases htrade with haction | haction <;> exact absurd haction (by decide)
      · cases hd
    · split at hd
      · cases hd
      · split at hd
        · cases hd
        · rename_i hacc
          refine ⟨?_, hd⟩
          simp only [toolOutputs, declareWasRejected_append, Bool.or_eq_true, not_or,
            Bool.not_eq_true] at hacc
          exact hacc.1.1

/-- **Committed trades and validated trades.**  A trade that `tool_node` or `judge_node` puts
into the state was validated exactly when the readings of its declaration agree: the first one
executed, for the Judge in the turn that decided. -/
theorem committed_trade_validated_iff (env : Env) (cfg : DebateConfig) (x : Executor)
    (profile threadId : Option String) (s s' : AgentState) (p p' : Process) (d : Decision)
    (hdec : s'.decision = some d) (htrade : IsTrade d) :
    (∀ now results, toolNode env threadId s now results p = some (s', p') →
      (toolDecision env s now results).isSome = true →
      ExecutedBy env.host x profile (partitionCalls env s now).okCalls results →
      ∃ tc, (partitionCalls env s now).okCalls.find? isDeclare = some tc ∧
        (Validated env.host x profile tc.args d ↔ ReadsAlike env.host x profile tc.args)) ∧
    ∀ turns, judgeNode env cfg threadId s turns p = some (s', p') →
      JudgeExecutedBy env.host x profile turns →
      ∃ turn ∈ turns, ∃ r proposed, turn.Decides env.host r proposed ∧ SameTrade proposed d ∧
        ∃ tc, (judgeDeclares r).find? isDeclare = some tc ∧
          (Validated env.host x profile tc.args d ↔ ReadsAlike env.host x profile tc.args) := by
  constructor
  · intro now results hnode hsome hexec
    obtain ⟨-, ⟨hnone, -, -⟩ | ⟨proposed, closing, hproposed, -, -, rfl⟩⟩ := toolNode_cases hnode
    · rw [hnone] at hsome
      cases hsome
    · cases hdec
      have hsame := finalizeDecision_sameTrade env threadId s proposed p
      have hproposedTrade : IsTrade proposed := by simpa only [IsTrade, hsame.action] using htrade
      obtain ⟨hacc, hdeclared⟩ := toolDecision_declared hproposed hproposedTrade
      obtain ⟨tc, htc, hvalid⟩ := declared_validated_iff hexec hacc hdeclared hproposedTrade
      exact ⟨tc, htc, hsame.validated_iff.trans hvalid⟩
  · intro turns hnode hexec
    obtain ⟨st, closing, hst, -, -, rfl⟩ := judgeNode_cases hnode
    cases hdec
    have hsame := finalizeDecision_sameTrade env threadId s (judgeProposal env s st) p
    cases hjudged : st.decision with
    | none =>
        -- the debate's own decision is a HOLD
        have hhold : (judgeProposal env s st).action = "HOLD" := by
          rw [judgeProposal, hjudged]
          rfl
        rcases htrade with haction | haction
        · rw [hsame.action, hhold] at haction
          exact absurd haction (by decide)
        · rw [hsame.action, hhold] at haction
          exact absurd haction (by decide)
    | some proposed =>
        have hproposal : judgeProposal env s st = proposed := by
          rw [judgeProposal, hjudged]
          rfl
        rw [hproposal] at hsame htrade ⊢
        obtain ⟨turn, hturn, r, hdecides⟩ := judgeRun_decision hst hjudged
        have hproposedTrade : IsTrade proposed := by simpa only [IsTrade, hsame.action] using htrade
        obtain ⟨tc, htc, hvalid⟩ := declared_validated_iff (hexec turn hturn r hdecides.response)
          hdecides.accepted hdecides.declared hproposedTrade
        exact ⟨turn, hturn, r, proposed, hdecides, hsame, tc, htc, hsame.validated_iff.trans hvalid⟩

/-! ### Two declarations -/

/-- An optional number, coerced: a bool is a number too, a text is parsed. -/
def coerceNumber (h : Host) : PyVal → Option (Option F64)
  | .none => some none
  | .int z => some (some (h.rnd z))
  | .float x => some (some x)
  | .bool b => some (some (.fin (if b then 1 else 0)))
  | .str s => (h.parseFloat (strip s)).map some
  | _ => none

/-- The coercion of a declaration without a management plan. -/
def coerceDeclaration (h : Host) (args : Kwargs) : Option DeclareArgs :=
  match args.get "action", args.get "conviction_score", args.get "setup_validation",
      args.get "execution_plan" with
  | .str action, .int convictionScore, .str setupValidation, .str executionPlan =>
      (coerceNumber h (args.get "entry")).bind fun entry =>
      (coerceNumber h (args.get "stop_loss")).bind fun stopLoss =>
      (coerceNumber h (args.get "take_profit")).bind fun takeProfit =>
      (coerceNumber h (args.get "atr_14")).map fun atr14 =>
        { action, convictionScore, setupValidation, executionPlan, entry, stopLoss, takeProfit,
          atr14, managementPlan := none }
  | _, _, _, _ => none

/-- An executor whose server answers every request. -/
def sampleExecutor : Executor where
  coerce := coerceDeclaration sampleHost
  coercionError _ := "Error: the arguments of declare_trade are invalid. Please fix your mistakes."
  planGate _ _ := .passed
  transport _ _ := none

/-- A thread that has seen market data and declares a trade. -/
def declaringState (args : Kwargs) : AgentState where
  messages := [.ai "" [⟨"declare_trade", args, "call_1"⟩] [("call_1", .ok)] []]
  marketDataSeen := true

/-- The executor's text for a declaration without a profile. -/
def declaringText (args : Kwargs) : String :=
  (executeDeclare sampleHost sampleExecutor none args).text

theorem declaring_okCalls (args : Kwargs) :
    (partitionCalls defaultEnv (declaringState args) 101).okCalls =
      [⟨"declare_trade", args, "call_1"⟩] := by
  simp [partitionCalls, declaringState, pendingCalls, okCallsOf, PendingCalls.isOk, dictGet,
    passing, heldInResearch, heldForData, heldByHeartbeat, heartbeatGateClosed, isSuppressedRearm,
    floorInvalidation, isWatch, pendingPostmortem]

theorem declaring_executed (args : Kwargs) : ExecutedBy sampleHost sampleExecutor none
    (partitionCalls defaultEnv (declaringState args) 101).okCalls [declaringText args] := by
  rw [declaring_okCalls]
  exact ⟨rfl, by simp [declaringText]⟩

theorem declaring_commits {args : Kwargs}
    (htext : contains (declaringText args) "TRADE_REJECTED" = false) :
    toolDecision defaultEnv (declaringState args) 101 [declaringText args] =
      some (declaredDecision sampleHost args) := by
  have hpartition : partitionCalls defaultEnv (declaringState args) 101 =
      ⟨[], [], [], [], [], [⟨"declare_trade", args, "call_1"⟩]⟩ := by
    rw [← declaring_okCalls args]
    simp [partitionCalls, declaringState, pendingCalls, okCallsOf, PendingCalls.isOk, dictGet,
      passing, heldInResearch, heldForData, heldByHeartbeat, heartbeatGateClosed,
      isSuppressedRearm, pendingPostmortem]
  simp only [toolDecision, toolOutputs, hpartition]
  simp [declareWasRejected, executed, answer, htext, decisionFromDeclare, isDeclare]
  rfl

theorem declaring_node (args : Kwargs)
    (hcommit : toolDecision defaultEnv (declaringState args) 101 [declaringText args] =
      some (declaredDecision sampleHost args)) : ∃ s' p' d,
    toolNode defaultEnv none (declaringState args) 101 [declaringText args] {} = some (s', p') ∧
      s'.decision = some d ∧ SameTrade (declaredDecision sampleHost args) d := by
  obtain ⟨⟨s', p'⟩, hnode⟩ : ∃ r, toolNode defaultEnv none (declaringState args) 101
      [declaringText args] {} = some r := by
    simp only [toolNode, hcommit, declaring_okCalls, List.length_singleton, if_true]
    exact ⟨_, rfl⟩
  obtain ⟨-, ⟨hnone, -⟩ | ⟨d, closing, hd, -, -, rfl⟩⟩ := toolNode_cases hnode
  · rw [hcommit] at hnone
    cases hnone
  · rw [hcommit] at hd
    cases hd
    exact ⟨_, p', _, hnode, rfl, finalizeDecision_sameTrade ..⟩

/-- A validated BUY is committed as it was validated. -/
theorem committed_trade_validated_buy : ∃ s' p' d,
    toolNode defaultEnv none (declaringState (tradeArgs "BUY" 100 80 150)) 101
        [declaringText (tradeArgs "BUY" 100 80 150)] {} = some (s', p') ∧
      s'.decision = some d ∧ d.action = "BUY" ∧
      Validated sampleHost sampleExecutor none (tradeArgs "BUY" 100 80 150) d := by
  set args := tradeArgs "BUY" 100 80 150 with hargs
  have htext : contains (declaringText args) "TRADE_REJECTED" = false := by decide +kernel
  have hcommit := declaring_commits htext
  obtain ⟨s', p', d, hnode, hd, hsame⟩ := declaring_node args hcommit
  have htrade : IsTrade d := .inl (by rw [hsame.action]; decide +kernel)
  obtain ⟨tc, htc, hiff⟩ := (committed_trade_validated_iff defaultEnv sampleDebate sampleExecutor
    none none (declaringState args) s' {} p' d hd htrade).1 101 _ hnode
    (by rw [hcommit]; rfl) (declaring_executed args)
  rw [declaring_okCalls] at htc
  cases htc
  have hread : ReadsAlike sampleHost sampleExecutor none args := by
    refine ⟨_, rfl, ⟨by decide +kernel, by decide +kernel, by decide +kernel, by decide +kernel,
      by decide +kernel, fun hplan => by cases hplan⟩⟩
  exact ⟨s', p', d, hnode, hd, by rw [hsame.action]; decide +kernel, hiff.mpr hread⟩

/-- The graph reads LONG as a BUY, the server as an abstention: a trade that no rule has seen, here
with half the demanded reward, is committed. -/
theorem unvalidated_long_committed : ∃ s' p' d,
    toolNode defaultEnv none (declaringState (tradeArgs "LONG" 100 80 110)) 101
        [declaringText (tradeArgs "LONG" 100 80 110)] {} = some (s', p') ∧
      ExecutedBy sampleHost sampleExecutor none
        (partitionCalls defaultEnv (declaringState (tradeArgs "LONG" 100 80 110)) 101).okCalls
        [declaringText (tradeArgs "LONG" 100 80 110)] ∧
      s'.decision = some d ∧ d.action = "BUY" ∧
      ¬ Validated sampleHost sampleExecutor none (tradeArgs "LONG" 100 80 110) d := by
  set args := tradeArgs "LONG" 100 80 110 with hargs
  have htext : contains (declaringText args) "TRADE_REJECTED" = false := by decide +kernel
  obtain ⟨s', p', d, hnode, hd, hsame⟩ := declaring_node args (declaring_commits htext)
  have haction : (declaredDecision sampleHost args).action = "BUY" := by decide +kernel
  refine ⟨s', p', d, hnode, declaring_executed args, hd, by rw [hsame.action, haction], ?_⟩
  intro hvalid
  obtain ⟨a, ha, hread⟩ := (hsame.validated_iff.mp hvalid).readsAlike
  have hlong : (coerceDeclaration sampleHost args).map DeclareArgs.action = some "LONG" := by
    decide +kernel
  have hcoerce : coerceDeclaration sampleHost args = some a := ha
  rw [hcoerce, Option.map_some, Option.some.injEq] at hlong
  have hserver := hread.action
  rw [hlong, haction] at hserver
  exact absurd hserver (by decide)

end AiTrader.Agent
