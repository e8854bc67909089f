import AiTrader.Agent.Commit

/-! # The analysis loop

The nodes `call_model`, `tool_node`, `force_hold` and `force_terminal`, and the routers
`should_continue` and `route_after_tools`.

The executor of the tools is outside: when it completes, it has produced one result for each
call it was given; when a tool suspends the graph or raises, the node has not run.

* `partitionCalls_ids`: the groups into which `tool_node` sorts the calls are all of them.
* `toolNode_messages`: the node appends one result for each call, then at most plain text.
* `toolNode_cases`: an execution either decides nothing or commits `toolDecision`. -/

namespace AiTrader.Agent

open Text

/-! ### `call_model` -/

def Stance.toPy (st : Stance) : PyVal :=
  .dict [("role", .str st.role), ("lean", .str st.lean), ("strength", .int st.strength),
    ("arguments", .list (st.arguments.map .str)), ("biggest_risk", .str st.biggestRisk),
    ("available", .bool st.available)]

/-- `_should_run_verify_devils_advocate`. -/
def shouldRunVerifyDevilsAdvocate (h : Host) (s : AgentState) (messages : List Message) : Bool :=
  decide (s.modeKey h = "VERIFY") && !s.verifyDevilsAdvocateDone &&
    (s.marketDataSeen || marketDataSeen h messages)

/-- The message of `run_verify_devils_advocate`. -/
def devilsAdvocateMessage (h : Host) (st : Stance) : Message :=
  .aiText ("DEVIL'S ADVOCATE (Bear) - the strongest evidence-grounded case AGAINST " ++
    "the proposed trade, for you to weigh in your verification verdict. This " ++
    "stance does NOT itself approve, block, or commit the trade.\n" ++ h.dumps st.toPy)

/-- What one execution of the node meets: the devil's advocate's answer (`none` when its
invocation failed), the model's response and the clock. -/
structure ModelTurn where
  advocate : Option String
  response : Response
  now : ℚ

def ExtractedCall.toCall (c : ExtractedCall) : ToolCall := ⟨c.name, c.args.getD [], c.id⟩

def ExtractedCall.isOk (c : ExtractedCall) : Bool := decide (c.status = .ok)

/-- The assistant message that carries every discovered call. -/
def replyMessage (h : Host) (r : Response) : Message :=
  .ai r.content (r.calls.map ExtractedCall.toCall) (r.calls.map fun c => (c.id, c.status))
    ((r.calls.filter (fun c => !c.isOk)).map fun c => (c.id, syntheticFailureContent h c))

/-- The devil's advocate's message of this turn, if it runs. -/
def advocateMessage (env : Env) (s : AgentState) (messages : List Message)
    (answer : Option String) : List Message :=
  if shouldRunVerifyDevilsAdvocate env.host s messages then
    [devilsAdvocateMessage env.host (env.stanceOf "bear" answer)]
  else []

/-- The ok calls of a response re-arm the watch that was armed last. -/
def isContinuation (h : Host) (sent : List Message) (proposed : Kwargs) : Bool :=
  let prior := latestWatchArgs sent
  !prior.isEmpty && decide (thesisFingerprint h prior = thesisFingerprint h proposed)

/-- `call_model`. -/
def callModel (env : Env) (s : AgentState) (turn : ModelTurn) : AgentState :=
  let messages :=
    if s.messages.any Message.isSystem then s.messages
    else .system (env.systemPrompt s) :: s.messages
  let advocate := advocateMessage env s messages turn.advocate
  let sent := env.prune (messages ++ advocate)
  let okCalls := turn.response.calls.filter ExtractedCall.isOk
  let proposed := okCalls.find? fun c => decide (c.name = "watch_price_condition")
  { s with
    messages := s.messages ++ advocate ++ [replyMessage env.host turn.response]
    reasoningTurns := if turn.response.calls.isEmpty then s.reasoningTurns + 1 else 0
    marketDataSeen := s.marketDataSeen || marketDataSeen env.host sent
    sessionTurns := s.sessionTurns + 1
    sessionStartedAt := some (s.sessionStartedAt.getD turn.now)
    watchCycles := match proposed with
      | some c =>
          if isContinuation env.host sent (c.args.getD []) then s.watchCycles
          else s.watchCycles + 1
      | none => s.watchCycles
    verifyDevilsAdvocateDone := s.verifyDevilsAdvocateDone || !advocate.isEmpty
    phase := if s.modeKey env.host = "DEBATE" ∧ s.phase = none then some .research else s.phase }

/-! ### `tool_node` -/

/-- How `tool_node` sorts the calls of the latest message. -/
structure Partition where
  failed : List ToolCall
  researchBlocked : List ToolCall
  blocked : List ToolCall
  heartbeatGated : List ToolCall
  rearmSuppressed : List ToolCall
  okCalls : List ToolCall

/-- The heartbeat gate is closed: woken by a heartbeat with core tools missing, no cap met. -/
def heartbeatGateClosed (env : Env) (s : AgentState) (now : ℚ) : Bool :=
  decide (s.lastResumeKind = some .heartbeat) &&
    !coreAcquisitionResolved env.host s.messages &&
    (terminationReason env.host env.cfg s now).isNone

/-- The thesis that a re-arm must differ from. -/
def pendingPostmortem (s : AgentState) : Option Thesis :=
  if s.postmortemPending then s.priorThesis else none

def isSuppressedRearm (env : Env) (s : AgentState) (tc : ToolCall) : Bool :=
  match pendingPostmortem s with
  | some prior => isWatch tc &&
      isRearmUnchanged env.host prior.toArgs tc.args (latestAtr env.host s.messages)
  | none => false

/-- A changed re-arm keeps its invalidation level a volatility floor away. -/
def floorInvalidation (env : Env) (s : AgentState) (tc : ToolCall) : ToolCall :=
  if (pendingPostmortem s).isSome && isWatch tc then
    match volatilityFlooredInvalidation env.host (tc.args.get "direction")
        (tc.args.get "price_level") (tc.args.get "invalidation_level")
        (latestAtr env.host s.messages) with
    | some floored => { tc with args := Kwargs.set tc.args "invalidation_level" (.float floored) }
    | none => tc
  else tc

/-- A declaration made while the shared evidence is being gathered. -/
def heldInResearch (s : AgentState) (tc : ToolCall) : Bool :=
  decide (s.phase = some .research) && isDeclare tc

/-- A declaration made before any market data was seen. -/
def heldForData (s : AgentState) (tc : ToolCall) : Bool := !s.marketDataSeen && isDeclare tc

/-- A stand-aside declared on a heartbeat. -/
def heldByHeartbeat (env : Env) (s : AgentState) (now : ℚ) (tc : ToolCall) : Bool :=
  heartbeatGateClosed env s now && isDeclare tc && !declareIsDirectional env.host tc.args

/-- The calls that a gate lets through. -/
def passing (gate : ToolCall → Bool) (calls : List ToolCall) : List ToolCall :=
  calls.filter fun tc => !gate tc

def okCallsOf (pending : PendingCalls) : List ToolCall := pending.calls.filter pending.isOk

/-- The gates of `tool_node`, in the order in which they hold calls back. -/
def partitionCalls (env : Env) (s : AgentState) (now : ℚ) : Partition :=
  let pending := pendingCalls s.messages
  let ok := okCallsOf pending
  let afterResearch := passing (heldInResearch s) ok
  let afterData := passing (heldForData s) afterResearch
  let afterHeartbeat := passing (heldByHeartbeat env s now) afterData
  { failed := passing pending.isOk pending.calls
    researchBlocked := ok.filter (heldInResearch s)
    blocked := afterResearch.filter (heldForData s)
    heartbeatGated := afterData.filter (heldByHeartbeat env s now)
    rearmSuppressed := afterHeartbeat.filter (isSuppressedRearm env s)
    okCalls := (passing (isSuppressedRearm env s) afterHeartbeat).map (floorInvalidation env s) }

/-- A tool result under the call's id. -/
def answer (content name : String) (tc : ToolCall) : Message := .tool content tc.id name

/-- The executor's results for the calls it was given. -/
def executed (calls : List ToolCall) (results : List String) : List Message :=
  List.zipWith (fun tc content => answer content tc.name tc) calls results

/-- The feedback for a call that could not be executed. -/
def failedAnswer (synthetic : List (String × String)) (default : String → String)
    (tc : ToolCall) : Message :=
  answer ((dictGet synthetic tc.id).getD (default tc.name))
    (if tc.name = "" then "unknown_tool" else tc.name) tc

def couldNotExecute (name : String) : String :=
  "Tool-call error: '" ++ name ++ "' could not be executed."

def rearmNote : String :=
  "watch_price_condition suppressed: this re-arms the SAME thesis (symbol / " ++
  "timeframe / direction / level) that was just invalidated. Do NOT blindly " ++
  "re-arm the failed setup — change the structure, timeframe, or tier, or " ++
  "stand aside. Re-analyze before proposing a materially different watch."

def researchNote : String :=
  "declare_trade suppressed during the research phase: the Research_Phase " ++
  "gathers the shared evidence base only and never commits a trade. The " ++
  "Judge will commit the trade after the Bull/Bear debate weighs this " ++
  "evidence. Stop declaring and conclude your evidence gathering."

def blockedNote (attempted : Bool) : String :=
  if attempted then
    "declare_trade not committed: required market data for a directional " ++
    "decision is unavailable (market-data tools were called but failed or " ++
    "returned no usable data). Finalizing HOLD due to the data limitation."
  else
    "declare_trade rejected: no market-data tool has returned data yet in " ++
    "this run. You MUST call at least one market-data tool (e.g. " ++
    "get_multi_tf_trend or get_consensus_report) and review its result " ++
    "before declaring a trade. Continue your analysis."

def heartbeatNote (unresolved : List String) : String :=
  "declare_trade not committed: this stand-aside HOLD was proposed on a " ++
  "heartbeat wake before your core data acquisition finished. Core tools " ++
  "still unresolved: " ++ String.intercalate ", " unresolved ++ ". Finish acquiring these core " ++
  "tools (or confirm each is explicitly unavailable) before committing a " ++
  "terminal HOLD, then re-declare. Continue your analysis."

/-- The HOLD of the data-acquisition gate. -/
def dataGatedHold : Decision where
  action := "HOLD"
  convictionScore := .int 0
  reason := some "directional-data-unavailable"
  setupValidation := .str (
    "Required market data for a directional decision is unavailable; " ++
    "market-data tools were called but failed or returned no usable data. " ++
    "Holding to preserve capital rather than trade on assumptions.")
  executionPlan := .str "HOLD — no trade taken due to a data limitation."
  source := "data_gating"

/-- The closing message of a terminal HOLD. -/
def finalMessage (h : Host) (d : Decision) : Message :=
  .aiText (h.dumps (.dict [("conviction_score", d.convictionScore),
    ("setup_validation", d.setupValidation), ("execution_plan", d.executionPlan)]))

/-- The resume kind that a result of the watch tool announces. -/
def resumeMarker : Message → Option Watch.ResumeKind
  | .tool content _ name =>
      if name = "watch_price_condition" then
        if startsWith content "Setup INVALIDATED" then some .invalidation
        else if startsWith content "Heartbeat check" then some .heartbeat
        else none
      else none
  | _ => none

/-- The bookkeeping of the first resume among the results. -/
def noteResume (env : Env) (s : AgentState) (out : List Message) : AgentState :=
  match out.findSome? resumeMarker with
  | some .invalidation => { s with
      postmortemPending := true
      priorThesis := some (thesisFingerprint env.host (latestWatchArgs s.messages))
      invalidationCount := s.invalidationCount + 1
      watchCycles := s.watchCycles + 1
      lastResumeKind := some .invalidation }
  | some .heartbeat =>
      let account := accountHeartbeat env.cfg s
      { s with
        heartbeatCount := account.heartbeatCount
        sessionTurns := account.sessionTurns
        lastResumeKind := some .heartbeat }
  | _ => s

/-- What the node has written before it resolves held declarations. -/
def toolOutputs (env : Env) (s : AgentState) (now : ℚ) (results : List String) : List Message :=
  let parts := partitionCalls env s now
  executed parts.okCalls results ++
    parts.failed.map (failedAnswer (pendingCalls s.messages).synthetic couldNotExecute) ++
    parts.rearmSuppressed.map (answer rearmNote "watch_price_condition")

/-- The decision that the node is about to commit. -/
def toolDecision (env : Env) (s : AgentState) (now : ℚ) (results : List String) :
    Option Decision :=
  let parts := partitionCalls env s now
  if !parts.researchBlocked.isEmpty then none
  else if !parts.blocked.isEmpty then
    if marketDataAttempted s.messages then some dataGatedHold else none
  else if !parts.heartbeatGated.isEmpty then none
  else if declareWasRejected (toolOutputs env s now results) then none
  else decisionFromDeclare env.host parts.okCalls

/-- The answers to held declarations. -/
def heldAnswers (env : Env) (s : AgentState) (now : ℚ) : List Message :=
  let parts := partitionCalls env s now
  if !parts.researchBlocked.isEmpty then
    parts.researchBlocked.map (answer researchNote "declare_trade")
  else if !parts.blocked.isEmpty then
    parts.blocked.map
      (answer (blockedNote (marketDataAttempted s.messages)) "declare_trade")
  else parts.heartbeatGated.map
    (answer (heartbeatNote (unresolvedCoreTools env.host s.messages)) "declare_trade")

/-- The state after `tool_node`, before a decision is put into it. -/
def toolNext (env : Env) (s : AgentState) (now : ℚ) (results : List String) : AgentState :=
  { noteResume env s (toolOutputs env s now results) with
    messages := s.messages ++ (toolOutputs env s now results ++ heldAnswers env s now)
    phase := if (partitionCalls env s now).researchBlocked.isEmpty then s.phase
      else some .debate }

/-- `tool_node`. -/
def toolNode (env : Env) (threadId : Option String) (s : AgentState) (now : ℚ)
    (results : List String) (p : Process) : Option (AgentState × Process) :=
  let parts := partitionCalls env s now
  let next := toolNext env s now results
  if results.length = parts.okCalls.length then
    match toolDecision env s now results with
    | none => some (next, p)
    | some d =>
        let (d, p) := finalizeDecision env threadId s d p
        let closing := if parts.blocked.isEmpty then [] else [finalMessage env.host d]
        some ({ next with messages := next.messages ++ closing, decision := some d }, p)
  else none

/-! ### Routing and the terminal nodes -/

inductive Route where
  | continue | suspend | loopAgent | forceHold | forceTerminal | debateHandoff | end
deriving DecidableEq, Repr

/-- `should_continue`. -/
def shouldContinue (env : Env) (s : AgentState) (now : ℚ) : Route :=
  let pending := pendingCalls s.messages
  if !pending.calls.isEmpty then
    if (okCallsOf pending).any isWatch then
      if (terminationReason env.host env.cfg s now).isSome then .forceTerminal else .suspend
    else .continue
  else if s.decision.isSome then .end
  else if sessionBudgetExhausted env.host env.cfg s now then .forceTerminal
  else if s.reasoningTurns < env.maxReasoningTurns then .loopAgent
  else if s.phase.isSome then .debateHandoff
  else .forceHold

inductive ToolRoute where
  | end | debateHandoff | agent
deriving DecidableEq, Repr

/-- `route_after_tools`. -/
def routeAfterTools (s : AgentState) : ToolRoute :=
  if s.decision.isSome then .end
  else if s.phase = some .debate then .debateHandoff
  else .agent

/-- The HOLD of `force_hold`. -/
def forcedHold : Decision where
  action := "HOLD"
  convictionScore := .int 0
  reason := some "no-decision-reached"
  setupValidation := .str (
    "Reasoning budget exhausted without a validated A+ setup. " ++
    "Holding to preserve capital rather than force a low-conviction trade.")
  executionPlan := .str "HOLD — no trade taken."
  source := "forced_hold"

/-- The interim read as text, with its bias. -/
def currentReadText (h : Host) : PyVal → Option (String × String)
  | .dict read =>
      let bias := match Kwargs.get read "bias" with
        | .str b => if b = "" then none else some b
        | _ => none
      let levels : Kwargs := match Kwargs.get read "levels" with
        | .dict l => l
        | _ => []
      let bits := (bias.map ("directional bias " ++ ·)).toList ++
        (if levels.isEmpty then [] else
          ["key reference levels (" ++
            String.intercalate ", " (levels.map fun kv => kv.1 ++ "=" ++ h.str kv.2) ++ ")"]) ++
        (nonBlank (Kwargs.get read "why_standing_aside")).toList
      if bits.isEmpty then none
      else some ("Best_Current_Read: " ++ String.intercalate "; " bits ++ ".",
        bias.getD "neutral")
  | _ => none

/-- `d["setup_validation"] + suffix`. -/
def appendText (v : PyVal) (suffix : String) : PyVal :=
  match v with
  | .str s => .str (s ++ suffix)
  | v => v

/-- Fold the interim read into a forced HOLD. -/
def withCurrentRead (h : Host) (d : Decision) : Decision :=
  match currentReadText h d.bestCurrentRead with
  | some (text, bias) => { d with
      setupValidation := appendText d.setupValidation (" " ++ text)
      executionPlan := .str (
        "HOLD — no trade taken; standing aside with a directional read (" ++ bias ++
        "). No entry/stop/target committed.") }
  | none => d

/-- `force_hold`. -/
def forceHold (env : Env) (threadId : Option String) (s : AgentState) (p : Process) :
    AgentState × Process :=
  let (d, p) := finalizeDecision env threadId s forcedHold p
  let d := withCurrentRead env.host d
  let closing : Message := .aiText (env.host.dumps (.dict [
    ("conviction_score", d.convictionScore), ("setup_validation", d.setupValidation),
    ("execution_plan", d.executionPlan), ("best_current_read", d.bestCurrentRead)]))
  ({ s with messages := s.messages ++ [closing], decision := some d }, p)

/-- The HOLD of `force_terminal`. -/
def terminalHold (reason : String) : Decision where
  action := "HOLD"
  convictionScore := .int 0
  reason := some reason
  setupValidation := .str (
    "Bounded hunt exhausted (" ++ reason ++ ") without a committed A+/tiered setup. " ++
    "Standing aside to preserve capital rather than re-arm another watch.")
  executionPlan := .str "HOLD — stand aside; bounded hunt reached its Watch_Cap / Session_Budget."
  source := "force_terminal"

def notRegisteredNote (reason : String) : String :=
  "watch_price_condition not registered: the bounded hunt is exhausted " ++
  "(" ++ reason ++ "). Committing a terminal stand-aside decision with the current " ++
  "best read rather than arming another watch."

/-- `force_terminal`: only the pending ok watches are answered. -/
def forceTerminal (env : Env) (threadId : Option String) (s : AgentState) (now : ℚ)
    (p : Process) : AgentState × Process :=
  let reason := (terminationReason env.host env.cfg s now).getD "bounded-hunt-exhausted"
  let pending := pendingCalls s.messages
  let watches := pending.calls.filter fun tc => isWatch tc && pending.isOk tc
  let (d, p) := finalizeDecision env threadId s (terminalHold reason) p
  ({ s with
      messages := s.messages ++
        watches.map (answer (notRegisteredNote reason) "watch_price_condition") ++
        [finalMessage env.host d]
      decision := some d }, p)

/-! ### What the nodes do -/

section
variable {env : Env} {threadId : Option String} {s s' : AgentState} {now : ℚ}
  {results : List String} {out : List Message} {p p' : Process}

/-- A message that neither carries calls nor answers one. -/
def Message.IsPlain (m : Message) : Prop :=
  toolSignature.issues m = [] ∧ toolSignature.answers m = none

theorem finalMessage_plain (h : Host) (d : Decision) : (finalMessage h d).IsPlain := ⟨rfl, rfl⟩

/-- A list of results: it carries no calls and answers exactly the given ids. -/
structure Answers (out : List Message) (ids : List String) : Prop where
  silent : ∀ m ∈ out, toolSignature.issues m = []
  ids : out.filterMap toolSignature.answers = ids

theorem Answers.nil : Answers [] [] := ⟨by simp, rfl⟩

theorem Answers.append {xs ys : List Message} {is js : List String} (hx : Answers xs is)
    (hy : Answers ys js) : Answers (xs ++ ys) (is ++ js) := by
  refine ⟨fun m hm => ?_, by rw [List.filterMap_append, hx.ids, hy.ids]⟩
  rcases List.mem_append.mp hm with hm | hm
  · exact hx.silent m hm
  · exact hy.silent m hm

theorem Answers.map {α : Type} {f : α → Message} {key : α → String}
    (hf : ∀ a, ∃ content name, f a = .tool content (key a) name) (calls : List α) :
    Answers (calls.map f) (calls.map key) := by
  induction calls with
  | nil => exact .nil
  | cons a calls ih =>
      obtain ⟨content, name, ha⟩ := hf a
      have hone : Answers [f a] [key a] := ⟨by simp [ha, toolSignature], by simp [ha, toolSignature]⟩
      exact hone.append ih

theorem Answers.executed {calls : List ToolCall} (hlen : results.length = calls.length) :
    Answers (executed calls results) (calls.map ToolCall.id) := by
  induction calls generalizing results with
  | nil => exact .nil
  | cons tc calls ih =>
      cases results with
      | nil => simp at hlen
      | cons r results =>
          have hrest : Answers (executed calls results) (calls.map ToolCall.id) :=
            ih (by simpa using hlen)
          have hone : Answers [answer r tc.name tc] [tc.id] :=
            ⟨by simp [answer, toolSignature], by simp [answer, toolSignature]⟩
          exact hone.append hrest

theorem floorInvalidation_id (tc : ToolCall) : (floorInvalidation env s tc).id = tc.id := by
  unfold floorInvalidation
  split
  · split <;> rfl
  · rfl

theorem floorInvalidation_name (tc : ToolCall) : (floorInvalidation env s tc).name = tc.name := by
  unfold floorInvalidation
  split
  · split <;> rfl
  · rfl

/-- The calls that a gate of `tool_node` holds back. -/
def Partition.held (parts : Partition) : List ToolCall :=
  parts.researchBlocked ++ parts.blocked ++ parts.heartbeatGated

theorem count_gate (gate : ToolCall → Bool) (calls : List ToolCall) (k : String) :
    ((calls.filter gate).map ToolCall.id).count k + ((passing gate calls).map ToolCall.id).count k =
      (calls.map ToolCall.id).count k := by
  have hperm := (List.filter_append_perm gate calls).map ToolCall.id
  rw [← hperm.count_eq k, List.map_append, List.count_append]
  rfl

/-- **Every call is sorted into exactly one group.** -/
theorem partitionCalls_ids (env : Env) (s : AgentState) (now : ℚ) :
    ((partitionCalls env s now).okCalls.map ToolCall.id ++
      (partitionCalls env s now).failed.map ToolCall.id ++
      (partitionCalls env s now).rearmSuppressed.map ToolCall.id ++
      (partitionCalls env s now).held.map ToolCall.id).Perm
    ((pendingCalls s.messages).calls.map ToolCall.id) := by
  have hfloor : ToolCall.id ∘ floorInvalidation env s = ToolCall.id :=
    funext fun tc => floorInvalidation_id tc
  rw [List.perm_iff_count]
  intro k
  simp only [partitionCalls, Partition.held, List.map_append, List.count_append, List.map_map,
    hfloor, okCallsOf]
  have hok := count_gate (pendingCalls s.messages).isOk (pendingCalls s.messages).calls k
  have hresearch := count_gate (heldInResearch s) (okCallsOf (pendingCalls s.messages)) k
  have hdata := count_gate (heldForData s)
    (passing (heldInResearch s) (okCallsOf (pendingCalls s.messages))) k
  have hbeat := count_gate (heldByHeartbeat env s now) (passing (heldForData s)
    (passing (heldInResearch s) (okCallsOf (pendingCalls s.messages)))) k
  have hrearm := count_gate (isSuppressedRearm env s) (passing (heldByHeartbeat env s now)
    (passing (heldForData s)
      (passing (heldInResearch s) (okCallsOf (pendingCalls s.messages))))) k
  simp only [okCallsOf] at hresearch hdata hbeat hrearm
  omega

theorem mem_passing {gate : ToolCall → Bool} {calls : List ToolCall} {tc : ToolCall} :
    tc ∈ passing gate calls ↔ tc ∈ calls ∧ gate tc = false := by
  simp [passing]

theorem not_declare_of_passing {gate : ToolCall → Bool} {calls : List ToolCall} {closed : Bool}
    (hgate : ∀ tc, gate tc = (closed && isDeclare tc)) (hheld : calls.filter gate ≠ [])
    {tc : ToolCall} (htc : tc ∈ passing gate calls) : isDeclare tc = false := by
  obtain ⟨x, hx⟩ := List.exists_mem_of_ne_nil _ hheld
  have hclosed : closed = true := by
    have := (List.mem_filter.mp hx).2
    rw [hgate, Bool.and_eq_true] at this
    exact this.1
  have := (mem_passing.mp htc).2
  rwa [hgate, hclosed, Bool.true_and] at this

/-- A declaration held by one gate leaves none for the later gates. -/
theorem partitionCalls_exclusive (env : Env) (s : AgentState) (now : ℚ) :
    ((partitionCalls env s now).researchBlocked ≠ [] →
      (partitionCalls env s now).blocked = [] ∧ (partitionCalls env s now).heartbeatGated = []) ∧
    ((partitionCalls env s now).blocked ≠ [] → (partitionCalls env s now).heartbeatGated = []) := by
  simp only [partitionCalls, List.filter_eq_nil_iff]
  refine ⟨fun h => ⟨fun tc htc => ?_, fun tc htc => ?_⟩, fun h tc htc => ?_⟩
  · have := not_declare_of_passing (fun _ => rfl) h htc
    simp [heldForData, this]
  · have := not_declare_of_passing (fun _ => rfl) h (mem_passing.mp htc).1
    simp [heldByHeartbeat, this]
  · have := not_declare_of_passing (fun _ => rfl) h htc
    simp [heldByHeartbeat, this]

theorem heldAnswers_answers (env : Env) (s : AgentState) (now : ℚ) :
    Answers (heldAnswers env s now) ((partitionCalls env s now).held.map ToolCall.id) := by
  obtain ⟨hresearch, hblocked⟩ := partitionCalls_exclusive env s now
  have hmap : ∀ content (calls : List ToolCall),
      Answers (calls.map (answer content "declare_trade")) (calls.map ToolCall.id) :=
    fun content calls => .map (fun tc => ⟨content, _, rfl⟩) calls
  simp only [heldAnswers, Partition.held]
  set parts := partitionCalls env s now
  by_cases h1 : parts.researchBlocked = []
  · by_cases h2 : parts.blocked = []
    · simpa [h1, h2] using hmap _ parts.heartbeatGated
    · have hnil := hblocked h2
      simpa [h1, h2, hnil] using hmap _ parts.blocked
  · obtain ⟨hb, hh⟩ := hresearch h1
    simpa [h1, hb, hh] using hmap _ parts.researchBlocked

theorem toolOutputs_answers (hlen : results.length = (partitionCalls env s now).okCalls.length) :
    Answers (toolOutputs env s now results)
      ((partitionCalls env s now).okCalls.map ToolCall.id ++
        (partitionCalls env s now).failed.map ToolCall.id ++
        (partitionCalls env s now).rearmSuppressed.map ToolCall.id) := by
  refine ((Answers.executed hlen).append ?_).append ?_
  · exact .map (fun tc => ⟨_, _, rfl⟩) _
  · exact .map (fun tc => ⟨_, _, rfl⟩) _

/-- What an execution of `tool_node` is. -/
theorem toolNode_cases (h : toolNode env threadId s now results p = some (s', p')) :
    results.length = (partitionCalls env s now).okCalls.length ∧
    ((toolDecision env s now results = none ∧ s' = toolNext env s now results ∧ p' = p) ∨
      ∃ d closing, toolDecision env s now results = some d ∧
        (∀ m ∈ closing, m.IsPlain) ∧
        p' = (finalizeDecision env threadId s d p).2 ∧
        s' = { toolNext env s now results with
          messages := (toolNext env s now results).messages ++ closing
          decision := some (finalizeDecision env threadId s d p).1 }) := by
  unfold toolNode at h
  simp only at h
  split at h
  · rename_i hlen
    refine ⟨hlen, ?_⟩
    split at h
    · rename_i hd
      cases h
      exact .inl ⟨hd, rfl, rfl⟩
    · rename_i d hd
      cases h
      refine .inr ⟨d, _, hd, ?_, rfl, rfl⟩
      intro m hm
      split at hm
      · cases hm
      · rw [List.mem_singleton.mp hm]
        exact finalMessage_plain _ _
  · cases h

/-- **`tool_node` answers every call of the latest message exactly once.** -/
theorem toolNode_messages (h : toolNode env threadId s now results p = some (s', p')) :
    ∃ out closing ids, s'.messages = s.messages ++ out ++ closing ∧ Answers out ids ∧
      ids.Perm ((pendingCalls s.messages).calls.map ToolCall.id) ∧
      ∀ m ∈ closing, m.IsPlain := by
  obtain ⟨hlen, hcases⟩ := toolNode_cases h
  have hout := (toolOutputs_answers hlen).append (heldAnswers_answers env s now)
  have hids := partitionCalls_ids env s now
  rcases hcases with ⟨-, rfl, -⟩ | ⟨d, closing, -, hplain, -, rfl⟩
  · exact ⟨_, [], _, by simp [toolNext], hout, hids, by simp⟩
  · exact ⟨_, closing, _, by simp [toolNext], hout, hids, hplain⟩

/-! ### Frames -/

@[simp] theorem noteResume_decision : (noteResume env s out).decision = s.decision := by
  unfold noteResume; split <;> rfl

@[simp] theorem noteResume_mode : (noteResume env s out).mode = s.mode := by
  unfold noteResume; split <;> rfl

@[simp] theorem noteResume_qaTurns : (noteResume env s out).qaTurns = s.qaTurns := by
  unfold noteResume; split <;> rfl

@[simp] theorem noteResume_debateTurns :
    (noteResume env s out).debateTurns = s.debateTurns := by
  unfold noteResume; split <;> rfl

@[simp] theorem noteResume_bullStance :
    (noteResume env s out).bullStance = s.bullStance := by
  unfold noteResume; split <;> rfl

@[simp] theorem noteResume_bearStance :
    (noteResume env s out).bearStance = s.bearStance := by
  unfold noteResume; split <;> rfl

/-- The turn charged for an accepted heartbeat among the results. -/
def heartbeatCharge (env : Env) (s : AgentState) (out : List Message) : ℕ :=
  if out.findSome? resumeMarker = some .heartbeat ∧ s.heartbeatCount < env.cfg.heartbeatMax
  then 1 else 0

theorem noteResume_sessionTurns (env : Env) (s : AgentState) (out : List Message) :
    (noteResume env s out).sessionTurns = s.sessionTurns + heartbeatCharge env s out := by
  unfold noteResume heartbeatCharge
  split
  · rename_i hr
    simp [hr]
  · rename_i hr
    simp [hr, accountHeartbeat_turns]
  · rename_i hinv hhb
    rw [if_neg (fun h => hhb h.1)]
    rfl

theorem withCurrentRead_action (h : Host) (d : Decision) :
    (withCurrentRead h d).action = d.action := by
  unfold withCurrentRead
  split <;> rfl

theorem forceHold_eq (env : Env) (threadId : Option String) (s : AgentState) (p : Process) :
    ∃ closing d p', forceHold env threadId s p =
    ({ s with messages := s.messages ++ [closing], decision := some d }, p') ∧
      closing.IsPlain ∧ p' = (finalizeDecision env threadId s forcedHold p).2 ∧
      d = withCurrentRead env.host (finalizeDecision env threadId s forcedHold p).1 :=
  ⟨_, _, _, rfl, ⟨rfl, rfl⟩, rfl, rfl⟩

end

end AiTrader.Agent
