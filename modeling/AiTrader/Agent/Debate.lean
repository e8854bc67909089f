import AiTrader.Agent.Nodes

/-! # The debate roles

The Bull and the Bear argue over the gathered evidence; the Judge weighs both and commits.  The
Judge has a model loop of its own: declarations are executed and, when the validator rejects
them, revised; a bounded number of read-only calls is executed; everything else is refused.

* `resolveDebateConfig`: the resolved configuration carries its bounds.
* `judgeRun`: the loop, with the requests it has made and the read-only calls it has executed.
* `judgeNode`: it commits a decision whether or not the loop has reached one. -/

namespace AiTrader.Agent

open Text

/-! ### Configuration -/

/-- `TURNS_PER_ROUND`. -/
def turnsPerRound : ℕ := 2

/-- `MAX_TURNS_CAP`. -/
def maxTurnsCap : ℕ := 5 * turnsPerRound + 1

/-- The part of `DebateConfig` that the graph reads. -/
structure DebateConfig where
  rounds : ℕ
  maxTurns : ℕ
  judgeMaxToolCalls : ℕ
  rounds_pos : 1 ≤ rounds
  rounds_le : rounds ≤ 5
  maxTurns_ge : rounds * turnsPerRound + 1 ≤ maxTurns
  maxTurns_le : maxTurns ≤ maxTurnsCap
  judgeMaxToolCalls_le : judgeMaxToolCalls ≤ 5

/-- `_resolve_int_in_range`, for bounds that are not negative. -/
def resolveIntInRange (h : Host) (raw : Option String) (default low high : ℕ) : ℕ :=
  match raw.bind (fun r => if strip r = "" then none else h.parseInt (strip r)) with
  | some value => if value < low ∨ (high : ℤ) < value then default else value.toNat
  | none => default

theorem resolveIntInRange_bounds (h : Host) (raw : Option String) {default low high : ℕ}
    (hlow : low ≤ default) (hhigh : default ≤ high) :
    low ≤ resolveIntInRange h raw default low high ∧
      resolveIntInRange h raw default low high ≤ high := by
  unfold resolveIntInRange
  split
  · split
    · exact ⟨hlow, hhigh⟩
    · omega
  · exact ⟨hlow, hhigh⟩

/-- `DEBATE_ROUNDS`, resolved. -/
def resolveRounds (h : Host) (getenv : String → Option String) : ℕ :=
  resolveIntInRange h (getenv "DEBATE_ROUNDS") 1 1 5

theorem resolveRounds_bounds (h : Host) (getenv : String → Option String) :
    1 ≤ resolveRounds h getenv ∧ resolveRounds h getenv ≤ 5 :=
  resolveIntInRange_bounds h _ (by omega) (by omega)

/-- `_derived_max_turns`. -/
def derivedMaxTurns (rounds : ℕ) : ℕ := rounds * turnsPerRound + 1

theorem resolveMaxTurns_bounds (h : Host) (getenv : String → Option String) (raw : Option String) :
    derivedMaxTurns (resolveRounds h getenv) ≤ resolveIntInRange h raw
      (derivedMaxTurns (resolveRounds h getenv)) (derivedMaxTurns (resolveRounds h getenv))
      maxTurnsCap ∧
    resolveIntInRange h raw (derivedMaxTurns (resolveRounds h getenv))
      (derivedMaxTurns (resolveRounds h getenv)) maxTurnsCap ≤ maxTurnsCap := by
  have hle := (resolveRounds_bounds h getenv).2
  refine resolveIntInRange_bounds h raw le_rfl ?_
  simp only [derivedMaxTurns, maxTurnsCap, turnsPerRound]
  omega

/-- `resolve_debate_config`, from the environment. -/
def resolveDebateConfig (h : Host) (getenv : String → Option String) : DebateConfig where
  rounds := resolveRounds h getenv
  maxTurns := resolveIntInRange h (getenv "DEBATE_MAX_TURNS")
    (derivedMaxTurns (resolveRounds h getenv)) (derivedMaxTurns (resolveRounds h getenv))
    maxTurnsCap
  judgeMaxToolCalls := resolveIntInRange h (getenv "DEBATE_JUDGE_MAX_TOOL_CALLS") 2 0 5
  rounds_pos := (resolveRounds_bounds h getenv).1
  rounds_le := (resolveRounds_bounds h getenv).2
  maxTurns_ge := (resolveMaxTurns_bounds h getenv _).1
  maxTurns_le := (resolveMaxTurns_bounds h getenv _).2
  judgeMaxToolCalls_le := (resolveIntInRange_bounds h _ (by omega) (by omega)).2

/-! ### The Bull and the Bear -/

inductive Role where
  | bull | bear
deriving DecidableEq, Repr

def Role.text : Role → String
  | .bull => "bull"
  | .bear => "bear"

/-- The role's reasoning, if it has any text. -/
def roleMessages : Option String → List Message
  | some content => if strip content = "" then [] else [.aiText content]
  | none => []

/-- `_run_debate_role`; `answer` is `none` when the invocation failed. -/
def runDebateRole (env : Env) (role : Role) (s : AgentState) (answer : Option String) :
    AgentState :=
  let stance := env.stanceOf role.text answer
  { s with
    messages := s.messages ++ roleMessages answer
    debateTurns := s.debateTurns + 1
    phase := some .debate
    bullStance := if role = .bull then some stance else s.bullStance
    bearStance := if role = .bear then some stance else s.bearStance }

/-- `bull_node`: the round is derived from the turn counter. -/
def bullNode (env : Env) (s : AgentState) (answer : Option String) : AgentState :=
  runDebateRole env .bull { s with debateRound := s.debateTurns / turnsPerRound + 1 } answer

/-- `bear_node`. -/
def bearNode (env : Env) (s : AgentState) (answer : Option String) : AgentState :=
  runDebateRole env .bear s answer

inductive DebateRoute where
  | bull | judge
deriving DecidableEq, Repr

/-- `route_debate`. -/
def routeDebate (cfg : DebateConfig) (s : AgentState) : DebateRoute :=
  let debateRound := if s.debateRound = 0 then 1 else s.debateRound
  if debateRound < cfg.rounds ∧ s.debateTurns < cfg.maxTurns then .bull else .judge

/-! ### The Judge -/

/-- What one iteration of the Judge's loop meets: the response (`none` when the invocation
failed) and the executor's results. -/
structure JudgeTurn where
  response : Option Response
  declareResults : List String := []
  readonlyResults : List String := []

/-- The Judge's loop: the messages it adds, the read-only calls it has executed with their
counter, the message lists its model was invoked on, and the decision once it is made. -/
structure JudgeState where
  messages : List Message := []
  readonlyUsed : ℕ := 0
  readonlyRuns : List ToolCall := []
  requests : List (List Message) := []
  decision : Option Decision := none

/-- The model is invoked on the messages so far. -/
def JudgeState.ask (st : JudgeState) : JudgeState :=
  { st with requests := st.requests ++ [st.messages] }

inductive LoopControl where
  | break | continue
deriving DecidableEq, Repr

def judgeWatchNote : String :=
  "watch_price_condition is not available to the Judge: weigh the " ++
  "shared evidence and either declare_trade (BUY/SELL) or declare a HOLD."

def judgeBudgetNote (budget : ℕ) : String :=
  "Judge read-only tool budget exhausted (" ++ toString budget ++ "). Do not " ++
  "gather more data — weigh the existing shared evidence and " ++
  "declare your decision (declare_trade BUY/SELL or HOLD) now."

/-- The Judge's assistant message. -/
def judgeMessage (r : Response) : Message :=
  .ai r.content (r.calls.map ExtractedCall.toCall) [] []

/-- The feedback for a malformed call of the Judge. -/
def judgeFailedAnswer (h : Host) (c : ExtractedCall) : Message :=
  answer (syntheticFailureContent h c) (if c.name = "" then "unknown_tool" else c.name) c.toCall

/-- The ok calls of a response. -/
def judgeOk (r : Response) : List ExtractedCall := r.calls.filter ExtractedCall.isOk

def isDeclareCall (c : ExtractedCall) : Bool := isDeclare c.toCall

def isWatchCall (c : ExtractedCall) : Bool := isWatch c.toCall

/-- `c.name not in DEBATE_READONLY_EXCLUDED_TOOLS`. -/
def isReadonlyCall (c : ExtractedCall) : Bool := !isDeclareCall c && !isWatchCall c

/-- The response with the answers to its malformed and its suspending calls. -/
def judgeOpening (h : Host) (r : Response) : List Message :=
  judgeMessage r :: ((r.calls.filter (fun c => !c.isOk)).map (judgeFailedAnswer h) ++
    ((judgeOk r).filter isWatchCall).map fun c =>
      answer judgeWatchNote "watch_price_condition" c.toCall)

/-- The ok declarations of a response. -/
def judgeDeclares (r : Response) : List ToolCall :=
  ((judgeOk r).filter isDeclareCall).map ExtractedCall.toCall

/-- The ok calls that are neither declarations nor watches. -/
def judgeReadonly (r : Response) : List ToolCall :=
  ((judgeOk r).filter isReadonlyCall).map ExtractedCall.toCall

/-- The read-only calls in order: executed while the budget lasts, refused after. -/
def clarify (budget : ℕ) : ℕ → List ToolCall → List String → Option (List Message × List ToolCall)
  | _, [], [] => some ([], [])
  | _, [], _ :: _ => none
  | used, tc :: calls, results =>
      if budget ≤ used then
        (clarify budget used calls results).map fun r =>
          (answer (judgeBudgetNote budget) tc.name tc :: r.1, r.2)
      else match results with
        | [] => none
        | content :: results =>
            (clarify budget (used + 1) calls results).map fun r =>
              (answer content tc.name tc :: r.1, tc :: r.2)

/-- One iteration, after the model has answered. -/
def judgeStep (env : Env) (budget : ℕ) (st : JudgeState) (r : Response) (turn : JudgeTurn) :
    Option (JudgeState × LoopControl) :=
  let opened := { st with messages := st.messages ++ judgeOpening env.host r }
  let declares := judgeDeclares r
  if !declares.isEmpty then
    if turn.declareResults.length = declares.length then
      let out := executed declares turn.declareResults
      let st := { opened with messages := opened.messages ++ out }
      if declareWasRejected out then some (st, .continue)
      else some ({ st with decision := decisionFromDeclare env.host declares }, .break)
    else none
  else if !(judgeReadonly r).isEmpty then
    (clarify budget st.readonlyUsed (judgeReadonly r) turn.readonlyResults).map fun c =>
      ({ opened with
          messages := opened.messages ++ c.1
          readonlyUsed := opened.readonlyUsed + c.2.length
          readonlyRuns := opened.readonlyRuns ++ c.2 }, .continue)
  else if !(judgeOk r).isEmpty then some (opened, .continue)
  else some (opened, .break)

/-- The loop, for the iterations left; the turns are exactly those it takes. -/
def judgeLoop (env : Env) (budget : ℕ) : ℕ → JudgeState → List JudgeTurn → Option JudgeState
  | 0, st, [] => some st
  | 0, _, _ :: _ => none
  | _ + 1, _, [] => none
  | fuel + 1, st, turn :: turns =>
      match turn.response with
      | none => if turns.isEmpty then some st.ask else none
      | some r =>
          match judgeStep env budget st.ask r turn with
          | none => none
          | some (st, .break) => if turns.isEmpty then some st else none
          | some (st, .continue) => judgeLoop env budget fuel st turns

/-- The HOLD of a debate without a validated trade. -/
def debateHold (consensus : String) (conviction : ℕ) : Decision where
  action := "HOLD"
  convictionScore := .int 0
  reason := some "no-decision-reached"
  setupValidation := .str (
    "The Bull/Bear debate reached a '" ++ consensus ++ "' consensus (derived conviction " ++
    toString conviction ++ "); the Judge committed no validated A+ trade within the bounded " ++
    "debate budget. Holding to preserve capital rather than force a low-conviction trade.")
  executionPlan := .str "HOLD — no trade taken (the debate produced no validated setup)."
  source := "debate_hold"

/-- The Judge's loop from its start: `budget + 2` iterations at most. -/
def judgeRun (env : Env) (cfg : DebateConfig) (turns : List JudgeTurn) : Option JudgeState :=
  judgeLoop env cfg.judgeMaxToolCalls (cfg.judgeMaxToolCalls + 2) {} turns

/-- `judge_node`. -/
def judgeNode (env : Env) (cfg : DebateConfig) (threadId : Option String) (s : AgentState)
    (turns : List JudgeTurn) (p : Process) : Option (AgentState × Process) :=
  (judgeRun env cfg turns).map fun st =>
    let next := { s with
      messages := s.messages ++ st.messages
      debateTurns := s.debateTurns + 1
      phase := some .debate }
    match st.decision with
    | some d =>
        let (d, p) := finalizeDecision env threadId s d p
        ({ next with decision := some d }, p)
    | none =>
        let (consensus, conviction) := env.synthesis s.bullStance s.bearStance
        let (d, p) := finalizeDecision env threadId s (debateHold consensus conviction) p
        ({ next with
            messages := next.messages ++ [finalMessage env.host d]
            decision := some d }, p)

/-! ### What the Judge does -/

section
variable {env : Env} {cfg : DebateConfig} {threadId : Option String} {s s' : AgentState}
  {p p' : Process} {budget fuel : ℕ} {st st' : JudgeState} {turns : List JudgeTurn}

/-- **Rule of the loop.**  What holds at its start, survives the model's invocation and is kept
by every iteration holds at its end. -/
theorem judgeLoop_rule {I : ℕ → JudgeState → Prop}
    (hask : ∀ fuel st, I (fuel + 1) st → I fuel st.ask)
    (hstep : ∀ fuel st r turn st' ctl, turn ∈ turns → turn.response = some r → I fuel st →
      judgeStep env budget st r turn = some (st', ctl) → I fuel st')
    (h : judgeLoop env budget fuel st turns = some st') (hst : I fuel st) :
    ∃ fuel', I fuel' st' := by
  induction fuel generalizing st turns with
  | zero =>
      cases turns with
      | nil =>
          cases h
          exact ⟨0, hst⟩
      | cons turn turns => cases h
  | succ fuel ih =>
      cases turns with
      | nil => cases h
      | cons turn turns =>
          have hasked := hask fuel st hst
          simp only [judgeLoop] at h
          cases hr : turn.response with
          | none =>
              simp only [hr] at h
              split at h
              · cases h
                exact ⟨fuel, hasked⟩
              · cases h
          | some r =>
              simp only [hr] at h
              split at h
              · cases h
              · rename_i st₁ hs
                have hst₁ := hstep fuel _ r turn st₁ _ List.mem_cons_self hr hasked hs
                split at h
                · cases h
                  exact ⟨fuel, hst₁⟩
                · cases h
              · rename_i st₁ hs
                have hst₁ := hstep fuel _ r turn st₁ _ List.mem_cons_self hr hasked hs
                exact ih (fun n st r x st' ctl hx => hstep n st r x st' ctl
                  (List.mem_cons_of_mem _ hx)) h hst₁

/-- An iteration that ends with a decision: the first declaration of its response, all of them
executed and none rejected. -/
structure JudgeTurn.Decides (h : Host) (turn : JudgeTurn) (r : Response) (d : Decision) :
    Prop where
  response : turn.response = some r
  complete : turn.declareResults.length = (judgeDeclares r).length
  accepted : declareWasRejected (executed (judgeDeclares r) turn.declareResults) = false
  declared : decisionFromDeclare h (judgeDeclares r) = some d

theorem judgeStep_decision {r : Response} {turn : JudgeTurn} {ctl : LoopControl}
    (hr : turn.response = some r) (h : judgeStep env budget st r turn = some (st', ctl)) :
    st'.decision = st.decision ∨ ∀ d ∈ st'.decision, turn.Decides env.host r d := by
  simp only [judgeStep] at h
  split at h
  · split at h
    · rename_i hlen
      split at h
      · cases h
        exact .inl rfl
      · rename_i hrejected
        cases h
        exact .inr fun d hd => ⟨hr, hlen, by simpa using hrejected, hd⟩
    · cases h
  · split at h
    · obtain ⟨c, -, heq⟩ := Option.map_eq_some_iff.mp h
      cases heq
      exact .inl rfl
    · split at h <;> cases h <;> exact .inl rfl

theorem judgeRun_decision {d : Decision} (h : judgeRun env cfg turns = some st)
    (hd : st.decision = some d) : ∃ turn ∈ turns, ∃ r, turn.Decides env.host r d := by
  obtain ⟨-, hst⟩ := judgeLoop_rule
    (I := fun _ st => ∀ d ∈ st.decision, ∃ turn ∈ turns, ∃ r, turn.Decides env.host r d)
    (fun _ st hst => hst)
    (fun _ st r turn st' ctl hturn hr hst hs d hd => by
      rcases judgeStep_decision hr hs with hkeep | hnew
      · exact hst d (hkeep ▸ hd)
      · exact ⟨turn, hturn, r, hnew d hd⟩)
    h (by simp)
  exact hst d hd

/-- The decision that `judge_node` hands to the chokepoint. -/
def judgeProposal (env : Env) (s : AgentState) (st : JudgeState) : Decision :=
  st.decision.getD (debateHold (env.synthesis s.bullStance s.bearStance).1
    (env.synthesis s.bullStance s.bearStance).2)

theorem judgeNode_cases (h : judgeNode env cfg threadId s turns p = some (s', p')) :
    ∃ st closing, judgeRun env cfg turns = some st ∧ (∀ m ∈ closing, m.IsPlain) ∧
      p' = (finalizeDecision env threadId s (judgeProposal env s st) p).2 ∧
      s' = { s with
        messages := s.messages ++ st.messages ++ closing
        debateTurns := s.debateTurns + 1
        phase := some .debate
        decision := some (finalizeDecision env threadId s (judgeProposal env s st) p).1 } := by
  obtain ⟨st, hst, heq⟩ := Option.map_eq_some_iff.mp h
  simp only at heq
  split at heq
  · rename_i d hd
    have hproposal : judgeProposal env s st = d := by
      rw [judgeProposal, hd]
      rfl
    cases heq
    exact ⟨st, [], hst, by simp, by rw [hproposal], by rw [hproposal, List.append_nil]⟩
  · rename_i hd
    have hproposal : judgeProposal env s st = debateHold
        (env.synthesis s.bullStance s.bearStance).1
        (env.synthesis s.bullStance s.bearStance).2 := by
      rw [judgeProposal, hd]
      rfl
    cases heq
    refine ⟨st, _, hst, ?_, by rw [hproposal], by rw [hproposal]⟩
    intro m hm
    rw [List.mem_singleton.mp hm]
    exact finalMessage_plain _ _

end

end AiTrader.Agent
