import AiTrader.Agent.Graph

/-! # The debate protocol

`debate_protocol`: in a DEBATE run from a fresh thread, when the Judge is reached the Bull and the
Bear have spoken in turn, the Bull first, exactly `rounds` times each, and both stances are set;
no directional decision exists before the Judge has run; the Judge invokes its model at most
`judge_max_tool_calls + 2` times and executes at most `judge_max_tool_calls` read-only calls; and
after it a decision is set and the run has ended.

The round is derived from the turn counter in `bull_node` and compared in `route_debate`;
`DebateStage` says at each node where the counter stands. -/

namespace AiTrader.Agent

open Text Transition

variable {env : Env} {cfg : DebateConfig} {threadId : Option String} {t t' : Thread}
  {s s' : AgentState} {p p' : Process} {ev : Event} {now : ℚ} {results : List String}
  {roles : List Role} {judged : Bool}

/-! ### The Judge's budgets -/

theorem clarify_runs {budget used : ℕ} {calls : List ToolCall} {c : List Message × List ToolCall}
    (h : clarify budget used calls results = some c) (hused : used ≤ budget) :
    used + c.2.length ≤ budget := by
  induction calls generalizing used results c with
  | nil =>
      cases results with
      | nil =>
          simp only [clarify, Option.some.injEq] at h
          subst h
          simpa using hused
      | cons r results => simp [clarify] at h
  | cons tc calls ih =>
      simp only [clarify] at h
      split at h
      · obtain ⟨c', hc', rfl⟩ := Option.map_eq_some_iff.mp h
        have hrest : used + c'.2.length ≤ budget := ih hc' hused
        exact hrest
      · split at h
        · cases h
        · obtain ⟨c', hc', rfl⟩ := Option.map_eq_some_iff.mp h
          have hrest := ih hc' (by omega)
          simp only [List.length_cons]
          omega

/-- The counter of the loop counts the executed calls and stays within the budget. -/
structure WithinReadonly (budget : ℕ) (st : JudgeState) : Prop where
  counted : st.readonlyUsed = st.readonlyRuns.length
  le : st.readonlyUsed ≤ budget

theorem judgeStep_budget {budget : ℕ} {st st' : JudgeState} {r : Response} {turn : JudgeTurn}
    {ctl : LoopControl} (hst : WithinReadonly budget st)
    (h : judgeStep env budget st r turn = some (st', ctl)) :
    WithinReadonly budget st' ∧ st'.requests = st.requests := by
  simp only [judgeStep] at h
  split at h
  · split at h
    · split at h <;> cases h <;> exact ⟨⟨hst.counted, hst.le⟩, rfl⟩
    · cases h
  · split at h
    · obtain ⟨c, hc, heq⟩ := Option.map_eq_some_iff.mp h
      cases heq
      have hruns := clarify_runs hc hst.le
      refine ⟨⟨?_, hruns⟩, rfl⟩
      show st.readonlyUsed + c.2.length = (st.readonlyRuns ++ c.2).length
      rw [List.length_append, hst.counted]
    · split at h <;> cases h <;> exact ⟨⟨hst.counted, hst.le⟩, rfl⟩

/-- **The Judge's budgets**: model calls, one for each iteration, and executed read-only
calls. -/
theorem judgeRun_budget {turns : List JudgeTurn} {st : JudgeState}
    (h : judgeRun env cfg turns = some st) :
    st.requests.length ≤ cfg.judgeMaxToolCalls + 2 ∧
      st.readonlyRuns.length ≤ cfg.judgeMaxToolCalls := by
  obtain ⟨fuel, hst, hlen⟩ := judgeLoop_rule
    (I := fun fuel st => WithinReadonly cfg.judgeMaxToolCalls st ∧
      st.requests.length + fuel = cfg.judgeMaxToolCalls + 2)
    (fun fuel st hst => by
      have hasked : st.ask.requests.length = st.requests.length + 1 := by simp [JudgeState.ask]
      exact ⟨⟨hst.1.counted, hst.1.le⟩, by omega⟩)
    (fun fuel st r turn st' ctl hturn hr hst hs => by
      obtain ⟨hwithin, hrequests⟩ := judgeStep_budget hst.1 hs
      exact ⟨hwithin, by rw [hrequests]; exact hst.2⟩)
    h ⟨⟨rfl, Nat.zero_le _⟩, Nat.zero_add _⟩
  have hruns := hst.le
  rw [hst.counted] at hruns
  exact ⟨by omega, hruns⟩

/-! ### The Judge finishes -/

/-- An iteration whose calls are executed by `exec`, after `used` read-only calls. -/
def turnWith (exec : ToolCall → String) (budget used : ℕ) : Option Response → JudgeTurn
  | none => { response := none }
  | some r =>
      { response := some r
        declareResults := (judgeDeclares r).map exec
        readonlyResults := ((judgeReadonly r).take (budget - used)).map exec }

theorem clarify_isSome (exec : ToolCall → String) (budget used : ℕ) (calls : List ToolCall) :
    (clarify budget used calls ((calls.take (budget - used)).map exec)).isSome = true := by
  induction calls generalizing used with
  | nil => simp [clarify]
  | cons tc calls ih =>
      simp only [clarify]
      by_cases hspent : budget ≤ used
      · have hrest := ih used
        have hzero : budget - used = 0 := by omega
        rw [hzero, List.take_zero, List.map_nil] at hrest ⊢
        rw [if_pos hspent, Option.isSome_map]
        exact hrest
      · have hleft : budget - used = budget - (used + 1) + 1 := by omega
        rw [if_neg hspent, hleft, List.take_succ_cons, List.map_cons]
        simp only [Option.isSome_map]
        exact ih (used + 1)

theorem judgeStep_isSome (env : Env) (exec : ToolCall → String) (budget : ℕ) (st : JudgeState)
    (r : Response) :
    (judgeStep env budget st r (turnWith exec budget st.readonlyUsed (some r))).isSome = true := by
  have hlen : (turnWith exec budget st.readonlyUsed (some r)).declareResults.length =
      (judgeDeclares r).length := by simp [turnWith]
  have hclarify : (clarify budget st.readonlyUsed (judgeReadonly r)
      (turnWith exec budget st.readonlyUsed (some r)).readonlyResults).isSome = true :=
    clarify_isSome exec budget st.readonlyUsed (judgeReadonly r)
  generalize turnWith exec budget st.readonlyUsed (some r) = turn at hlen hclarify
  simp only [judgeStep, hlen, if_true]
  split
  · split <;> rfl
  · split
    · rw [Option.isSome_map]
      exact hclarify
    · split <;> rfl

/-- Whatever the model responds and the executor answers, the loop comes to its end. -/
theorem judgeLoop_completes (env : Env) (exec : ToolCall → String) {budget fuel : ℕ} (st : JudgeState)
    {responses : List (Option Response)} (hlen : fuel ≤ responses.length) :
    ∃ turns : List JudgeTurn, turns.map JudgeTurn.response <+: responses ∧
      (∀ turn ∈ turns, ∃ used, turn = turnWith exec budget used turn.response) ∧
      (judgeLoop env budget fuel st turns).isSome = true := by
  induction fuel generalizing st responses with
  | zero => exact ⟨[], List.nil_prefix, by simp, rfl⟩
  | succ fuel ih =>
      cases responses with
      | nil => simp at hlen
      | cons response responses =>
          have hlen' : fuel ≤ responses.length := by simpa using hlen
          set turn := turnWith exec budget st.ask.readonlyUsed response with hturn
          have hresponse : turn.response = response := by
            rw [hturn]
            cases response <;> rfl
          have hplayed : ∃ used, turn = turnWith exec budget used turn.response :=
            ⟨st.ask.readonlyUsed, by rw [hresponse]⟩
          -- the loop stops after this iteration
          have hone : [turn].map JudgeTurn.response <+: response :: responses := by
            simp [hresponse]
          cases response with
          | none =>
              refine ⟨[turn], hone, by simpa using hplayed, ?_⟩
              simp [judgeLoop, hresponse]
          | some r =>
              obtain ⟨⟨st', ctl⟩, hstep⟩ := Option.isSome_iff_exists.mp
                (judgeStep_isSome env exec budget st.ask r)
              rw [← hturn] at hstep
              cases ctl with
              | «break» =>
                  refine ⟨[turn], hone, by simpa using hplayed, ?_⟩
                  simp [judgeLoop, hresponse, hstep]
              | «continue» =>
                  obtain ⟨turns, hprefix, hturns, hsome⟩ := ih st' hlen'
                  refine ⟨turn :: turns, ?_, ?_, ?_⟩
                  · simpa [hresponse] using hprefix
                  · simpa using ⟨hplayed, hturns⟩
                  · simpa [judgeLoop, hresponse, hstep] using hsome

/-! ### The research phase -/

theorem partitionCalls_research (env : Env) (now : ℚ) (hphase : s.phase = some .research) :
    (partitionCalls env s now).blocked = [] ∧ (partitionCalls env s now).heartbeatGated = [] ∧
      ∀ tc ∈ (partitionCalls env s now).okCalls, isDeclare tc = false := by
  have hpass : ∀ tc ∈ passing (heldInResearch s) (okCallsOf (pendingCalls s.messages)),
      isDeclare tc = false := by
    intro tc htc
    have hheld := (mem_passing.mp htc).2
    simpa [heldInResearch, hphase] using hheld
  simp only [partitionCalls]
  refine ⟨?_, ?_, ?_⟩
  · rw [List.filter_eq_nil_iff]
    intro tc htc
    simp [heldForData, hpass tc htc]
  · rw [List.filter_eq_nil_iff]
    intro tc htc
    simp [heldByHeartbeat, hpass tc (mem_passing.mp htc).1]
  · intro tc htc
    obtain ⟨x, hx, rfl⟩ := List.mem_map.mp htc
    have hx₁ := (mem_passing.mp (mem_passing.mp hx).1).1
    have hdecl := hpass x (mem_passing.mp hx₁).1
    simpa [isDeclare, floorInvalidation_name] using hdecl

theorem toolDecision_research (env : Env) (now : ℚ) (results : List String)
    (hphase : s.phase = some .research) :
    toolDecision env s now results = none := by
  obtain ⟨hblocked, hgated, hok⟩ := partitionCalls_research env now hphase
  have hnone : decisionFromDeclare env.host (partitionCalls env s now).okCalls = none := by
    rw [decisionFromDeclare, Option.map_eq_none_iff, List.find?_eq_none]
    intro tc htc
    simp [hok tc htc]
  unfold toolDecision
  simp only [hblocked, hgated, hnone]
  split
  · rfl
  · simp

/-! ### The stages of a debate -/

/-- `n` rounds of the Bull and the Bear. -/
def alternation (n : ℕ) : List Role := (List.replicate n [Role.bull, Role.bear]).flatten

theorem alternation_succ (n : ℕ) : alternation (n + 1) = alternation n ++ [.bull, .bear] := by
  simp [alternation, List.replicate_succ', List.flatten_append]

/-- Where a DEBATE run stands when it has the given node pending, has heard the given role turns,
and has or has not been judged. -/
def DebateStage (cfg : DebateConfig) (s : AgentState) (roles : List Role) (judged : Bool) :
    Option Node → Prop
  | some .agent | some .forceHold | some .forceTerminal =>
      roles = [] ∧ s.debateTurns = 0 ∧ s.decision = none ∧ s.phase ≠ some .debate
  | some .tools =>
      roles = [] ∧ s.debateTurns = 0 ∧ s.decision = none ∧ s.phase = some .research
  | some .bull => ∃ k < cfg.rounds, s.debateTurns = turnsPerRound * k ∧ s.decision = none ∧
      roles = alternation k
  | some .bear => ∃ k < cfg.rounds, s.debateTurns = turnsPerRound * k + 1 ∧ s.decision = none ∧
      s.debateRound = k + 1 ∧ s.bullStance.isSome = true ∧ roles = alternation k ++ [.bull]
  | some .judge => s.decision = none ∧ s.bullStance.isSome = true ∧ s.bearStance.isSome = true ∧
      roles = alternation cfg.rounds
  | some .qaAgent | some .qaTools => False
  | none => judged = true ∨ ∀ d ∈ s.decision, d.action = "HOLD"

theorem stage_hold {n : Option Node} {d : Decision} (h : DebateStage cfg s roles false n)
    (hd : d ∈ s.decision) : d.action = "HOLD" := by
  have hopen : s.decision ≠ none := by
    rintro hnone
    rw [hnone] at hd
    cases hd
  cases n with
  | none =>
      rcases h with hjudged | hhold
      · cases hjudged
      · exact hhold d hd
  | some n =>
      cases n with
      | agent => exact absurd h.2.2.1 hopen
      | forceHold => exact absurd h.2.2.1 hopen
      | forceTerminal => exact absurd h.2.2.1 hopen
      | tools => exact absurd h.2.2.1 hopen
      | bull =>
          obtain ⟨k, -, -, hdec, -⟩ := h
          exact absurd hdec hopen
      | bear =>
          obtain ⟨k, -, -, hdec, -⟩ := h
          exact absurd hdec hopen
      | judge => exact absurd h.1 hopen
      | qaAgent => exact h.elim
      | qaTools => exact h.elim

/-- The invariant of a DEBATE run. -/
structure DebateInv (env : Env) (cfg : DebateConfig) (t : Thread) (roles : List Role)
    (judged : Bool) : Prop where
  mode : t.state.modeKey env.host = "DEBATE"
  stage : DebateStage cfg t.state roles judged t.next

/-- The role turn that an event is. -/
def roleOf : Event → Option Role
  | .bull _ => some .bull
  | .bear _ => some .bear
  | _ => none

def isJudge : Event → Bool
  | .judge _ => true
  | _ => false

def isInput : Event → Bool
  | .input _ => true
  | _ => false

/-! ### The steps -/

theorem callModel_phase (hmode : s.modeKey env.host = "DEBATE") (hphase : s.phase ≠ some .debate)
    (turn : ModelTurn) : (callModel env s turn).phase = some .research := by
  simp only [callModel, hmode, true_and]
  cases hp : s.phase with
  | none => simp
  | some ph =>
      cases ph with
      | research => simp
      | debate => exact absurd hp hphase

/-- A turn of the research phase leads to a stage of the debate. -/
theorem shouldContinue_stage (cfg : DebateConfig) (judged : Bool) (hturns : s.debateTurns = 0)
    (hdec : s.decision = none) (hphase : s.phase = some .research) (route : Route) :
    DebateStage cfg s [] judged route.node := by
  have hnot : s.phase ≠ some .debate := by
    rw [hphase]
    decide
  cases route with
  | «continue» => exact ⟨rfl, hturns, hdec, hphase⟩
  | suspend => exact ⟨rfl, hturns, hdec, hphase⟩
  | loopAgent => exact ⟨rfl, hturns, hdec, hnot⟩
  | forceHold => exact ⟨rfl, hturns, hdec, hnot⟩
  | forceTerminal => exact ⟨rfl, hturns, hdec, hnot⟩
  | debateHandoff => exact ⟨0, cfg.rounds_pos, hturns, hdec, rfl⟩
  | «end» =>
      right
      intro d hd
      rw [hdec] at hd
      cases hd

theorem debate_agent (hinv : DebateInv env cfg t roles judged) (turn : ModelTurn)
    (hnext : t.next = some .agent) :
    DebateInv env cfg ⟨callModel env t.state turn,
      (shouldContinue env (callModel env t.state turn) now).node⟩ roles judged := by
  have hstage := hinv.stage
  rw [hnext] at hstage
  obtain ⟨hroles, hturns, hdec, hphase⟩ := hstage
  subst hroles
  have hphase' := callModel_phase hinv.mode hphase turn
  have hturns' : (callModel env t.state turn).debateTurns = 0 := hturns
  have hdec' : (callModel env t.state turn).decision = none := hdec
  exact ⟨hinv.mode, shouldContinue_stage cfg judged hturns' hdec' hphase' _⟩

theorem debate_tools (hinv : DebateInv env cfg t roles judged) (hnext : t.next = some .tools)
    (hs : toolNode env threadId t.state now results p = some (s', p')) :
    DebateInv env cfg ⟨s', (routeAfterTools s').node⟩ roles judged := by
  have hstage := hinv.stage
  rw [hnext] at hstage
  obtain ⟨hroles, hturns, hdec, hphase⟩ := hstage
  have hnone := toolDecision_research env now results hphase
  obtain ⟨-, ⟨-, rfl, -⟩ | ⟨d, closing, hd, -, -, -⟩⟩ := toolNode_cases hs
  · have hdec' : (toolNext env t.state now results).decision = none := by
      rw [← hdec]
      exact noteResume_decision
    have hturns' : (toolNext env t.state now results).debateTurns = 0 := by
      rw [← hturns]
      exact noteResume_debateTurns
    have hmode' : (toolNext env t.state now results).mode = t.state.mode := noteResume_mode
    have hphase' : (toolNext env t.state now results).phase =
        if (partitionCalls env t.state now).researchBlocked.isEmpty then some .research
        else some .debate := by
      rw [← hphase]
      rfl
    have hmode : (toolNext env t.state now results).modeKey env.host = "DEBATE" := by
      simpa only [AgentState.modeKey, hmode'] using hinv.mode
    refine ⟨hmode, ?_⟩
    subst hroles
    by_cases hempty : (partitionCalls env t.state now).researchBlocked.isEmpty = true
    · rw [if_pos hempty] at hphase'
      have hroute : routeAfterTools (toolNext env t.state now results) = .agent := by
        simp [routeAfterTools, hdec', hphase']
      have hnot : (toolNext env t.state now results).phase ≠ some .debate := by
        rw [hphase']
        decide
      rw [hroute]
      exact ⟨rfl, hturns', hdec', hnot⟩
    · rw [if_neg hempty] at hphase'
      have hroute : routeAfterTools (toolNext env t.state now results) = .debateHandoff := by
        simp [routeAfterTools, hdec', hphase']
      rw [hroute]
      exact ⟨0, cfg.rounds_pos, hturns', hdec', rfl⟩
  · rw [hnone] at hd
    cases hd

theorem debate_bull (hinv : DebateInv env cfg t roles judged) (answer : Option String)
    (hnext : t.next = some .bull) :
    DebateInv env cfg ⟨bullNode env t.state answer, some .bear⟩ (roles ++ [.bull]) judged := by
  have hstage := hinv.stage
  rw [hnext] at hstage
  obtain ⟨k, hk, hturns, hdec, hroles⟩ := hstage
  have hround : t.state.debateTurns / turnsPerRound + 1 = k + 1 := by
    rw [hturns]
    simp only [turnsPerRound]
    omega
  refine ⟨hinv.mode, k, hk, ?_, hdec, hround, rfl, by rw [hroles]⟩
  show t.state.debateTurns + 1 = _
  rw [hturns]

theorem debate_bear (hinv : DebateInv env cfg t roles judged) (answer : Option String)
    (hnext : t.next = some .bear) :
    DebateInv env cfg ⟨bearNode env t.state answer,
      some (routeDebate cfg (bearNode env t.state answer)).node⟩ (roles ++ [.bear]) judged := by
  have hstage := hinv.stage
  rw [hnext] at hstage
  obtain ⟨k, hk, hturns, hdec, hround, hbull, hroles⟩ := hstage
  have hroles' : roles ++ [.bear] = alternation (k + 1) := by
    rw [hroles, alternation_succ, List.append_assoc]
    rfl
  have hturns' : (bearNode env t.state answer).debateTurns = turnsPerRound * (k + 1) := by
    show t.state.debateTurns + 1 = _
    rw [hturns]
    simp only [turnsPerRound]
    omega
  have hround' : (bearNode env t.state answer).debateRound = k + 1 := hround
  refine ⟨hinv.mode, ?_⟩
  show DebateStage cfg _ (roles ++ [.bear]) judged
    (some (routeDebate cfg (bearNode env t.state answer)).node)
  have hmax := cfg.maxTurns_ge
  by_cases hmore : k + 1 < cfg.rounds
  · -- the turn bound leaves room for every configured round
    have hlt : turnsPerRound * (k + 1) < cfg.maxTurns := by
      simp only [turnsPerRound] at hmax ⊢
      omega
    have hroute : routeDebate cfg (bearNode env t.state answer) = .bull := by
      simp [routeDebate, hturns', hround', hmore, hlt]
    rw [hroute]
    exact ⟨k + 1, hmore, hturns', hdec, hroles'⟩
  · have hlast : k + 1 = cfg.rounds := by omega
    have hroute : routeDebate cfg (bearNode env t.state answer) = .judge := by
      simp [routeDebate, hround', hmore]
    rw [hroute]
    exact ⟨hdec, hbull, rfl, by rw [hroles', hlast]⟩

/-- **One step of a DEBATE run.** -/
theorem DebateInv.step (hinv : DebateInv env cfg t roles judged)
    (h : Step env cfg threadId t p ev t' p') (hinput : isInput ev = false) :
    DebateInv env cfg t' (roles ++ (roleOf ev).toList) (judged || isJudge ev) := by
  cases h with
  | input i => cases hinput
  | agent turn now hnext =>
      simpa [roleOf, isJudge] using debate_agent hinv turn hnext
  | tools hnext hs => simpa [roleOf, isJudge] using debate_tools hinv hnext hs
  | forceHold hnext =>
      refine ⟨hinv.mode, .inr ?_⟩
      intro d hd
      obtain ⟨closing, d', p'', heq, -, -, hd'⟩ := forceHold_eq env threadId
        t.state p
      simp only [heq, Option.mem_def, Option.some.injEq] at hd
      rw [← hd, hd', withCurrentRead_action, (finalizeDecision_sameTrade ..).action]
      rfl
  | forceTerminal now hnext =>
      refine ⟨hinv.mode, .inr ?_⟩
      intro d hd
      simp only [forceTerminal, Option.mem_def, Option.some.injEq] at hd
      rw [← hd, (finalizeDecision_sameTrade ..).action]
      rfl
  | bull answer hnext => simpa [roleOf, isJudge] using debate_bull hinv answer hnext
  | bear answer hnext => simpa [roleOf, isJudge] using debate_bear hinv answer hnext
  | judge hnext hs =>
      obtain ⟨st, closing, -, -, -, rfl⟩ := judgeNode_cases hs
      exact ⟨hinv.mode, .inl (by simp [isJudge])⟩
  | qaAgent r hnext =>
      have hstage := hinv.stage
      rw [hnext] at hstage
      cases hstage
  | qaTools hnext hs =>
      have hstage := hinv.stage
      rw [hnext] at hstage
      cases hstage

/-! ### The run -/

/-- A fresh thread with its first input. -/
def freshRun (env : Env) (i : Input) : Thread :=
  ⟨i.apply {}, some (routeEntry env.host (i.apply {}))⟩

/-- The role turns of a run, in order. -/
def roleTurns (tr : List (Thread × Process × Event)) : List Role :=
  tr.filterMap fun x => roleOf x.2.2

theorem debate_run {i : Input} (hmode : (i.apply {}).modeKey env.host = "DEBATE")
    {tr : List (Thread × Process × Event)}
    (h : Path (threadStep env cfg threadId) (freshRun env i) tr t)
    (hinput : ∀ x ∈ tr, isInput x.2.2 = false) :
    DebateInv env cfg t (roleTurns tr) (tr.any fun x => isJudge x.2.2) := by
  induction h with
  | nil =>
      have hentry : routeEntry env.host (i.apply {}) = .agent := by
        rw [routeEntry, hmode]
        exact if_neg (by decide)
      refine ⟨hmode, ?_⟩
      show DebateStage cfg (i.apply {}) [] false (some (routeEntry env.host (i.apply {})))
      rw [hentry]
      cases i <;> exact ⟨rfl, rfl, rfl, by simp [Input.apply]⟩
  | @snoc tr t u a _ hs ih =>
      obtain ⟨q, ev⟩ := a
      obtain ⟨p', hstep⟩ := threadStep_step hs
      have hprev := ih fun x hx => hinput x (List.mem_append_left _ hx)
      have hnext := hprev.step hstep (hinput (t, q, ev) (by simp))
      have hroles : roleTurns (tr ++ [(t, q, ev)]) = roleTurns tr ++ (roleOf ev).toList := by
        simp only [roleTurns, List.filterMap_append]
        cases hr : roleOf ev <;> simp [hr]
      have hjudged : (tr ++ [(t, q, ev)]).any (fun x => isJudge x.2.2) =
          (tr.any (fun x => isJudge x.2.2) || isJudge ev) := by
        simp
      rw [hroles, hjudged]
      exact hnext

theorem judge_step {turns : List JudgeTurn}
    (h : threadStep env cfg threadId t (p, .judge turns) = some t') :
    (∃ st, judgeRun env cfg turns = some st ∧
      st.requests.length ≤ cfg.judgeMaxToolCalls + 2 ∧
      st.readonlyRuns.length ≤ cfg.judgeMaxToolCalls) ∧
    t'.state.decision.isSome = true ∧ t'.next = none := by
  obtain ⟨p', hstep⟩ := threadStep_step h
  cases hstep with
  | judge hnext hs =>
      obtain ⟨st, closing, hst, -, -, rfl⟩ := judgeNode_cases hs
      exact ⟨⟨st, hst, judgeRun_budget hst⟩, rfl, rfl⟩

/-- The pending Judge finishes for every sequence of responses. -/
theorem judge_completes (hnext : t.next = some .judge) (exec : ToolCall → String)
    {responses : List (Option Response)} (hlen : cfg.judgeMaxToolCalls + 2 ≤ responses.length) :
    ∃ turns : List JudgeTurn, turns.map JudgeTurn.response <+: responses ∧
      (∀ turn ∈ turns, ∃ used,
        turn = turnWith exec cfg.judgeMaxToolCalls used turn.response) ∧
      (threadStep env cfg threadId t (p, .judge turns)).isSome = true := by
  obtain ⟨turns, hprefix, hturns, hsome⟩ := judgeLoop_completes env exec {} hlen
  refine ⟨turns, hprefix, hturns, ?_⟩
  simpa [threadStep, graphStep, hnext, judgeNode, judgeRun] using hsome

/-- The input of a debate. -/
def debateInput : Input := .run "Analyze" (some "DEBATE") (some "NIFTY 50") none none none

/-- A debate up to its Judge: the declaration of the research phase hands over to the roles. -/
def debateToJudge : List (Process × Event) :=
  [({}, .agent ⟨none, calling [okCall "get_candles" "call_1" []], 100⟩ 101),
    ({}, .tools ["close: 24500"] 102),
    ({}, .agent ⟨none, calling [okCall "declare_trade" "call_2" (tradeArgs "BUY" 100 80 150)], 103⟩ 104),
    ({}, .tools [] 105),
    ({}, .bull (some "Higher lows.")),
    ({}, .bear (some "Supply overhead."))]

end AiTrader.Agent
