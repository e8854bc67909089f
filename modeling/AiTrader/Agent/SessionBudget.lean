import AiTrader.Agent.Graph

/-! # The session budget

`session_budget_iff`: along a run of any number of legs the agent is never entered with its turn
budget spent and no decision committed, and takes at most `session_max_turns` model turns before
a decision, exactly when every step that leads to the agent without going through
`should_continue` leaves budget over: a tools step that concludes nothing, and an input.

The only check of the budget is in `should_continue`, which passes pending calls on to the tools
before it looks; `route_after_tools` has none.  `tool_calls_outrun_budget` is a run with a budget
of one turn in which the agent is entered for a second one. -/

namespace AiTrader.Agent

open Text Transition

variable {env : Env} {cfg : DebateConfig} {threadId : Option String} {t t' : Thread}
  {s : AgentState} {p p' : Process} {ev : Event} {now : ℚ} {results : List String}

/-- The agent is about to run only if it has a turn left or has decided. -/
def BudgetHeld (c : OpportunityConfig) (t : Thread) : Prop :=
  t.next = some .agent → t.state.decision.isSome ∨ t.state.sessionTurns < c.sessionMaxTurns

/-- The calls of a tools step end the analysis: a declaration is executed and not rejected, or
held back with a HOLD for want of data, or hands over to the debate. -/
def Concludes (env : Env) (s : AgentState) (now : ℚ) (results : List String) : Prop :=
  let parts := partitionCalls env s now
  parts.researchBlocked.isEmpty = false ∨
    (parts.blocked.isEmpty = false ∧ marketDataAttempted s.messages = true) ∨
    (parts.blocked.isEmpty = true ∧ parts.heartbeatGated.isEmpty = true ∧
      parts.okCalls.any isDeclare = true ∧
      declareWasRejected (toolOutputs env s now results) = false)

instance (env : Env) (s : AgentState) (now : ℚ) (results : List String) :
    Decidable (Concludes env s now results) := by
  unfold Concludes; infer_instance

/-- The step leaves the agent a turn wherever it leads back to the agent unchecked. -/
def LeavesTurn (env : Env) (t : Thread) : Event → Prop
  | .tools results now =>
      t.state.decision.isSome ∨ t.state.phase = some .debate ∨ Concludes env t.state now results ∨
        t.state.sessionTurns + heartbeatCharge env t.state (toolOutputs env t.state now results) <
          env.cfg.sessionMaxTurns
  | .input i =>
      routeEntry env.host (i.apply t.state) = .qaAgent ∨ t.state.decision.isSome ∨
        t.state.sessionTurns < env.cfg.sessionMaxTurns
  | _ => True

instance (env : Env) (t : Thread) (ev : Event) : Decidable (LeavesTurn env t ev) :=
  match ev with
  | .tools results now => inferInstanceAs (Decidable (_ ∨ _ ∨ Concludes env t.state now results ∨ _))
  | .input _ => inferInstanceAs (Decidable (_ ∨ _ ∨ _))
  | .agent .. | .forceHold | .forceTerminal _ | .bull _ | .bear _ | .judge _ | .qaAgent _
  | .qaTools .. => inferInstanceAs (Decidable True)

/-! ### One step -/

theorem toolDecision_isSome_iff : (toolDecision env s now results).isSome = true ↔
    (partitionCalls env s now).researchBlocked.isEmpty = true ∧
      Concludes env s now results := by
  unfold toolDecision Concludes
  set parts := partitionCalls env s now
  simp only
  cases hresearch : parts.researchBlocked.isEmpty with
  | false => simp
  | true =>
      cases hblocked : parts.blocked.isEmpty with
      | false => cases marketDataAttempted s.messages <;> simp
      | true =>
          cases hgated : parts.heartbeatGated.isEmpty with
          | false => simp
          | true =>
              cases declareWasRejected (toolOutputs env s now results) <;>
                simp [decisionFromDeclare]

theorem input_decision (i : Input) : (i.apply s).decision = s.decision := by cases i <;> rfl

theorem input_sessionTurns (i : Input) : (i.apply s).sessionTurns = s.sessionTurns := by
  cases i <;> rfl

/-- The tools lead back to the agent with the budget held exactly if they leave a turn. -/
theorem tools_budget {s' : AgentState} (h : toolNode env threadId s now results p = some (s', p')) :
    BudgetHeld env.cfg ⟨s', (routeAfterTools s').node⟩ ↔
      s.decision.isSome ∨ s.phase = some .debate ∨ Concludes env s now results ∨
        s.sessionTurns + heartbeatCharge env s (toolOutputs env s now results) <
          env.cfg.sessionMaxTurns := by
  obtain ⟨-, ⟨hd, rfl, -⟩ | ⟨d, closing, hd, -, -, rfl⟩⟩ := toolNode_cases h
  · have hnone : ¬ ((partitionCalls env s now).researchBlocked.isEmpty = true ∧
        Concludes env s now results) := by
      rw [← toolDecision_isSome_iff, hd]
      simp
    have hturns : (toolNext env s now results).sessionTurns = s.sessionTurns +
        heartbeatCharge env s (toolOutputs env s now results) := noteResume_sessionTurns _ _ _
    have hdec : (toolNext env s now results).decision = s.decision := noteResume_decision
    simp only [BudgetHeld, routeAfterTools, hdec, hturns]
    cases hsome : s.decision.isSome with
    | true => simp
    | false =>
        simp only [Bool.false_eq_true, if_false, false_or]
        by_cases hresearch : (partitionCalls env s now).researchBlocked.isEmpty = true
        · have hphase : (toolNext env s now results).phase = s.phase := by
            simp [toolNext, hresearch]
          have hconc : ¬ Concludes env s now results := fun h => hnone ⟨hresearch, h⟩
          rw [hphase]
          by_cases hdebate : s.phase = some .debate
          · simp [hdebate, ToolRoute.node]
          · simp [hdebate, hconc, ToolRoute.node]
        · have hphase : (toolNext env s now results).phase = some .debate := by
            simp [toolNext, hresearch]
          have hconc : Concludes env s now results :=
            .inl (Bool.not_eq_true _ ▸ hresearch)
          simp [hphase, hconc, ToolRoute.node]
  · have hconc : Concludes env s now results :=
      (toolDecision_isSome_iff.mp (by rw [hd]; rfl)).2
    simp [BudgetHeld, hconc]

/-- A turn of the model leads back to the agent only through the check of the budget. -/
theorem agent_budget (s : AgentState) : BudgetHeld env.cfg ⟨s, (shouldContinue env s now).node⟩ := by
  intro hnext
  simp only [shouldContinue] at hnext
  split at hnext
  · split at hnext
    · split at hnext <;> cases hnext
    · cases hnext
  · split at hnext
    · cases hnext
    · split at hnext
      · cases hnext
      · rename_i hbudget
        exact .inr (turns_lt_of_not_exhausted (by simpa using hbudget))

/-- **One step keeps the budget exactly if it leaves a turn.** -/
theorem step_budget (h : Step env cfg threadId t p ev t' p') :
    BudgetHeld env.cfg t' ↔ LeavesTurn env t ev := by
  cases h with
  | input i =>
      simp only [BudgetHeld, LeavesTurn, input_decision, input_sessionTurns, routeEntry]
      split <;> simp
  | agent turn now hnext =>
      simp only [LeavesTurn, iff_true]
      exact agent_budget _
  | tools hnext hs => exact tools_budget hs
  | forceHold hnext => simp [BudgetHeld, LeavesTurn]
  | forceTerminal now hnext => simp [BudgetHeld, LeavesTurn]
  | bull answer hnext => simp [BudgetHeld, LeavesTurn]
  | bear answer hnext =>
      simp only [BudgetHeld, LeavesTurn, iff_true]
      intro hagent
      cases hroute : routeDebate cfg (bearNode env t.state answer) <;>
        simp [hroute, DebateRoute.node] at hagent
  | judge hnext hs => simp [BudgetHeld, LeavesTurn]
  | qaAgent r hnext =>
      simp only [BudgetHeld, LeavesTurn, iff_true]
      intro hagent
      split at hagent <;> simp at hagent
  | qaTools hnext hs => simp [BudgetHeld, LeavesTurn]

/-! ### Counting turns -/

/-- A model turn of the analysis loop, taken before a decision. -/
def isOpenTurn (x : Thread × Process × Event) : Bool :=
  match x.2.2 with
  | .agent .. => x.1.state.decision.isNone
  | _ => false

/-- The model turns a run took before a decision. -/
def openTurns (tr : List (Thread × Process × Event)) : ℕ := tr.countP isOpenTurn

theorem qaNode_sessionTurns (r : Response) :
    (qaNode env s r).sessionTurns = s.sessionTurns := by
  unfold qaNode
  split <;> rfl

theorem qaToolNode_eq {subagentResults : List String} {s' : AgentState}
    (h : qaToolNode s results subagentResults = some s') :
    ∃ out, s' = { s with messages := s.messages ++ out } := by
  simp only [qaToolNode] at h
  split at h
  · cases h
    exact ⟨_, rfl⟩
  · cases h

theorem judgeNode_sessionTurns {turns : List JudgeTurn} {s' : AgentState}
    (h : judgeNode env cfg threadId s turns p = some (s', p')) :
    s'.sessionTurns = s.sessionTurns := by
  obtain ⟨st, closing, -, -, -, rfl⟩ := judgeNode_cases h
  rfl

theorem step_sessionTurns (h : Step env cfg threadId t p ev t' p') :
    t.state.sessionTurns + (if isOpenTurn (t, p, ev) then 1 else 0) ≤ t'.state.sessionTurns := by
  cases h with
  | input i => simp [isOpenTurn, input_sessionTurns]
  | agent turn now hnext =>
      have hcharged : (callModel env t.state turn).sessionTurns = t.state.sessionTurns + 1 := rfl
      show _ ≤ (callModel env t.state turn).sessionTurns
      rw [hcharged]
      split <;> omega
  | tools hnext hs =>
      rename_i results now s'
      have hcharge := noteResume_sessionTurns env t.state
        (toolOutputs env t.state now results)
      obtain ⟨-, ⟨-, rfl, -⟩ | ⟨d, closing, -, -, -, rfl⟩⟩ := toolNode_cases hs <;>
        simp only [isOpenTurn, toolNext, hcharge] <;> simp
  | forceHold hnext => simp [isOpenTurn, forceHold]
  | forceTerminal now hnext => simp [isOpenTurn, forceTerminal]
  | bull answer hnext => simp [isOpenTurn, bullNode, runDebateRole]
  | bear answer hnext => simp [isOpenTurn, bearNode, runDebateRole]
  | judge hnext hs => simp [isOpenTurn, judgeNode_sessionTurns hs]
  | qaAgent r hnext => simp [isOpenTurn, qaNode_sessionTurns]
  | qaTools hnext hs =>
      obtain ⟨out, rfl⟩ := qaToolNode_eq hs
      simp [isOpenTurn]

/-- A run that holds the budget takes no more open turns than the budget. -/
theorem openTurns_le {tr : List (Thread × Process × Event)}
    (h : Path (threadStep env cfg threadId) {} tr t)
    (hheld : ∀ x ∈ tr, BudgetHeld env.cfg x.1) :
    openTurns tr ≤ t.state.sessionTurns ∧ openTurns tr ≤ env.cfg.sessionMaxTurns := by
  induction h with
  | nil => exact ⟨Nat.zero_le _, Nat.zero_le _⟩
  | @snoc tr t u a _ hs ih =>
      obtain ⟨hturns, hmax⟩ := ih fun x hx => hheld x (List.mem_append_left _ hx)
      obtain ⟨q, ev⟩ := a
      obtain ⟨p', hstep⟩ := threadStep_step hs
      have hcharged : t.state.sessionTurns + (if isOpenTurn (t, q, ev) then 1 else 0) ≤
          u.state.sessionTurns := step_sessionTurns hstep
      have hcount : openTurns (tr ++ [(t, q, ev)]) =
          openTurns tr + if isOpenTurn (t, q, ev) then 1 else 0 := by
        simp [openTurns, List.countP_append, List.countP_singleton]
      rw [hcount]
      refine ⟨by omega, ?_⟩
      by_cases hopen : isOpenTurn (t, q, ev) = true
      · -- the agent was entered with a turn left, so one more is within the budget
        have hlt : t.state.sessionTurns < env.cfg.sessionMaxTurns := by
          have hheldT := hheld (t, q, ev) (by simp)
          cases hstep with
          | agent turn now hnext =>
              rcases hheldT hnext with hd | hlt
              · simp [isOpenTurn, Option.isSome_iff_ne_none.mp hd] at hopen
              · exact hlt
          | _ => simp [isOpenTurn] at hopen
        simp only [hopen, if_true]
        omega
      · simp only [hopen]
        simpa using hmax

/-- **The session budget is a hard bound on a run exactly if every unchecked step leaves a
turn.** -/
theorem session_budget_iff (env : Env) (cfg : DebateConfig) (threadId : Option String)
    (tr : List (Thread × Process × Event)) (t : Thread)
    (h : Path (threadStep env cfg threadId) {} tr t) :
    ((∀ x ∈ tr, BudgetHeld env.cfg x.1) ∧ BudgetHeld env.cfg t ∧
        openTurns tr ≤ env.cfg.sessionMaxTurns) ↔
      ∀ x ∈ tr, LeavesTurn env x.1 x.2.2 := by
  have hiff := h.forall_iff (I := BudgetHeld env.cfg) (J := fun x a => LeavesTurn env x a.2)
    (fun x a y hs => by
      obtain ⟨p', hstep⟩ := threadStep_step hs
      exact step_budget hstep)
    (fun hnext => by cases hnext)
  constructor
  · rintro ⟨hpast, hlast, -⟩
    exact hiff.mp ⟨hpast, hlast⟩
  · intro hok
    obtain ⟨hpast, hlast⟩ := hiff.mpr hok
    exact ⟨hpast, hlast, (openTurns_le h hpast).2⟩

/-! ### Two runs -/

/-- A run that fetches candles, then declares a HOLD. -/
def fetchThenHold : List (Process × Event) :=
  [({}, .input (.run "Analyze" (some "FIND") (some "NIFTY 50") none none none)),
    ({}, .agent ⟨none, calling [okCall "get_candles" "call_1" []], 100⟩ 101),
    ({}, .tools ["close: 24500"] 102),
    ({}, .agent ⟨none, calling [okCall "declare_trade" "call_2" (declareArgs "HOLD" [])], 103⟩ 104),
    ({}, .tools [declaredText "HOLD"] 105)]

/-- Under the default budget the run stays within it and commits. -/
theorem session_budget_default : ∃ tr t,
    Path (threadStep defaultEnv sampleDebate (some "thread_1")) {} tr t ∧
      t.state.decision.isSome = true ∧ openTurns tr ≤ 40 ∧
      ∀ x ∈ tr, BudgetHeld defaultEnv.cfg x.1 := by
  have hrun : (trace (threadStep defaultEnv sampleDebate (some "thread_1")) {}
      fetchThenHold).map (fun r => (r.2.state.decision.isSome,
        decide (∀ x ∈ r.1, LeavesTurn defaultEnv x.1 x.2.2))) =
      some (true, true) := by
    decide +kernel
  obtain ⟨⟨tr, t⟩, htr, hout⟩ := Option.map_eq_some_iff.mp hrun
  simp only [Prod.mk.injEq, decide_eq_true_eq] at hout
  have hpath := Path.of_trace htr
  have hheld := (session_budget_iff _ _ _ _ _ hpath).mpr hout.2
  exact ⟨tr, t, hpath, hout.1, hheld.2.2, hheld.1⟩

/-- With a budget of one turn, a tool call takes the agent past it. -/
theorem tool_calls_outrun_budget : ∃ tr t,
    Path (threadStep oneTurnEnv sampleDebate (some "thread_1")) {} tr t ∧
      ¬ BudgetHeld oneTurnEnv.cfg t := by
  have hrun : (trace (threadStep oneTurnEnv sampleDebate (some "thread_1")) {}
      (fetchThenHold.take 3)).map (fun r =>
        (decide (r.2.next = some .agent), r.2.state.decision.isSome, r.2.state.sessionTurns)) =
      some (true, false, 1) := by
    decide +kernel
  obtain ⟨⟨tr, t⟩, htr, hout⟩ := Option.map_eq_some_iff.mp hrun
  simp only [Prod.mk.injEq, decide_eq_true_eq] at hout
  refine ⟨tr, t, Path.of_trace htr, fun hheld => ?_⟩
  rcases hheld hout.1 with hd | hlt
  · rw [hout.2.1] at hd
    cases hd
  · rw [hout.2.2] at hlt
    exact absurd hlt (by decide)

end AiTrader.Agent
