import AiTrader.Agent.CallPairing
import AiTrader.Stream.Events

/-! # The stream of a turn

A turn is what the graph does on a thread after an input, in one leg or in several when it pauses.
What it shows are the events of its updates, one after the other.

* `decision_shown_once`: a turn that ends shows one decision, as its last event, unless the thread
  had decided before; a turn that does not end and a question show none.
* `open_calls`: no call ends in the stream that has not started, and the calls that have started and
  not ended are the pending ones, if every step answers what it has to. -/

namespace AiTrader.Stream

open Agent Text Transition Pairing

section
variable (env : Env) (cfg : DebateConfig) (threadId : Option String) (reads : Thread → Event → PyVal)

/-- Whether the update of a node has a decision. -/
def decides (t : Thread) : Event → Bool
  | .tools results now => (toolDecision env t.state now results).isSome
  | .forceHold | .forceTerminal _ | .judge _ => true
  | _ => false

/-- The update of a node that leads from one state of the thread to another; `reads` gives the
interim read of a heartbeat, which the state does not keep. -/
def updateOf (t : Thread) (ev : Event) (t' : Thread) : NodeUpdate where
  messages := t'.state.messages.drop t.state.messages.length
  decision := if decides env t ev then t'.state.decision else none
  bestCurrentRead := reads t ev

/-- The updates of a run; an input is no node. -/
def updatesOf (tr : List (Thread × Process × Event)) : List NodeUpdate :=
  tr.filterMap fun x => match x.2.2 with
    | .input _ => none
    | ev => (threadStep env cfg threadId x.1 x.2).map (updateOf env reads x.1 ev)

/-- What a run shows. -/
def streamOf (shown : Shown) (tr : List (Thread × Process × Event)) : List StreamEvent :=
  (updatesOf env cfg threadId reads tr).flatMap (nodeUpdateEvents env.host shown)

end

/-- The number of calls that a client shows as running, after one more event. -/
def countEvent (n : ℕ) (e : StreamEvent) : Option ℕ :=
  if e.name = "TOOL_CALL_START" then some (n + 1)
  else if e.name = "TOOL_CALL_END" then if n = 0 then none else some (n - 1)
  else some n

/-- The calls that have started and not ended, if none ends that has not started. -/
def openCalls (n : ℕ) (events : List StreamEvent) : Option ℕ := events.foldlM countEvent n

/-- The event is no node of the graph. -/
def IsInput : Event → Prop
  | .input _ => True
  | _ => False

instance (ev : Event) : Decidable (IsInput ev) :=
  match ev with
  | .input _ => .isTrue trivial
  | .agent .. | .tools .. | .forceHold | .forceTerminal _ | .bull _ | .bear _ | .judge _
  | .qaAgent _ | .qaTools .. => .isFalse id

variable {env : Env} {cfg : DebateConfig} {threadId : Option String}
  {reads : Thread → Event → PyVal} {shown : Shown} {t t' u : Thread} {p p' : Process} {ev : Event}
  {tr : List (Thread × Process × Event)} {n : ℕ} {ms : List Message} {m : Message}
  {events events' : List StreamEvent}

/-! ### What a run shows -/

theorem updatesOf_concat (hev : ¬ IsInput ev)
    (h : threadStep env cfg threadId t (p, ev) = some t') :
    updatesOf env cfg threadId reads (tr ++ [(t, p, ev)]) =
      updatesOf env cfg threadId reads tr ++ [updateOf env reads t ev t'] := by
  rw [updatesOf, List.filterMap_append]
  congr 1
  cases ev with
  | input i => exact absurd trivial hev
  | _ =>
      simp only [List.filterMap_cons, List.filterMap_nil, h, Option.map_some]

theorem streamOf_concat (hev : ¬ IsInput ev)
    (h : threadStep env cfg threadId t (p, ev) = some t') :
    streamOf env cfg threadId reads shown (tr ++ [(t, p, ev)]) =
      streamOf env cfg threadId reads shown tr ++
        nodeUpdateEvents env.host shown (updateOf env reads t ev t') := by
  rw [streamOf, updatesOf_concat hev h, List.flatMap_append]
  simp [streamOf]

/-! ### Decisions -/

theorem step_isQa (h : Step env cfg threadId t p ev t' p') (hev : ¬ IsInput ev) {b : Bool}
    (hqa : ∀ n, t.next = some n → n.isQa = b) : ∀ n, t'.next = some n → n.isQa = b := by
  have hoff : ∀ {o : Option Node}, o.any Node.isQa = false → b = false →
      ∀ n, o = some n → n.isQa = b := by
    rintro o ho rfl n rfl
    exact ho
  cases h with
  | input i => exact absurd trivial hev
  | agent turn now hnext => exact hoff (shouldContinue_node _ _ _).1 (hqa _ hnext).symm
  | tools hnext hs => exact hoff (routeAfterTools_node _).1 (hqa _ hnext).symm
  | forceHold hnext => exact fun n hn => by cases hn
  | forceTerminal now hnext => exact fun n hn => by cases hn
  | bull answer hnext => exact hoff rfl (hqa _ hnext).symm
  | bear answer hnext =>
      refine hoff ?_ (hqa _ hnext).symm
      cases routeDebate cfg (bearNode env t.state answer) <;> rfl
  | judge hnext hs => exact fun n hn => by cases hn
  | qaAgent r hnext =>
      intro n hn
      rw [← hqa _ hnext]
      dsimp only at hn
      split at hn <;> cases hn
      rfl
  | qaTools hnext hs =>
      intro n hn
      rw [← hqa _ hnext]
      cases hn
      rfl

theorem step_next (h : Step env cfg threadId t p ev t' p') (hev : ¬ IsInput ev) : t.next ≠ none := by
  cases h with
  | input i => exact absurd trivial hev
  | _ => simp_all

/-- A node whose update has a decision ends the run. -/
theorem step_decides (h : Step env cfg threadId t p ev t' p') (hd : decides env t ev = true) :
    t'.next = none ∧ t'.state.decision.isSome = true ∧ ∀ n, t.next = some n → n.isQa = false := by
  cases h with
  | tools hnext hs =>
      obtain ⟨-, ⟨hnone, -⟩ | ⟨d, closing, -, -, -, rfl⟩⟩ := toolNode_cases hs
      · simp only [decides, hnone] at hd
        cases hd
      · exact ⟨rfl, rfl, fun n hn => by rw [hnext] at hn; cases hn; rfl⟩
  | forceHold hnext => exact ⟨rfl, rfl, fun n hn => by rw [hnext] at hn; cases hn; rfl⟩
  | forceTerminal now hnext => exact ⟨rfl, rfl, fun n hn => by rw [hnext] at hn; cases hn; rfl⟩
  | judge hnext hs =>
      obtain ⟨st, closing, -, -, -, rfl⟩ := judgeNode_cases hs
      exact ⟨rfl, rfl, fun n hn => by rw [hnext] at hn; cases hn; rfl⟩
  | _ => cases hd

theorem step_undecided (h : Step env cfg threadId t p ev t' p') (hev : ¬ IsInput ev)
    (hd : decides env t ev = false) (hnone : t.state.decision = none)
    (hqa : ∀ n, t.next = some n → n.isQa = false) : t'.state.decision = none ∧ t'.next ≠ none := by
  cases h with
  | input i => exact absurd trivial hev
  | agent turn now hnext =>
      have hkeep : (callModel env t.state turn).decision = none := hnone
      refine ⟨hkeep, ?_⟩
      simp only [shouldContinue, hkeep]
      repeat' split
      all_goals simp_all [Route.node]
  | tools hnext hs =>
      obtain ⟨-, ⟨-, rfl, -⟩ | ⟨d, closing, hsome, -⟩⟩ := toolNode_cases hs
      · rename_i results now
        have hkeep : (toolNext env t.state now results).decision = none :=
          noteResume_decision.trans hnone
        refine ⟨hkeep, ?_⟩
        rw [routeAfterTools, hkeep, if_neg (by simp)]
        split <;> exact Option.some_ne_none _
      · simp only [decides, hsome] at hd
        cases hd
  | bull answer hnext => exact ⟨hnone, by simp⟩
  | bear answer hnext => exact ⟨hnone, by simp⟩
  | qaAgent r hnext => cases hqa _ hnext
  | qaTools hnext hs => cases hqa _ hnext
  | _ => cases hd

theorem updateOf_decision (h : Step env cfg threadId t p ev t' p') :
    (updateOf env reads t ev t').decision = none ↔ decides env t ev = false := by
  cases hd : decides env t ev with
  | true =>
      have hsome := (step_decides h hd).2.1
      simp only [updateOf, hd, if_true]
      rw [← Option.not_isSome_iff_eq_none, hsome]
      simp
  | false => simp [updateOf, hd]

/-- What a turn has shown: no decision yet, or a decision at the end of the run. -/
inductive ShownDecision (s : AgentState) (qa : Bool) (events : List StreamEvent) (t : Thread) : Prop
  | no (hevents : ∀ e ∈ events, e.name ≠ "DECISION")
      (hqa : ∀ n, t.next = some n → n.isQa = qa)
      (hopen : qa = false → s.decision = none → t.state.decision = none ∧ t.next ≠ none)
  | last (init : List StreamEvent) (e : StreamEvent) (heq : events = init ++ [e])
      (hinit : ∀ e ∈ init, e.name ≠ "DECISION") (hname : e.name = "DECISION")
      (hqa : qa = false) (hend : t.next = none)

theorem shownDecision_of_path {s : AgentState} {qa : Bool}
    (h : Path (threadStep env cfg threadId) u tr t) (hturn : ∀ x ∈ tr, ¬ IsInput x.2.2)
    (hqa : ∀ n, u.next = some n → n.isQa = qa)
    (hopen : s.decision = none → u.state.decision = none ∧ u.next ≠ none) :
    ShownDecision s qa (streamOf env cfg threadId reads shown tr) t := by
  induction h with
  | nil => exact .no (by simp [streamOf, updatesOf]) hqa fun _ => hopen
  | @snoc tr t t' a hp hs ih =>
      obtain ⟨p, ev⟩ := a
      have hev : ¬ IsInput ev := hturn (t, p, ev) (by simp)
      obtain ⟨p', hstep⟩ := threadStep_step hs
      rw [streamOf_concat hev hs]
      cases ih fun x hx => hturn x (List.mem_append_left _ hx) with
      | last init e heq hinit hname hqa' hend => exact absurd hend (step_next hstep hev)
      | no hevents hqa' hopen' =>
          obtain ⟨added, hnames, heq⟩ :=
            nodeUpdateEvents_cases env.host shown (updateOf env reads t ev t')
          have hadded : ∀ e ∈ added, e.name ≠ "DECISION" := fun e he hname => by
            have hno := hnames e he
            rw [hname] at hno
            simp at hno
          have hdecides := @updateOf_decision env cfg threadId reads _ _ _ _ _ hstep
          cases hd : (updateOf env reads t ev t').decision with
          | none =>
              rw [heq, hd, List.append_nil]
              refine .no (fun e he => ?_) (step_isQa hstep hev hqa') fun hoff hnone => ?_
              · exact (List.mem_append.mp he).elim (hevents e) (hadded e)
              · subst hoff
                exact step_undecided hstep hev (hdecides.mp hd) (hopen' rfl hnone).1 hqa'
          | some d =>
              have htrue : decides env t ev = true := by
                rw [← Bool.not_eq_false, ← hdecides, hd]
                exact Option.some_ne_none d
              obtain ⟨hend, -, hoff⟩ := step_decides hstep htrue
              rw [heq, hd, ← List.append_assoc]
              refine .last _ _ rfl (fun e he => ?_) rfl ?_ hend
              · exact (List.mem_append.mp he).elim (hevents e) (hadded e)
              · obtain ⟨n, hn⟩ := Option.ne_none_iff_exists'.mp (step_next hstep hev)
                rw [← hqa' n hn]
                exact hoff n hn

/-- **One decision, at the end.**  Nothing follows a decision in what a turn shows; a question shows
none; and a turn of a thread without a decision has shown one exactly if it has ended. -/
theorem decision_shown_once (env : Env) (cfg : DebateConfig) (threadId : Option String)
    (reads : Thread → Event → PyVal) (shown : Shown) (s : AgentState) (i : Input)
    (tr : List (Thread × Process × Event)) (t : Thread)
    (h : Path (threadStep env cfg threadId) ⟨i.apply s, some (routeEntry env.host (i.apply s))⟩ tr t)
    (hturn : ∀ x ∈ tr, ¬ IsInput x.2.2) :
    (∀ init e rest, streamOf env cfg threadId reads shown tr = init ++ e :: rest →
        e.name = "DECISION" → rest = []) ∧
      ((i.apply s).modeKey env.host = "QA" →
        ∀ e ∈ streamOf env cfg threadId reads shown tr, e.name ≠ "DECISION") ∧
      ((i.apply s).modeKey env.host ≠ "QA" → s.decision = none →
        ((∃ e ∈ streamOf env cfg threadId reads shown tr, e.name = "DECISION") ↔ t.next = none)) := by
  have hkeep : (i.apply s).decision = s.decision := by cases i <;> rfl
  obtain ⟨qa, hqaMode, hentry⟩ : ∃ qa : Bool, ((i.apply s).modeKey env.host = "QA" ↔ qa = true) ∧
      (routeEntry env.host (i.apply s)).isQa = qa := by
    unfold routeEntry
    split
    · rename_i hmode
      exact ⟨true, ⟨fun _ => rfl, fun _ => hmode⟩, rfl⟩
    · rename_i hmode
      exact ⟨false, ⟨fun hqa => absurd hqa hmode, fun hqa => Bool.noConfusion hqa⟩, rfl⟩
  have hshown : ShownDecision s qa (streamOf env cfg threadId reads shown tr) t :=
    shownDecision_of_path h hturn (fun n hn => Option.some.inj hn ▸ hentry)
      (fun hnone => ⟨hkeep.trans hnone, Option.some_ne_none _⟩)
  cases hshown with
  | no hevents hqa hopen =>
      refine ⟨fun init e rest heq hname => ?_, fun _ => hevents, fun hmode hnone => ?_⟩
      · exact absurd hname (hevents e (heq ▸ by simp))
      · refine ⟨fun ⟨e, he, hname⟩ => absurd hname (hevents e he), fun hend => ?_⟩
        exact absurd hend (hopen (Bool.eq_false_iff.mpr fun hqa => hmode (hqaMode.mpr hqa)) hnone).2
  | last last e heq hinit hname hqa hend =>
      have hmode : (i.apply s).modeKey env.host ≠ "QA" := by
        rw [Ne, hqaMode, hqa]
        exact Bool.false_ne_true
      refine ⟨fun init e' rest heq' hname' => ?_, fun hqa => absurd hqa hmode, fun _ _ =>
        ⟨fun _ => hend, fun _ => ⟨e, by simp [heq], hname⟩⟩⟩
      rcases List.eq_nil_or_concat rest with rfl | ⟨rest, e'', rfl⟩
      · rfl
      · rw [heq, List.concat_eq_append, ← List.cons_append, ← List.append_assoc] at heq'
        have hmem : e' ∈ last := by
          rw [(List.append_inj' heq' rfl).1]
          simp
        exact absurd hname' (hinit e' hmem)

/-- The state after `/run`. -/
def startedRun : Input := .run "Analyze" (some "FIND") (some "NIFTY 50") none none none

/-- Nothing is shown beside what the graph records. -/
def plainShown : Shown := ⟨fun _ => none, fun _ => []⟩

/-- A fetch, and then a declaration. -/
def declaredTurn : List (Process × Event) :=
  [({}, .agent ⟨none, calling [okCall "get_candles" "call_1" []], 100⟩ 101),
    ({}, .tools ["close: 24500"] 102),
    ({}, .agent ⟨none, calling [okCall "declare_trade" "call_2" (declareArgs "HOLD" [])], 103⟩ 104),
    ({}, .tools [declaredText "HOLD"] 105)]

theorem decision_shown_once_declared : ∃ tr t,
    Path (threadStep defaultEnv sampleDebate (some "thread_1"))
      ⟨startedRun.apply {}, some (routeEntry defaultEnv.host (startedRun.apply {}))⟩ tr t ∧
      ∃ e ∈ streamOf defaultEnv sampleDebate (some "thread_1") (fun _ _ => .none) plainShown tr,
        e.name = "DECISION" := by
  have hrun : (trace (threadStep defaultEnv sampleDebate (some "thread_1"))
      ⟨startedRun.apply {}, some (routeEntry defaultEnv.host (startedRun.apply {}))⟩
      declaredTurn).map (fun r => (decide (r.2.next = none),
        decide (∀ x ∈ r.1, ¬ IsInput x.2.2))) = some (true, true) := by
    decide +kernel
  have hmode : (startedRun.apply {}).modeKey defaultEnv.host ≠ "QA" := by decide +kernel
  obtain ⟨⟨tr, t⟩, htr, hout⟩ := Option.map_eq_some_iff.mp hrun
  simp only [Prod.mk.injEq, decide_eq_true_eq] at hout
  have hpath := Path.of_trace htr
  exact ⟨tr, t, hpath, ((decision_shown_once defaultEnv sampleDebate (some "thread_1")
    (fun _ _ => .none) plainShown {} startedRun tr t hpath hout.2).2.2 hmode rfl).mpr hout.1⟩

/-! ### Open calls -/

theorem openCalls_append (n : ℕ) (events events' : List StreamEvent) :
    openCalls n (events ++ events') = (openCalls n events).bind fun k => openCalls k events' :=
  List.foldlM_append

theorem openCalls_cons (n : ℕ) (e : StreamEvent) (events : List StreamEvent) :
    openCalls n (e :: events) = (countEvent n e).bind fun k => openCalls k events :=
  List.foldlM_cons

theorem countEvent_add {e : StreamEvent} {k d : ℕ} (h : countEvent n e = some k) :
    countEvent (n + d) e = some (k + d) := by
  unfold countEvent at h ⊢
  split at h
  · cases h
    rw [if_pos ‹_›, Nat.add_right_comm]
  · rw [if_neg ‹_›]
    split at h
    · split at h
      · cases h
      · cases h
        rw [if_pos ‹_›, if_neg (by omega)]
        congr 1
        omega
    · cases h
      rw [if_neg ‹_›]

theorem openCalls_add {k : ℕ} (h : openCalls n events = some k) (d : ℕ) :
    openCalls (n + d) events = some (k + d) := by
  induction events generalizing n with
  | nil =>
      cases h
      rfl
  | cons e events ih =>
      rw [openCalls_cons] at h ⊢
      obtain ⟨j, hj, hrest⟩ := Option.bind_eq_some_iff.mp h
      rw [countEvent_add hj]
      exact ih hrest

theorem openCalls_other (h : ∀ e ∈ events, e.name ≠ "TOOL_CALL_START" ∧ e.name ≠ "TOOL_CALL_END")
    (n : ℕ) : openCalls n events = some n := by
  induction events with
  | nil => rfl
  | cons e events ih =>
      obtain ⟨hstart, hend⟩ := h e List.mem_cons_self
      rw [openCalls_cons, countEvent, if_neg hstart, if_neg hend]
      exact ih fun x hx => h x (List.mem_cons_of_mem _ hx)

theorem openCalls_starts (calls : List ToolCall) (n : ℕ) :
    openCalls n (calls.map fun tc => ⟨"TOOL_CALL_START", buildToolCallStartEvent tc.name tc.args⟩) =
      some (n + calls.length) := by
  induction calls generalizing n with
  | nil => rfl
  | cons tc calls ih =>
      rw [List.map_cons, openCalls_cons, countEvent, if_pos rfl, Option.bind_some, ih,
        List.length_cons, Nat.add_right_comm]
      rfl

variable {h : Host} {role : Message → Option String} {out : List Message} {ids : List String}

theorem reasoning_other {payload : Option Kwargs} :
    ∀ e ∈ (payload.map (StreamEvent.mk "REASONING")).toList,
      e.name ≠ "TOOL_CALL_START" ∧ e.name ≠ "TOOL_CALL_END" := by
  intro e he
  obtain ⟨payload, -, rfl⟩ := Option.map_eq_some_iff.mp (Option.mem_toList.mp he)
  simp

theorem openCalls_issue (hm : toolSignature.answers m = none) (n : ℕ) :
    openCalls n (messageEvents h role m) = some (n + (toolSignature.issues m).length) := by
  cases m with
  | system content => rfl
  | human content => rfl
  | tool content i name => cases hm
  | ai content calls statuses synthetic =>
      rw [messageEvents, openCalls_append, openCalls_other reasoning_other, Option.bind_some,
        openCalls_starts]
      simp [toolSignature]

theorem openCalls_answers (hout : Answers out ids) (n : ℕ) :
    openCalls (n + ids.length) (out.flatMap (messageEvents h role)) = some n := by
  obtain ⟨hsilent, hids⟩ := hout
  induction out generalizing ids with
  | nil =>
      cases hids
      rfl
  | cons m out ih =>
      have hm := hsilent m List.mem_cons_self
      have hrest : ∀ {rest}, out.filterMap toolSignature.answers = rest →
          openCalls (n + rest.length) (out.flatMap (messageEvents h role)) = some n :=
        fun hrest => ih (fun x hx => hsilent x (List.mem_cons_of_mem _ hx)) hrest
      rw [List.flatMap_cons, openCalls_append]
      cases ha : toolSignature.answers m with
      | none =>
          rw [List.filterMap_cons_none ha] at hids
          rw [openCalls_issue ha, hm, List.length_nil, Nat.add_zero, Option.bind_some]
          exact hrest hids
      | some k =>
          rw [List.filterMap_cons_some ha] at hids
          subst hids
          cases m with
          | tool content i name => exact hrest rfl
          | system content => cases ha
          | human content => cases ha
          | ai content calls statuses synthetic => cases ha

theorem openCalls_plain (hout : ∀ m ∈ out, m.IsPlain) (n : ℕ) :
    openCalls n (out.flatMap (messageEvents h role)) = some n := by
  have hanswers : Answers out [] :=
    ⟨fun m hm => (hout m hm).1, List.filterMap_eq_nil_iff.mpr fun m hm => (hout m hm).2⟩
  exact openCalls_answers hanswers n

theorem openCalls_some {total : ℕ} (hout : Answers out ids) (hle : ids.length ≤ total) :
    openCalls total (out.flatMap (messageEvents h role)) = some (total - ids.length) := by
  have hshow := @openCalls_answers h role _ _ hout (total - ids.length)
  rwa [Nat.sub_add_cancel hle] at hshow

theorem openCalls_block (hm : toolSignature.answers m = none) (hout : Answers out ids)
    (hle : ids.length ≤ (toolSignature.issues m).length) :
    openCalls 0 ((m :: out).flatMap (messageEvents h role)) =
      some ((toolSignature.issues m).length - ids.length) := by
  rw [List.flatMap_cons, openCalls_append, openCalls_issue hm, Option.bind_some, Nat.zero_add]
  exact openCalls_some hout hle

/-! ### The Judge -/

theorem judgeStep_open {budget : ℕ} {st st' : JudgeState} {r : Response} {turn : JudgeTurn}
    {ctl : LoopControl} (hs : judgeStep env budget st r turn = some (st', ctl)) :
    ∃ added k, st'.messages = st.messages ++ added ∧
      openCalls 0 (added.flatMap (messageEvents h role)) = some k ∧
      ((judgeDeclares r).isEmpty = true ∨ (judgeReadonly r).isEmpty = true → k = 0) := by
  have hfailed : Answers ((r.calls.filter (fun c => !c.isOk)).map (judgeFailedAnswer env.host))
      ((r.calls.filter (fun c => !c.isOk)).map ExtractedCall.id) := .map (fun c => ⟨_, _, rfl⟩) _
  have hwatch : Answers (((judgeOk r).filter isWatchCall).map fun c =>
      answer judgeWatchNote "watch_price_condition" c.toCall)
      (((judgeOk r).filter isWatchCall).map ExtractedCall.id) := .map (fun c => ⟨_, _, rfl⟩) _
  have htotal := (judge_ids r).length_eq
  have hissues := congrArg List.length (judgeMessage_issues r)
  simp only [List.length_append] at htotal
  -- the calls that are left are those that were not looked at
  have hblock : ∀ out ids, Answers out ids →
      ids.length ≤ ((judgeDeclares r).map ToolCall.id).length +
        ((judgeReadonly r).map ToolCall.id).length →
      openCalls 0 ((judgeOpening env.host r ++ out).flatMap (messageEvents h role)) =
        some (((judgeDeclares r).map ToolCall.id).length +
          ((judgeReadonly r).map ToolCall.id).length - ids.length) := by
    intro out ids hout hle
    have hshow := @openCalls_block (judgeMessage r) h role _ _ rfl
      ((hfailed.append hwatch).append hout) (by
        rw [hissues, List.length_append, List.length_append]
        omega)
    rw [hissues, List.length_append, List.length_append, ← htotal] at hshow
    rw [judgeOpening, List.cons_append, hshow]
    congr 1
    omega
  simp only [judgeStep] at hs
  split at hs
  · rename_i hdec
    split at hs
    · rename_i hlen
      have hopen := hblock _ _ (.executed hlen) (Nat.le_add_right _ _)
      refine ⟨judgeOpening env.host r ++ executed (judgeDeclares r) turn.declareResults, _, ?_,
        hopen, fun hor => ?_⟩
      · split at hs <;> cases hs <;> exact List.append_assoc _ _ _
      · rcases hor with hnil | hnil
        · simp [hnil] at hdec
        · rw [List.isEmpty_iff.mp hnil]
          simp
    · cases hs
  · rename_i hdec
    have hnil : judgeDeclares r = [] := by simpa using hdec
    split at hs
    · obtain ⟨c, hc, heq⟩ := Option.map_eq_some_iff.mp hs
      cases heq
      refine ⟨judgeOpening env.host r ++ c.1, _, List.append_assoc _ _ _,
        hblock _ _ (clarify_answers hc) (Nat.le_add_left _ _), fun _ => ?_⟩
      rw [hnil]
      simp
    · rename_i hro
      have hro' : judgeReadonly r = [] := by simpa using hro
      have hopen := hblock [] [] .nil (Nat.zero_le _)
      rw [List.append_nil] at hopen
      refine ⟨judgeOpening env.host r, _, ?_, hopen, fun _ => by simp [hnil, hro']⟩
      split at hs <;> cases hs <;> rfl

theorem judgeRun_open {st : JudgeState} {turns : List JudgeTurn}
    (hrun : judgeRun env cfg turns = some st) :
    ∃ k, openCalls 0 (st.messages.flatMap (messageEvents h role)) = some k ∧
      ((∀ turn ∈ turns, ∀ r ∈ turn.response,
        (judgeDeclares r).isEmpty = true ∨ (judgeReadonly r).isEmpty = true) → k = 0) := by
  obtain ⟨-, hst⟩ := judgeLoop_rule
    (I := fun _ st => ∃ k, openCalls 0 (st.messages.flatMap (messageEvents h role)) = some k ∧
      ((∀ turn ∈ turns, ∀ r ∈ turn.response,
        (judgeDeclares r).isEmpty = true ∨ (judgeReadonly r).isEmpty = true) → k = 0))
    (fun _ st hst => hst)
    (fun _ st r turn st' ctl hturn hr hst hs => by
      obtain ⟨k, hk, hzero⟩ := hst
      obtain ⟨added, j, hadded, hj, hjzero⟩ := @judgeStep_open env h role _ _ _ _ _ _ hs
      refine ⟨j + k, ?_, fun hall => by rw [hzero hall, hjzero (hall turn hturn r hr)]⟩
      have hmore := openCalls_add hj k
      rw [Nat.zero_add] at hmore
      rw [hadded, List.flatMap_append, openCalls_append, hk]
      exact hmore)
    hrun ⟨0, rfl, fun _ => rfl⟩
  exact hst

/-! ### One step -/

/-- The calls of the last message, where a node is to answer them. -/
def pendingCount (t : Thread) : ℕ :=
  if t.next.any Node.answersCalls = true then (pendingCalls t.state.messages).calls.length else 0

theorem pendingCount_of_not (h : t.next.any Node.answersCalls = false) : pendingCount t = 0 := by
  rw [pendingCount, h]
  rfl

theorem pendingCount_of (h : t.next.any Node.answersCalls = true) :
    pendingCount t = ((pendingCalls t.state.messages).calls.map ToolCall.id).length := by
  rw [pendingCount, if_pos h, List.length_map]

theorem pendingCount_le {pre : List Message} (hms : t.state.messages = pre ++ [m]) :
    pendingCount t ≤ (toolSignature.issues m).length := by
  rw [pendingCount]
  split
  · rw [hms, ← pendingCalls_snoc pre m, List.length_map]
  · exact Nat.zero_le _

/-- Messages are appended, and of the calls that were pending none ends twice; what is open then is
pending again, if the step answers what it has to. -/
def Opens (h : Host) (role : Message → Option String) (t t' : Thread) (answersAll : Prop) : Prop :=
  ∃ added k, t'.state.messages = t.state.messages ++ added ∧
    openCalls (pendingCount t) (added.flatMap (messageEvents h role)) = some k ∧
    pendingCount t' ≤ k ∧ (answersAll → k = pendingCount t')

theorem terminal_open (env : Env) (threadId : Option String) (now : ℚ) (p : Process)
    (hnext : t.next = some .forceTerminal) :
    Opens h role t ⟨(forceTerminal env threadId t.state now p).1, none⟩
      (AnswersAll env t (.forceTerminal now)) := by
  have hcount := pendingCount_of (t := t) (by rw [hnext]; rfl)
  set pending := pendingCalls t.state.messages with hp
  set watches := pending.calls.filter fun tc => isWatch tc && pending.isOk tc with hw
  have hanswers : ∀ content, Answers (watches.map (answer content "watch_price_condition"))
      (watches.map ToolCall.id) := fun content => .map (fun tc => ⟨_, _, rfl⟩) _
  have hle : (watches.map ToolCall.id).length ≤ pendingCount t := by
    rw [hcount, List.length_map, List.length_map]
    exact List.length_filter_le _ _
  refine ⟨_, pendingCount t - (watches.map ToolCall.id).length, List.append_assoc _ _ _, ?_,
    Nat.zero_le _, fun hok => ?_⟩
  · rw [List.flatMap_append, openCalls_append, ← hp, ← hw, openCalls_some (hanswers _) hle,
      Option.bind_some]
    exact openCalls_plain
      (fun m hm => by rw [List.mem_singleton.mp hm]; exact finalMessage_plain _ _) _
  · have hall : watches = pending.calls := by
      rw [hw, List.filter_eq_self]
      intro tc htc
      obtain ⟨hwatch, hisOk⟩ := hok tc htc
      rw [hwatch, hisOk]
      rfl
    rw [hcount, hall, Nat.sub_self]
    rfl

theorem qaAgent_open (env : Env) (r : Response) (hnext : t.next = some .qaAgent) :
    Opens h role t ⟨qaNode env t.state r,
      if qaShouldContinue (qaNode env t.state r) then some .qaTools else none⟩
      (AnswersAll env t (.qaAgent r)) := by
  have hzero : pendingCount t = 0 := pendingCount_of_not (by rw [hnext]; rfl)
  cases hrefusal : env.personalisationRefusal (latestUserQuestion t.state.messages) with
  | some refusal =>
      have hms : (qaNode env t.state r).messages = t.state.messages ++ [.aiText refusal] := by
        rw [qaNode, hrefusal]
      have hle : pendingCount ⟨qaNode env t.state r, if qaShouldContinue (qaNode env t.state r)
          then some .qaTools else none⟩ ≤ (toolSignature.issues (.aiText refusal)).length :=
        pendingCount_le hms
      refine ⟨[.aiText refusal], 0, hms, ?_, hle, fun _ => (Nat.le_zero.mp hle).symm⟩
      rw [hzero, List.flatMap_singleton, openCalls_issue rfl]
      rfl
  | none =>
      have hms : (qaNode env t.state r).messages = t.state.messages ++ [qaMessage env.host r] := by
        rw [qaNode, hrefusal]
      have hturns : (qaNode env t.state r).qaTurns = t.state.qaTurns + 1 := by
        rw [qaNode, hrefusal]
      have hlength := congrArg List.length
        (pendingCalls_snoc t.state.messages (qaMessage env.host r))
      rw [← hms, List.length_map] at hlength
      refine ⟨[qaMessage env.host r], (toolSignature.issues (qaMessage env.host r)).length, hms, ?_,
        pendingCount_le hms, fun hok => ?_⟩
      · rw [hzero, List.flatMap_singleton, openCalls_issue rfl, Nat.zero_add]
      rw [← hlength, pendingCount]
      split
      · rfl
      · -- the turn ends here: the response carried no call
        rename_i hstop
        have hend : qaShouldContinue (qaNode env t.state r) = false := by
          by_contra htrue
          rw [Bool.not_eq_false] at htrue
          rw [htrue] at hstop
          exact hstop rfl
        rcases hok with hrefused | hlt | hempty
        · rw [hrefusal] at hrefused
          cases hrefused
        · simp only [qaShouldContinue, hturns, hlt, decide_true, Bool.and_true,
            Bool.not_eq_false', List.isEmpty_iff] at hend
          rw [hend]
          rfl
        · rw [hlength, qaMessage_issues, List.isEmpty_iff.mp hempty]
          rfl

theorem step_open (hs : Step env cfg threadId t p ev t' p') (hev : ¬ IsInput ev) :
    Opens h role t t' (AnswersAll env t ev) := by
  cases hs with
  | input i => exact absurd trivial hev
  | agent turn now hnext =>
      obtain ⟨advocate, hplain, hms⟩ := callModel_messages env t.state turn
      have hzero : pendingCount t = 0 := pendingCount_of_not (by rw [hnext]; rfl)
      refine ⟨advocate ++ [replyMessage env.host turn.response],
        (toolSignature.issues (replyMessage env.host turn.response)).length,
        by rw [hms, List.append_assoc], ?_, pendingCount_le hms, fun _ => ?_⟩
      · rw [hzero, List.flatMap_append, openCalls_append, openCalls_plain hplain, Option.bind_some,
          List.flatMap_singleton, openCalls_issue rfl, Nat.zero_add]
      · obtain ⟨-, hcalls⟩ := shouldContinue_node env (callModel env t.state turn) now
        have hlength := congrArg List.length (pendingCalls_snoc (t.state.messages ++ advocate)
          (replyMessage env.host turn.response))
        rw [← hms] at hlength
        rw [← hlength, pendingCount]
        split
        · rw [List.length_map]
        · rename_i hno
          rw [hcalls (by simpa using hno)]
          rfl
  | tools hnext hstep =>
      obtain ⟨out, closing, ids, hms, hout, hids, hplain⟩ := toolNode_messages hstep
      rename_i s'
      have hzero : pendingCount ⟨s', (routeAfterTools s').node⟩ = 0 :=
        pendingCount_of_not (routeAfterTools_node s').2
      have hcount := pendingCount_of (t := t) (by rw [hnext]; rfl)
      refine ⟨out ++ closing, 0, by rw [hms, List.append_assoc], ?_, hzero.le, fun _ => hzero.symm⟩
      rw [hcount, ← hids.length_eq, List.flatMap_append, openCalls_append,
        openCalls_some hout le_rfl, Nat.sub_self]
      exact openCalls_plain hplain 0
  | forceHold hnext =>
      have hzero : pendingCount t = 0 := pendingCount_of_not (by rw [hnext]; rfl)
      refine ⟨_, 0, rfl, ?_, le_rfl, fun _ => rfl⟩
      rw [hzero]
      exact openCalls_plain (fun m hm => by rw [List.mem_singleton.mp hm]; exact ⟨rfl, rfl⟩) 0
  | forceTerminal now hnext => exact terminal_open env threadId now p hnext
  | bull answer hnext =>
      have hzero : pendingCount t = 0 := pendingCount_of_not (by rw [hnext]; rfl)
      refine ⟨_, 0, rfl, ?_, le_rfl, fun _ => rfl⟩
      rw [hzero]
      exact openCalls_plain roleMessages_plain 0
  | bear answer hnext =>
      have hzero : pendingCount t = 0 := pendingCount_of_not (by rw [hnext]; rfl)
      have hzero' : pendingCount ⟨bearNode env t.state answer,
          some (routeDebate cfg (bearNode env t.state answer)).node⟩ = 0 :=
        pendingCount_of_not (by cases routeDebate cfg (bearNode env t.state answer) <;> rfl)
      refine ⟨_, 0, rfl, ?_, hzero'.le, fun _ => hzero'.symm⟩
      rw [hzero]
      exact openCalls_plain roleMessages_plain 0
  | judge hnext hstep =>
      obtain ⟨st, closing, hrun, hplain, -, rfl⟩ := judgeNode_cases hstep
      have hzero : pendingCount t = 0 := pendingCount_of_not (by rw [hnext]; rfl)
      obtain ⟨k, hk, hall⟩ := @judgeRun_open env cfg h role _ _ hrun
      refine ⟨st.messages ++ closing, k, List.append_assoc _ _ _, ?_, Nat.zero_le _, hall⟩
      rw [hzero, List.flatMap_append, openCalls_append, hk]
      exact openCalls_plain hplain k
  | qaAgent r hnext => exact qaAgent_open env r hnext
  | qaTools hnext hstep =>
      obtain ⟨out, ids, rfl, hout, hids, -⟩ := qaToolNode_messages hstep
      have hcount := pendingCount_of (t := t) (by rw [hnext]; rfl)
      refine ⟨out, 0, rfl, ?_, le_rfl, fun _ => rfl⟩
      rw [hcount, ← hids.length_eq, openCalls_some hout le_rfl, Nat.sub_self]

/-! ### A turn -/

theorem decisionEvents_other {steps : Decision → List Kwargs} {d : Decision} :
    ∀ e ∈ decisionEvents h steps d, e.name ≠ "TOOL_CALL_START" ∧ e.name ≠ "TOOL_CALL_END" := by
  intro e he
  rcases List.mem_append.mp he with he | he
  · rcases List.mem_append.mp he with he | he
    · obtain ⟨step, -, rfl⟩ := List.mem_map.mp he
      simp
    · rw [read_name he]
      decide
  · rw [List.mem_singleton.mp he]
    simp

/-- Only the messages of an update bear on the calls. -/
theorem openCalls_update (update : NodeUpdate) (n : ℕ) :
    openCalls n (nodeUpdateEvents h shown update) =
      openCalls n (update.messages.flatMap (messageEvents h shown.role)) := by
  rw [nodeUpdateEvents, openCalls_append]
  cases openCalls n (update.messages.flatMap (messageEvents h shown.role)) with
  | none => rfl
  | some k =>
      rw [Option.bind_some]
      split
      · split
        · exact openCalls_other (fun e he => by rw [read_name he]; decide) k
        · rfl
      · exact openCalls_other decisionEvents_other k

/-- **Calls that start and end.**  In what a turn shows no call ends that has not started.  The calls
that have started and not ended are at least those that are pending, and exactly those if every step
answers what it has to: none is left when a turn ends. -/
theorem open_calls (env : Env) (cfg : DebateConfig) (threadId : Option String)
    (reads : Thread → Event → PyVal) (shown : Shown) (s : AgentState) (i : Input)
    (tr : List (Thread × Process × Event)) (t : Thread)
    (h : Path (threadStep env cfg threadId) ⟨i.apply s, some (routeEntry env.host (i.apply s))⟩ tr t)
    (hturn : ∀ x ∈ tr, ¬ IsInput x.2.2) :
    ∃ k, openCalls 0 (streamOf env cfg threadId reads shown tr) = some k ∧ pendingCount t ≤ k ∧
      ((∀ x ∈ tr, AnswersAll env x.1 x.2.2) → k = pendingCount t) := by
  induction h with
  | nil =>
      have hzero : pendingCount ⟨i.apply s, some (routeEntry env.host (i.apply s))⟩ = 0 := by
        refine pendingCount_of_not ?_
        unfold routeEntry
        split <;> rfl
      exact ⟨0, rfl, hzero.le, fun _ => hzero.symm⟩
  | @snoc tr t t' a hp hs ih =>
      obtain ⟨p, ev⟩ := a
      have hev : ¬ IsInput ev := hturn (t, p, ev) (by simp)
      obtain ⟨p', hstep⟩ := threadStep_step hs
      obtain ⟨k, hk, hle, hexact⟩ := ih fun x hx => hturn x (List.mem_append_left _ hx)
      obtain ⟨added, j, hms, hj, hjle, hjexact⟩ :=
        @step_open env cfg threadId t t' p p' ev env.host shown.role hstep hev
      have hmessages : (updateOf env reads t ev t').messages = added := by
        rw [updateOf, hms, List.drop_left]
      have hmore := openCalls_add hj (k - pendingCount t)
      rw [Nat.add_sub_cancel' hle] at hmore
      refine ⟨j + (k - pendingCount t), ?_, by omega, fun hall => ?_⟩
      · rw [streamOf_concat hev hs, openCalls_append, hk, Option.bind_some, openCalls_update,
          hmessages]
        exact hmore
      · have hk' := hexact fun x hx => hall x (List.mem_append_left _ hx)
        have hj' := hjexact (hall (t, p, ev) (by simp))
        omega

/-- A watch that is armed when the turn pauses. -/
def pausedTurn : List (Process × Event) :=
  [({}, .agent ⟨none, calling [okCall "get_candles" "call_1" []], 100⟩ 101),
    ({}, .tools ["close: 24500"] 102),
    ({}, .agent ⟨none, calling [okCall "watch_price_condition" "call_2" []], 103⟩ 104)]

theorem open_calls_paused : ∃ tr t,
    Path (threadStep defaultEnv sampleDebate (some "thread_1"))
      ⟨startedRun.apply {}, some (routeEntry defaultEnv.host (startedRun.apply {}))⟩ tr t ∧
      openCalls 0 (streamOf defaultEnv sampleDebate (some "thread_1") (fun _ _ => .none)
        plainShown tr) = some 1 := by
  have hrun : (trace (threadStep defaultEnv sampleDebate (some "thread_1"))
      ⟨startedRun.apply {}, some (routeEntry defaultEnv.host (startedRun.apply {}))⟩
      pausedTurn).map (fun r => (pendingCount r.2, decide (∀ x ∈ r.1, ¬ IsInput x.2.2),
        decide (∀ x ∈ r.1, AnswersAll defaultEnv x.1 x.2.2))) = some (1, true, true) := by
    decide +kernel
  obtain ⟨⟨tr, t⟩, htr, hout⟩ := Option.map_eq_some_iff.mp hrun
  simp only [Prod.mk.injEq, decide_eq_true_eq] at hout
  have hpath := Path.of_trace htr
  obtain ⟨k, hk, -, hexact⟩ := open_calls defaultEnv sampleDebate (some "thread_1")
    (fun _ _ => .none) plainShown {} startedRun tr t hpath hout.2.1
  exact ⟨tr, t, hpath, by rw [hk, hexact hout.2.2, hout.1]⟩

end AiTrader.Stream
