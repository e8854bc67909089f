import AiTrader.Agent.Graph

/-! # Every tool call is answered once

`calls_answered`: in a run in which every step answers what it has to, each call of each earlier
assistant message has exactly one result whenever a model is invoked on the thread's messages
and when the run ends; inside the Judge's loop the same holds of the messages its model is
invoked on.

What a step has to answer (`AnswersAll`) is left open in four places:

* `force_terminal` answers the pending ok watches and no other call;
* the Judge does not look at the read-only calls of a response that also declares;
* the last Q&A turn ends the run even if its response carries calls;
* input that is not Q&A is streamed into the thread as it is, also when a call is unanswered.

`terminal_orphans_call` is a run that ends with an unanswered call. -/

namespace AiTrader.Agent

open Text Transition Pairing

variable {env : Env} {cfg : DebateConfig} {threadId : Option String} {t t' : Thread}
  {s s' : AgentState} {p p' : Process} {ev : Event} {now : ℚ} {results : List String}
  {ms out : List Message} {m : Message} {ids : List String}

/-- Each call has exactly one result after it: before its id is issued again, and so in all of
what follows when it is not. -/
def AnsweredOnce (ms : List Message) : Prop :=
  ∀ pre m rest, ms = pre ++ m :: rest → ∀ k ∈ toolSignature.issues m,
    answersBefore toolSignature k rest = 1 ∧
      ((∀ x ∈ rest, k ∉ toolSignature.issues x) →
        rest.countP (fun x => toolSignature.answers x = some k) = 1)

theorem AnsweredOnce.of_settled (h : Settled toolSignature ms) : AnsweredOnce ms := by
  rintro pre m rest rfl k hk
  have hone := h.answered hk
  refine ⟨hone, fun hfresh => ?_⟩
  rw [← answersBefore_eq_countP hfresh, hone]

theorem AnsweredOnce.settled (h : AnsweredOnce ms) : Settled toolSignature ms := by
  have hsuffix : ∀ post pre, ms = pre ++ post → Settled toolSignature post := by
    intro post
    induction post with
    | nil => exact fun _ _ => trivial
    | cons m post ih =>
        intro pre hms
        refine ⟨fun k hk => (h pre m post hms k hk).1, ih (pre ++ [m]) ?_⟩
        rw [hms, List.append_assoc]
        rfl
  exact hsuffix ms [] rfl

/-- What a model of the thread is invoked on: a Q&A turn flattens the earlier exchange. -/
def conversation (h : Host) (s : AgentState) : List Message :=
  if s.modeKey h = "QA" then qaConversation s.messages else s.messages

/-- Nodes that run with calls pending. -/
def Node.answersCalls : Node → Bool
  | .tools | .forceTerminal | .qaTools => true
  | _ => false

/-- Where a model runs next, and where the run has ended, no call is open. -/
def CallsAnswered (h : Host) (t : Thread) : Prop :=
  t.next.all (fun n => !n.answersCalls) = true → AnsweredOnce (conversation h t.state)

/-- The Judge's model is invoked on messages without an open call. -/
def JudgeAnswered (env : Env) (cfg : DebateConfig) : Event → Prop
  | .judge turns => ∀ st, judgeRun env cfg turns = some st → ∀ ms ∈ st.requests, AnsweredOnce ms
  | _ => True

/-- The ids within one response are distinct. -/
def Response.DistinctIds (r : Response) : Prop := (r.calls.map ExtractedCall.id).Nodup

def DistinctIds : Event → Prop
  | .agent turn _ => turn.response.DistinctIds
  | .qaAgent r => r.DistinctIds
  | .judge turns => ∀ turn ∈ turns, ∀ r ∈ turn.response, r.DistinctIds
  | _ => True

/-- The step leaves no call open that it should have answered. -/
def AnswersAll (env : Env) (t : Thread) : Event → Prop
  | .forceTerminal _ => ∀ tc ∈ (pendingCalls t.state.messages).calls,
      isWatch tc = true ∧ (pendingCalls t.state.messages).isOk tc = true
  | .judge turns => ∀ turn ∈ turns, ∀ r ∈ turn.response,
      (judgeDeclares r).isEmpty = true ∨ (judgeReadonly r).isEmpty = true
  | .qaAgent r => (env.personalisationRefusal (latestUserQuestion t.state.messages)).isSome ∨
      t.state.qaTurns + 1 < maxQaTurns ∨ r.calls.isEmpty = true
  | .input i => routeEntry env.host (i.apply t.state) = .qaAgent ∨
      Settled toolSignature t.state.messages
  | _ => True

/-! ### Pieces of a history -/

theorem paired_plain (h : ∀ m ∈ ms, m.IsPlain) : Paired toolSignature ms := .plain h

theorem paired_answered (hm : toolSignature.answers m = none)
    (hnd : (toolSignature.issues m).Nodup) (hout : Answers out ids)
    (hids : ids.Perm (toolSignature.issues m)) : Paired toolSignature (m :: out) :=
  .block hm hnd hout.silent (hout.ids ▸ hids)

theorem pendingCalls_snoc (pre : List Message) (m : Message) :
    (pendingCalls (pre ++ [m])).calls.map ToolCall.id = toolSignature.issues m := by
  simp only [pendingCalls, List.getLast?_append, List.getLast?_singleton, Option.some_or]
  cases m <;> rfl

theorem reply_issues (h : Host) (r : Response) :
    toolSignature.issues (replyMessage h r) = r.calls.map ExtractedCall.id := by
  simp [replyMessage, toolSignature, ExtractedCall.toCall, Function.comp_def]

theorem qaMessage_issues (h : Host) (r : Response) :
    toolSignature.issues (qaMessage h r) = r.calls.map ExtractedCall.id := by
  simp [qaMessage, toolSignature, ExtractedCall.toCall, Function.comp_def]

theorem judgeMessage_issues (r : Response) :
    toolSignature.issues (judgeMessage r) = r.calls.map ExtractedCall.id := by
  simp [judgeMessage, toolSignature, ExtractedCall.toCall, Function.comp_def]

theorem advocateMessage_plain {answer : Option String} :
    ∀ m ∈ advocateMessage env s ms answer, m.IsPlain := by
  intro m hm
  unfold advocateMessage at hm
  split at hm
  · rw [List.mem_singleton.mp hm]
    exact ⟨rfl, rfl⟩
  · cases hm

theorem roleMessages_plain {answer : Option String} : ∀ m ∈ roleMessages answer, m.IsPlain := by
  intro m hm
  unfold roleMessages at hm
  split at hm
  · split at hm
    · cases hm
    · rw [List.mem_singleton.mp hm]
      exact ⟨rfl, rfl⟩
  · cases hm

theorem human_plain (content : String) : (Message.human content).IsPlain := ⟨rfl, rfl⟩

/-! ### The replay of a Q&A turn -/

/-- A message that some node of the graph wrote. -/
def Message.FromNode (m : Message) : Prop := m.isHuman = false ∧ m.isSystem = false

theorem splitCurrentTurn_of_no_human (h : ∀ m ∈ ms, m.isHuman = false) :
    splitCurrentTurn ms = (ms, []) := by
  induction ms with
  | nil => rfl
  | cons m ms ih =>
      have hm : m.isHuman = false := h m List.mem_cons_self
      rw [splitCurrentTurn, ih (fun x hx => h x (List.mem_cons_of_mem _ hx))]
      simp [hm]

theorem splitCurrentTurn_eq (prior : List Message) (q : String) {current : List Message}
    (h : ∀ m ∈ current, m.isHuman = false) :
    splitCurrentTurn (prior ++ .human q :: current) = (prior, .human q :: current) := by
  induction prior with
  | nil =>
      rw [List.nil_append, splitCurrentTurn, splitCurrentTurn_of_no_human h]
      rfl
  | cons m prior ih => rw [List.cons_append, splitCurrentTurn, ih]

theorem flattenMessage_plain {m m' : Message} (h : flattenMessage m = some m') : m'.IsPlain := by
  cases m with
  | system content => cases h; exact ⟨rfl, rfl⟩
  | human content => cases h; exact ⟨rfl, rfl⟩
  | tool content i name => cases h
  | ai content calls statuses synthetic =>
      cases calls with
      | nil => cases h; exact ⟨rfl, rfl⟩
      | cons tc calls =>
          simp only [flattenMessage] at h
          split at h
          · cases h
          · cases h; exact ⟨rfl, rfl⟩

/-- The conversation of a Q&A turn is paired as soon as the current turn is: flattening removes
earlier calls and their results together. -/
theorem qaConversation_paired (prior : List Message) (q : String) {current : List Message}
    (hnode : ∀ m ∈ current, m.FromNode) (hcur : Paired toolSignature current) :
    Paired toolSignature (qaConversation (prior ++ .human q :: current)) := by
  have hkeep : current.filter (fun m => !m.isSystem) = current := by
    rw [List.filter_eq_self]
    intro m hm
    simp [(hnode m hm).2]
  have hfilter : (prior ++ .human q :: current).filter (fun m => !m.isSystem) =
      prior.filter (fun m => !m.isSystem) ++ .human q :: current := by
    rw [List.filter_append, List.filter_cons, hkeep]
    rfl
  have hsplit := splitCurrentTurn_eq (prior.filter fun m => !m.isSystem) q
    (fun m hm => (hnode m hm).1)
  simp only [qaConversation, flattenPriorToolHistory, hfilter, hsplit]
  refine (paired_plain fun m hm => ?_).append ?_
  · obtain ⟨x, -, hx⟩ := List.mem_filterMap.mp hm
    exact flattenMessage_plain hx
  · have hquestion : ∀ m ∈ [Message.human q], m.IsPlain := by
      intro m hm
      rw [List.mem_singleton.mp hm]
      exact human_plain q
    exact (paired_plain hquestion).append hcur

/-! ### The Judge's loop -/

theorem count_ok_kinds (ok : List ExtractedCall) (k : String) :
    ((ok.filter isWatchCall).map ExtractedCall.id).count k +
      ((ok.filter isDeclareCall).map ExtractedCall.id).count k +
      ((ok.filter isReadonlyCall).map ExtractedCall.id).count k =
      (ok.map ExtractedCall.id).count k := by
  induction ok with
  | nil => rfl
  | cons c ok ih =>
      have hexcl : isDeclareCall c = true → isWatchCall c = false := by
        intro hd
        simp only [isDeclareCall, isWatchCall, isDeclare, isWatch, decide_eq_true_eq] at hd ⊢
        rw [hd]
        decide
      cases hd : isDeclareCall c with
      | true =>
          have hw := hexcl hd
          have hr : isReadonlyCall c = false := by simp [isReadonlyCall, hd]
          simp only [List.filter_cons, hd, hw, hr, if_true, List.map_cons, List.count_cons]
          simp only [Bool.false_eq_true, if_false]
          omega
      | false =>
          cases hw : isWatchCall c with
          | true =>
              have hr : isReadonlyCall c = false := by simp [isReadonlyCall, hw]
              simp only [List.filter_cons, hd, hw, hr, if_true, List.map_cons, List.count_cons]
              simp only [Bool.false_eq_true, if_false]
              omega
          | false =>
              have hr : isReadonlyCall c = true := by simp [isReadonlyCall, hd, hw]
              simp only [List.filter_cons, hd, hw, hr, if_true, List.map_cons, List.count_cons]
              simp only [Bool.false_eq_true, if_false]
              omega

theorem judge_ids (r : Response) :
    ((r.calls.filter fun c => !c.isOk).map ExtractedCall.id ++
      ((judgeOk r).filter isWatchCall).map ExtractedCall.id ++
      ((judgeDeclares r).map ToolCall.id ++ (judgeReadonly r).map ToolCall.id)).Perm
    (r.calls.map ExtractedCall.id) := by
  have hid : ToolCall.id ∘ ExtractedCall.toCall = ExtractedCall.id := rfl
  rw [List.perm_iff_count]
  intro k
  have hsplit := (List.filter_append_perm ExtractedCall.isOk r.calls).map ExtractedCall.id
  have hall := hsplit.count_eq k
  have hkinds := count_ok_kinds (judgeOk r) k
  simp only [List.map_append, List.count_append] at hall
  simp only [judgeDeclares, judgeReadonly, List.map_map, hid, List.count_append]
  simp only [judgeOk] at hkinds ⊢
  omega

theorem clarify_answers {budget used : ℕ} {calls : List ToolCall}
    {c : List Message × List ToolCall} (h : clarify budget used calls results = some c) :
    Answers c.1 (calls.map ToolCall.id) := by
  induction calls generalizing used results c with
  | nil =>
      cases results with
      | nil =>
          simp only [clarify, Option.some.injEq] at h
          subst h
          exact .nil
      | cons r results => simp [clarify] at h
  | cons tc calls ih =>
      have hone : ∀ content name, Answers [answer content name tc] [tc.id] := fun content name =>
        ⟨by simp [answer, toolSignature], by simp [answer, toolSignature]⟩
      simp only [clarify] at h
      split at h
      · obtain ⟨c', hc', rfl⟩ := Option.map_eq_some_iff.mp h
        exact (hone _ _).append (ih hc')
      · split at h
        · cases h
        · obtain ⟨c', hc', rfl⟩ := Option.map_eq_some_iff.mp h
          exact (hone _ _).append (ih hc')

theorem judgeStep_paired {budget : ℕ} {st st' : JudgeState} {r : Response} {turn : JudgeTurn}
    {ctl : LoopControl} (hst : Paired toolSignature st.messages) (hd : r.DistinctIds)
    (hall : (judgeDeclares r).isEmpty = true ∨ (judgeReadonly r).isEmpty = true)
    (h : judgeStep env budget st r turn = some (st', ctl)) :
    Paired toolSignature st'.messages ∧ st'.requests = st.requests := by
  have hfailed : Answers ((r.calls.filter (fun c => !c.isOk)).map (judgeFailedAnswer env.host))
      ((r.calls.filter (fun c => !c.isOk)).map ExtractedCall.id) := .map (fun c => ⟨_, _, rfl⟩) _
  have hwatch : Answers (((judgeOk r).filter isWatchCall).map fun c =>
      answer judgeWatchNote "watch_price_condition" c.toCall)
      (((judgeOk r).filter isWatchCall).map ExtractedCall.id) := .map (fun c => ⟨_, _, rfl⟩) _
  have hblock : ∀ out ids, Answers out ids →
      ids = (judgeDeclares r).map ToolCall.id ++ (judgeReadonly r).map ToolCall.id →
      Paired toolSignature (st.messages ++ judgeOpening env.host r ++ out) := by
    rintro out ids hout rfl
    rw [List.append_assoc]
    refine hst.append (paired_answered rfl ?_ ((hfailed.append hwatch).append hout) ?_)
    · rw [judgeMessage_issues]
      exact hd
    · rw [judgeMessage_issues]
      exact judge_ids r
  simp only [judgeStep] at h
  split at h
  · -- declarations are executed; there is no read-only call beside them
    rename_i hdec
    have hro : judgeReadonly r = [] := by
      rcases hall with hnil | hnil
      · simp [hnil] at hdec
      · exact List.isEmpty_iff.mp hnil
    split at h
    · rename_i hlen
      have hpaired := hblock _ _ (.executed hlen) (by simp [hro])
      split at h <;> cases h <;> exact ⟨hpaired, rfl⟩
    · cases h
  · rename_i hdec
    have hnil : judgeDeclares r = [] := by simpa using hdec
    split at h
    · obtain ⟨c, hc, heq⟩ := Option.map_eq_some_iff.mp h
      cases heq
      exact ⟨hblock _ _ (clarify_answers hc) (by simp [hnil]), rfl⟩
    · rename_i hro
      have hro' : judgeReadonly r = [] := by simpa using hro
      have hpaired := hblock [] [] .nil (by simp [hnil, hro'])
      rw [List.append_nil] at hpaired
      split at h <;> cases h <;> exact ⟨hpaired, rfl⟩

/-- The Judge's messages are paired at every invocation of its model and at the end. -/
theorem judgeRun_paired {st : JudgeState} {turns : List JudgeTurn}
    (hd : ∀ turn ∈ turns, ∀ r ∈ turn.response, r.DistinctIds)
    (hall : ∀ turn ∈ turns, ∀ r ∈ turn.response,
      (judgeDeclares r).isEmpty = true ∨ (judgeReadonly r).isEmpty = true)
    (h : judgeRun env cfg turns = some st) :
    Paired toolSignature st.messages ∧ ∀ ms ∈ st.requests, Paired toolSignature ms := by
  obtain ⟨-, hst⟩ := judgeLoop_rule
    (I := fun _ st => Paired toolSignature st.messages ∧
      ∀ ms ∈ st.requests, Paired toolSignature ms)
    (fun _ st hst => by
      refine ⟨hst.1, fun ms hms => ?_⟩
      rcases List.mem_append.mp hms with hms | hms
      · exact hst.2 ms hms
      · rw [List.mem_singleton.mp hms]
        exact hst.1)
    (fun _ st r turn st' ctl hturn hr hst hs => by
      obtain ⟨hmessages, hrequests⟩ :=
        judgeStep_paired hst.1 (hd turn hturn r hr) (hall turn hturn r hr) hs
      exact ⟨hmessages, hrequests ▸ hst.2⟩)
    h ⟨.nil, by simp⟩
  exact hst

/-! ### The invariant -/

/-- A history whose last message is still to be answered. -/
structure Pending (ms pre : List Message) (m : Message) : Prop where
  eq : ms = pre ++ [m]
  paired : Paired toolSignature pre
  silent : toolSignature.answers m = none
  nodup : (toolSignature.issues m).Nodup

/-- The messages fit the node that runs next. -/
def Fits (next : Option Node) (ms : List Message) : Prop :=
  if next.any Node.answersCalls = true then ∃ pre m, Pending ms pre m
  else Paired toolSignature ms

def Node.isQa : Node → Bool
  | .qaAgent | .qaTools => true
  | _ => false

/-- **Calls and results match** in the history of a thread; during Q&A, in the current turn. -/
structure PairingInv (h : Host) (t : Thread) : Prop where
  analysis : t.state.modeKey h ≠ "QA" →
    t.next.any Node.isQa = false ∧ Fits t.next t.state.messages
  qa : t.state.modeKey h = "QA" → t.next.all Node.isQa = true ∧
    ∃ prior q current, t.state.messages = prior ++ .human q :: current ∧
      (∀ m ∈ current, m.FromNode) ∧ Fits t.next current
  closed : Closed toolSignature t.state.messages

theorem Pending.closed {pre : List Message} (h : Pending ms pre m) : Closed toolSignature ms := by
  rw [h.eq]
  exact h.paired.closed.append (.singleton h.silent)

theorem Pending.answer {pre closing : List Message} (h : Pending ms pre m) (hout : Answers out ids)
    (hids : ids.Perm ((pendingCalls ms).calls.map ToolCall.id))
    (hplain : ∀ x ∈ closing, x.IsPlain) : Paired toolSignature (ms ++ out ++ closing) := by
  rw [h.eq, pendingCalls_snoc] at hids
  rw [h.eq, List.append_assoc pre]
  exact (h.paired.append (paired_answered h.silent h.nodup hout hids)).append (paired_plain hplain)

theorem Fits.closed {next : Option Node} (h : Fits next ms) : Closed toolSignature ms := by
  unfold Fits at h
  split at h
  · obtain ⟨pre, m, hp⟩ := h
    exact hp.closed
  · exact h.closed

theorem PairingInv.of_analysis {h : Host} (hmode : t.state.modeKey h ≠ "QA")
    (hnext : t.next.any Node.isQa = false) (hfits : Fits t.next t.state.messages) :
    PairingInv h t :=
  ⟨fun _ => ⟨hnext, hfits⟩, fun hqa => absurd hqa hmode, hfits.closed⟩

theorem PairingInv.mode {h : Host} (hinv : PairingInv h t) {n : Node} (hnext : t.next = some n)
    (hn : n.isQa = false) : t.state.modeKey h ≠ "QA" := by
  intro hqa
  have hall := (hinv.qa hqa).1
  simp [hnext, hn] at hall

theorem PairingInv.paired {h : Host} (hinv : PairingInv h t) {n : Node} (hnext : t.next = some n)
    (hn : n.isQa = false) (hc : n.answersCalls = false) :
    Paired toolSignature t.state.messages := by
  have hfits := (hinv.analysis (hinv.mode hnext hn)).2
  simpa [Fits, hnext, hc] using hfits

theorem PairingInv.pending {h : Host} (hinv : PairingInv h t) {n : Node} (hnext : t.next = some n)
    (hn : n.isQa = false) (hc : n.answersCalls = true) :
    ∃ pre m, Pending t.state.messages pre m := by
  have hfits := (hinv.analysis (hinv.mode hnext hn)).2
  simpa [Fits, hnext, hc] using hfits

/-! ### The steps -/

theorem input_messages (i : Input) :
    ∃ q, (i.apply s).messages = s.messages ++ [.human q] := by
  cases i <;> exact ⟨_, rfl⟩

theorem shouldContinue_node (env : Env) (s : AgentState) (now : ℚ) :
    (shouldContinue env s now).node.any Node.isQa = false ∧
      ((shouldContinue env s now).node.any Node.answersCalls = false →
        (pendingCalls s.messages).calls = []) := by
  simp only [shouldContinue]
  split
  · split
    · split <;> exact ⟨rfl, fun h => by cases h⟩
    · exact ⟨rfl, fun h => by cases h⟩
  · rename_i hcalls
    have hnil : (pendingCalls s.messages).calls = [] := by simpa using hcalls
    refine ⟨?_, fun _ => hnil⟩
    repeat' split
    all_goals rfl

theorem routeAfterTools_node (s : AgentState) :
    (routeAfterTools s).node.any Node.isQa = false ∧
      (routeAfterTools s).node.any Node.answersCalls = false := by
  unfold routeAfterTools
  repeat' split
  all_goals exact ⟨rfl, rfl⟩

theorem fits_reply {next : Option Node} {pre : List Message} (hpre : Paired toolSignature pre)
    (hs : toolSignature.answers m = none) (hnd : (toolSignature.issues m).Nodup)
    (hcalls : next.any Node.answersCalls = false → toolSignature.issues m = []) :
    Fits next (pre ++ [m]) := by
  unfold Fits
  split
  · exact ⟨pre, m, rfl, hpre, hs, hnd⟩
  · rename_i hc
    refine hpre.append (paired_plain fun x hx => ?_)
    rw [List.mem_singleton.mp hx]
    exact ⟨hcalls (by simpa using hc), hs⟩

theorem fits_paired {next : Option Node} (hc : next.any Node.answersCalls = false)
    (hms : Paired toolSignature ms) : Fits next ms := by
  simpa [Fits, hc] using hms

theorem toolNode_mode (h : toolNode env threadId s now results p = some (s', p')) :
    s'.mode = s.mode := by
  obtain ⟨-, ⟨-, rfl, -⟩ | ⟨d, closing, -, -, -, rfl⟩⟩ := toolNode_cases h <;>
    exact noteResume_mode

theorem executed_fromNode {calls : List ToolCall} :
    ∀ m ∈ executed calls results, m.FromNode := by
  induction calls generalizing results with
  | nil => simp [executed]
  | cons tc calls ih =>
      cases results with
      | nil => simp [executed]
      | cons r results =>
          intro m hm
          rcases List.mem_cons.mp hm with rfl | hm
          · exact ⟨rfl, rfl⟩
          · exact ih m hm

theorem qaToolNode_messages {subagentResults : List String}
    (h : qaToolNode s results subagentResults = some s') :
    ∃ out ids, s' = { s with messages := s.messages ++ out } ∧ Answers out ids ∧
      ids.Perm ((pendingCalls s.messages).calls.map ToolCall.id) ∧ ∀ m ∈ out, m.FromNode := by
  simp only [qaToolNode] at h
  split at h
  · rename_i hlen
    cases h
    refine ⟨_, _, rfl, ((Answers.executed hlen.1).append (.executed hlen.2)).append
      (.map (fun tc => ⟨_, _, rfl⟩) _), ?_, ?_⟩
    · rw [List.perm_iff_count]
      intro k
      have hok := count_gate (pendingCalls s.messages).isOk (pendingCalls s.messages).calls k
      have hsub := count_gate isSubagent (okCallsOf (pendingCalls s.messages)) k
      simp only [List.count_append, okCallsOf] at hsub ⊢
      omega
    · intro m hm
      rcases List.mem_append.mp hm with hm | hm
      · rcases List.mem_append.mp hm with hm | hm
        · exact executed_fromNode m hm
        · exact executed_fromNode m hm
      · obtain ⟨tc, -, rfl⟩ := List.mem_map.mp hm
        exact ⟨rfl, rfl⟩
  · cases h

theorem PairingInv.input {h : Host} (hinv : PairingInv h t) (i : Input)
    (hok : routeEntry h (i.apply t.state) = .qaAgent ∨ Settled toolSignature t.state.messages) :
    PairingInv h ⟨i.apply t.state, some (routeEntry h (i.apply t.state))⟩ := by
  obtain ⟨q, hq⟩ := input_messages (s := t.state) i
  have hhuman : Paired toolSignature [.human q] := paired_plain fun m hm => by
    rw [List.mem_singleton.mp hm]
    exact human_plain q
  by_cases hmode : (i.apply t.state).modeKey h = "QA"
  · rw [routeEntry, if_pos hmode]
    refine ⟨fun hne => absurd hmode hne, fun _ => ⟨rfl, t.state.messages, q, [], hq, by simp, ?_⟩, ?_⟩
    · exact .nil
    · show Closed toolSignature (i.apply t.state).messages
      rw [hq]
      exact hinv.closed.append hhuman.closed
  · rw [routeEntry, if_neg hmode] at hok ⊢
    have hsettled : Settled toolSignature t.state.messages := by
      rcases hok with hqa | hsettled
      · cases hqa
      · exact hsettled
    refine .of_analysis hmode rfl ?_
    show Paired toolSignature (i.apply t.state).messages
    rw [hq]
    exact Paired.append ⟨hsettled, hinv.closed⟩ hhuman

theorem callModel_messages (env : Env) (s : AgentState) (turn : ModelTurn) :
    ∃ advocate, (∀ m ∈ advocate, m.IsPlain) ∧ (callModel env s turn).messages =
      s.messages ++ advocate ++ [replyMessage env.host turn.response] :=
  ⟨_, advocateMessage_plain, rfl⟩

theorem PairingInv.agent (hinv : PairingInv env.host t) (turn : ModelTurn)
    (hnext : t.next = some .agent) (hd : turn.response.DistinctIds) :
    PairingInv env.host
      ⟨callModel env t.state turn, (shouldContinue env (callModel env t.state turn) now).node⟩ := by
  have hmode := hinv.mode hnext rfl
  have hpaired := hinv.paired hnext rfl rfl
  obtain ⟨hqa, hcalls⟩ := shouldContinue_node env (callModel env t.state turn) now
  obtain ⟨advocate, hplain, hms⟩ := callModel_messages env t.state turn
  have hissues := reply_issues env.host turn.response
  refine .of_analysis hmode hqa ?_
  rw [hms] at hcalls ⊢
  refine fits_reply (hpaired.append (paired_plain hplain)) rfl ?_ fun hc => ?_
  · rw [hissues]
    exact hd
  · rw [← pendingCalls_snoc (t.state.messages ++ advocate), List.map_eq_nil_iff]
    exact hcalls hc

theorem PairingInv.qaAgent (hinv : PairingInv env.host t) (r : Response)
    (hnext : t.next = some .qaAgent) (hd : r.DistinctIds)
    (hok : AnswersAll env t (.qaAgent r)) :
    PairingInv env.host ⟨qaNode env t.state r,
      if qaShouldContinue (qaNode env t.state r) then some .qaTools else none⟩ := by
  have hmode : t.state.modeKey env.host = "QA" := by
    by_contra hne
    have hfalse := (hinv.analysis hne).1
    simp [hnext, Node.isQa] at hfalse
  obtain ⟨prior, q, current, hms, hnode, hfits⟩ := (hinv.qa hmode).2
  have hcur : Paired toolSignature current := by
    simpa [Fits, hnext, Node.answersCalls] using hfits
  -- the node appends one message that issues the calls of the response, or none
  have happ : ∃ m, (qaNode env t.state r).messages = t.state.messages ++ [m] ∧ m.FromNode ∧
      toolSignature.answers m = none ∧ (toolSignature.issues m).Nodup ∧
      (toolSignature.issues m = [] ∨ (toolSignature.issues m = r.calls.map ExtractedCall.id ∧
        env.personalisationRefusal (latestUserQuestion t.state.messages) = none)) := by
    unfold qaNode
    split
    · exact ⟨_, rfl, ⟨rfl, rfl⟩, rfl, List.nodup_nil, .inl rfl⟩
    · rename_i hrefusal
      refine ⟨_, rfl, ⟨rfl, rfl⟩, rfl, ?_, .inr ⟨qaMessage_issues _ _, hrefusal⟩⟩
      rw [qaMessage_issues]
      exact hd
  obtain ⟨m, hm, hmnode, hsilent, hnodup, hissues⟩ := happ
  have hkeep : (qaNode env t.state r).mode = t.state.mode := by
    unfold qaNode
    split <;> rfl
  have hturns : (qaNode env t.state r).qaTurns = t.state.qaTurns + 1 := by
    unfold qaNode
    split <;> rfl
  have hcalls : qaShouldContinue (qaNode env t.state r) = false → toolSignature.issues m = [] := by
    intro hend
    rcases hissues with hnil | ⟨hids, hrefusal⟩
    · exact hnil
    · have hpend := pendingCalls_snoc t.state.messages m
      rcases hok with hrefused | hlt | hempty
      · rw [hrefusal] at hrefused
        cases hrefused
      · simp only [qaShouldContinue, hm, hturns, hlt, decide_true, Bool.and_true,
          Bool.not_eq_false', List.isEmpty_iff] at hend
        rw [← hpend, hend]
        rfl
      · rw [hids, List.isEmpty_iff.mp hempty]
        rfl
  refine ⟨fun hne => absurd ?_ hne, fun _ => ⟨?_, prior, q, current ++ [m], ?_, ?_, ?_⟩, ?_⟩
  · rw [← hmode]
    simp only [AgentState.modeKey, hkeep]
  · dsimp only
    split <;> rfl
  · show (qaNode env t.state r).messages = _
    rw [hm, hms]
    simp
  · intro x hx
    rcases List.mem_append.mp hx with hx | hx
    · exact hnode x hx
    · rw [List.mem_singleton.mp hx]
      exact hmnode
  · refine fits_reply hcur hsilent hnodup fun hc => hcalls ?_
    by_contra htrue
    simp [Bool.not_eq_false _ ▸ htrue, Node.answersCalls] at hc
  · show Closed toolSignature (qaNode env t.state r).messages
    rw [hm]
    exact hinv.closed.append (.singleton hsilent)

theorem PairingInv.terminal (hinv : PairingInv env.host t) (hnext : t.next = some .forceTerminal)
    (hok : AnswersAll env t (.forceTerminal now)) :
    PairingInv env.host ⟨(forceTerminal env threadId t.state now p).1, none⟩ := by
  have hmode := hinv.mode hnext rfl
  obtain ⟨pre, m, hpending⟩ := hinv.pending hnext rfl rfl
  set pending := pendingCalls t.state.messages with hp
  have hall : pending.calls.filter (fun tc => isWatch tc && pending.isOk tc) = pending.calls := by
    rw [List.filter_eq_self]
    intro tc htc
    obtain ⟨hw, hs⟩ := hok tc htc
    rw [hw, hs]
    rfl
  refine .of_analysis hmode rfl ?_
  show Paired toolSignature (forceTerminal env threadId t.state now p).1.messages
  simp only [forceTerminal, ← hp, hall]
  have hanswers : ∀ content, Answers (pending.calls.map (answer content "watch_price_condition"))
      (pending.calls.map ToolCall.id) := fun content => .map (fun tc => ⟨_, _, rfl⟩) _
  refine hpending.answer (hanswers _) (List.Perm.refl _) ?_
  intro x hx
  rw [List.mem_singleton.mp hx]
  exact finalMessage_plain _ _

/-- **One step of the graph** answers what the step before it opened. -/
theorem PairingInv.step (hinv : PairingInv env.host t)
    (h : Step env cfg threadId t p ev t' p') (hd : DistinctIds ev) (hok : AnswersAll env t ev) :
    PairingInv env.host t' := by
  cases h with
  | input i => exact hinv.input i hok
  | agent turn now hnext => exact hinv.agent turn hnext hd
  | tools hnext hs =>
      obtain ⟨pre, m, hpending⟩ := hinv.pending hnext rfl rfl
      obtain ⟨out, closing, ids, hms, hout, hids, hplain⟩ := toolNode_messages hs
      obtain ⟨hqa, hclosed⟩ := routeAfterTools_node ‹AgentState›
      have hmode := hinv.mode hnext rfl
      refine .of_analysis ?_ hqa (fits_paired hclosed ?_)
      · simpa only [AgentState.modeKey, toolNode_mode hs] using hmode
      · rw [hms]
        exact hpending.answer hout hids hplain
  | forceHold hnext =>
      refine .of_analysis (hinv.mode hnext rfl) rfl ?_
      refine (hinv.paired hnext rfl rfl).append (paired_plain fun x hx => ?_)
      rw [List.mem_singleton.mp hx]
      exact ⟨rfl, rfl⟩
  | forceTerminal now hnext => exact hinv.terminal hnext hok
  | bull answer hnext =>
      refine .of_analysis (hinv.mode hnext rfl) rfl ?_
      exact (hinv.paired hnext rfl rfl).append (paired_plain roleMessages_plain)
  | bear answer hnext =>
      refine .of_analysis (hinv.mode hnext rfl) ?_ (fits_paired ?_ ?_)
      · cases routeDebate cfg (bearNode env t.state answer) <;> rfl
      · cases routeDebate cfg (bearNode env t.state answer) <;> rfl
      · exact (hinv.paired hnext rfl rfl).append (paired_plain roleMessages_plain)
  | judge hnext hs =>
      obtain ⟨st, closing, hrun, hplain, -, rfl⟩ := judgeNode_cases hs
      have hjudge := (judgeRun_paired hd hok hrun).1
      refine .of_analysis ?_ rfl ?_
      · exact hinv.mode hnext rfl
      · exact ((hinv.paired hnext rfl rfl).append hjudge).append (paired_plain hplain)
  | qaAgent r hnext => exact hinv.qaAgent r hnext hd hok
  | qaTools hnext hs =>
      have hmode : t.state.modeKey env.host = "QA" := by
        by_contra hne
        have hfalse := (hinv.analysis hne).1
        simp [hnext, Node.isQa] at hfalse
      obtain ⟨prior, q, current, hms, hnode, hfits⟩ := (hinv.qa hmode).2
      obtain ⟨pre, m, hpending⟩ : ∃ pre m, Pending current pre m := by
        simpa [Fits, hnext, Node.answersCalls] using hfits
      obtain ⟨out, ids, rfl, hout, hids, hfrom⟩ := qaToolNode_messages hs
      have hcur : pendingCalls t.state.messages = pendingCalls current := by
        have hlast : (prior ++ .human q :: (pre ++ [m])).getLast? = (pre ++ [m]).getLast? := by
          simp [List.getLast?_append, List.getLast?_cons]
        rw [hms, hpending.eq, pendingCalls, pendingCalls, hlast]
      rw [hcur] at hids
      have hnothing : ∀ x ∈ ([] : List Message), x.IsPlain := by simp
      have hpaired := hpending.answer hout hids hnothing
      rw [List.append_nil] at hpaired
      refine ⟨fun hne => absurd hmode hne, fun _ => ⟨rfl, prior, q, current ++ out, ?_, ?_, hpaired⟩,
        ?_⟩
      · show t.state.messages ++ out = _
        rw [hms]
        simp
      · intro x hx
        rcases List.mem_append.mp hx with hx | hx
        · exact hnode x hx
        · exact hfrom x hx
      · show Closed toolSignature (t.state.messages ++ out)
        have hclosed := hinv.closed
        rw [hms, hpending.eq] at hclosed ⊢
        have hpre : Closed toolSignature (prior ++ .human q :: pre) := by
          have hsplit : Closed toolSignature ((prior ++ .human q :: pre) ++ [m]) := by
            simpa using hclosed
          exact hsplit.of_append
        have hblock := paired_answered hpending.silent hpending.nodup hout
          (by rw [← pendingCalls_snoc pre m, ← hpending.eq]; exact hids)
        have happ := hpre.append hblock.closed
        simpa using happ

theorem modeKey_init (h : Host) : ({} : AgentState).modeKey h = "" := by
  have hstrip : strip "" = "" := by decide
  simp only [AgentState.modeKey, Option.getD_none, hstrip, Casing.upper]
  rfl

theorem PairingInv.init (h : Host) : PairingInv h {} := by
  refine .of_analysis ?_ rfl ?_
  · show ({} : AgentState).modeKey h ≠ "QA"
    rw [modeKey_init]
    decide
  · show Paired toolSignature []
    exact .nil

theorem PairingInv.answered {h : Host} (hinv : PairingInv h t) : CallsAnswered h t := by
  intro hnext
  have hopen : t.next.any Node.answersCalls = false := by
    cases hn : t.next with
    | none => rfl
    | some n => simpa [hn] using hnext
  by_cases hmode : t.state.modeKey h = "QA"
  · obtain ⟨-, prior, q, current, hms, hnode, hfits⟩ := hinv.qa hmode
    have hcur : Paired toolSignature current := by simpa [Fits, hopen] using hfits
    have hpaired := qaConversation_paired prior q hnode hcur
    rw [conversation, if_pos hmode, hms]
    exact AnsweredOnce.of_settled hpaired.settled
  · have hpaired : Paired toolSignature t.state.messages := by
      simpa [Fits, hopen] using (hinv.analysis hmode).2
    rw [conversation, if_neg hmode]
    exact AnsweredOnce.of_settled hpaired.settled

/-- **Every tool call is answered exactly once**, wherever a model runs next and at the end of a
run, if every step of the run leaves no call open. -/
theorem calls_answered (env : Env) (cfg : DebateConfig) (threadId : Option String)
    (tr : List (Thread × Process × Event)) (t : Thread)
    (h : Path (threadStep env cfg threadId) {} tr t)
    (hd : ∀ x ∈ tr, DistinctIds x.2.2) (hok : ∀ x ∈ tr, AnswersAll env x.1 x.2.2) :
    (∀ x ∈ tr, CallsAnswered env.host x.1 ∧ JudgeAnswered env cfg x.2.2) ∧
      CallsAnswered env.host t := by
  have hinv : (∀ x ∈ tr, PairingInv env.host x.1) ∧ PairingInv env.host t := by
    induction h with
    | nil => exact ⟨by simp, .init env.host⟩
    | @snoc tr t u a _ hs ih =>
        obtain ⟨hpast, hlast⟩ := ih (fun x hx => hd x (List.mem_append_left _ hx))
          (fun x hx => hok x (List.mem_append_left _ hx))
        obtain ⟨p', hstep⟩ := threadStep_step hs
        refine ⟨fun x hx => ?_, hlast.step hstep (hd (t, a) (by simp)) (hok (t, a) (by simp))⟩
        rcases List.mem_append.mp hx with hx | hx
        · exact hpast x hx
        · rw [List.mem_singleton.mp hx]
          exact hlast
  refine ⟨fun x hx => ⟨(hinv.1 x hx).answered, ?_⟩, hinv.2.answered⟩
  have hdx := hd x hx
  have hokx := hok x hx
  cases hev : x.2.2 with
  | judge turns =>
      rw [hev] at hdx hokx
      intro st hrun ms hms
      have hpaired := (judgeRun_paired hdx hokx hrun).2 ms hms
      exact AnsweredOnce.of_settled hpaired.settled
  | _ => trivial

/-! ### Two runs -/

instance (ev : Event) : Decidable (DistinctIds ev) :=
  match ev with
  | .agent turn _ => inferInstanceAs (Decidable (turn.response.calls.map ExtractedCall.id).Nodup)
  | .qaAgent r => inferInstanceAs (Decidable (r.calls.map ExtractedCall.id).Nodup)
  | .judge turns => inferInstanceAs (Decidable (∀ turn ∈ turns, ∀ r ∈ turn.response,
      (r.calls.map ExtractedCall.id).Nodup))
  | .input _ | .tools .. | .forceHold | .forceTerminal _ | .bull _ | .bear _ | .qaTools .. =>
      inferInstanceAs (Decidable True)

instance (env : Env) (t : Thread) (ev : Event) : Decidable (AnswersAll env t ev) :=
  match ev with
  | .forceTerminal _ => inferInstanceAs (Decidable (∀ tc ∈ (pendingCalls t.state.messages).calls,
      isWatch tc = true ∧ (pendingCalls t.state.messages).isOk tc = true))
  | .judge turns => inferInstanceAs (Decidable (∀ turn ∈ turns, ∀ r ∈ turn.response,
      (judgeDeclares r).isEmpty = true ∨ (judgeReadonly r).isEmpty = true))
  | .qaAgent r => inferInstanceAs (Decidable
      ((env.personalisationRefusal (latestUserQuestion t.state.messages)).isSome ∨
        t.state.qaTurns + 1 < maxQaTurns ∨ r.calls.isEmpty = true))
  | .input i => inferInstanceAs (Decidable (routeEntry env.host (i.apply t.state) = .qaAgent ∨
      Settled toolSignature t.state.messages))
  | .agent .. | .tools .. | .forceHold | .bull _ | .bear _ | .qaTools .. =>
      inferInstanceAs (Decidable True)

/-- A run whose responses mix ok, malformed and unknown calls, followed by a question. -/
def mixedCalls : List (Process × Event) :=
  [({}, .input (.run "Analyze" (some "FIND") (some "NIFTY 50") none none none)),
    ({}, .agent ⟨none, calling [okCall "get_candles" "call_1" [],
      ⟨"get_forecast", none, "horizon: 5", .parseFailure, "call_2"⟩,
      ⟨"get_moon_phase", none, "", .invalidTool, "call_3"⟩], 100⟩ 101),
    ({}, .tools ["close: 24500"] 102),
    ({}, .agent ⟨none, calling [okCall "declare_trade" "call_4" (declareArgs "HOLD" [])], 103⟩ 104),
    ({}, .tools [declaredText "HOLD"] 105),
    ({}, .input (.qa "Why a HOLD?")),
    ({}, .qaAgent (calling [okCall "get_candles" "call_5" [], okCall "declare_trade" "call_6" []])),
    ({}, .qaTools ["close: 24510"] []),
    ({}, .qaAgent ⟨"No setup cleared the bar.", []⟩)]

/-- Every call of the sample run is answered, in the analysis and in the Q&A turn after it. -/
theorem calls_answered_mixed : ∃ tr t,
    Path (threadStep defaultEnv sampleDebate (some "thread_1")) {} tr t ∧
      t.state.messages.length = 12 ∧ CallsAnswered defaultEnv.host t := by
  have hrun : (trace (threadStep defaultEnv sampleDebate (some "thread_1")) {}
      mixedCalls).map (fun r => (r.2.state.messages.length,
        decide (∀ x ∈ r.1, DistinctIds x.2.2),
        decide (∀ x ∈ r.1, AnswersAll defaultEnv x.1 x.2.2))) =
      some (12, true, true) := by
    decide +kernel
  obtain ⟨⟨tr, t⟩, htr, hout⟩ := Option.map_eq_some_iff.mp hrun
  simp only [Prod.mk.injEq, decide_eq_true_eq] at hout
  have hpath := Path.of_trace htr
  exact ⟨tr, t, hpath, hout.1, (calls_answered _ _ _ _ _ hpath hout.2.1 hout.2.2).2⟩

/-- With the budget of one turn spent, a watch and a fetch in one response. -/
def watchAndFetch : List (Process × Event) :=
  [({}, .input (.run "Analyze" (some "FIND") (some "NIFTY 50") none none none)),
    ({}, .agent ⟨none, calling [okCall "watch_price_condition" "call_1" [],
      okCall "get_candles" "call_2" []], 100⟩ 101),
    ({}, .forceTerminal 102)]

/-- `force_terminal` ends the run with the fetch unanswered. -/
theorem terminal_orphans_call : ∃ tr t,
    Path (threadStep oneTurnEnv sampleDebate (some "thread_1")) {} tr t ∧
      (∀ x ∈ tr, DistinctIds x.2.2) ∧ ¬ CallsAnswered oneTurnEnv.host t := by
  have hrun : (trace (threadStep oneTurnEnv sampleDebate (some "thread_1")) {}
      watchAndFetch).map (fun r => (decide (∀ x ∈ r.1, DistinctIds x.2.2), decide (r.2.next = none),
        decide (Settled toolSignature (conversation oneTurnEnv.host r.2.state)))) =
      some (true, true, false) := by
    decide +kernel
  obtain ⟨⟨tr, t⟩, htr, hout⟩ := Option.map_eq_some_iff.mp hrun
  simp only [Prod.mk.injEq, decide_eq_true_eq, decide_eq_false_iff_not] at hout
  obtain ⟨hd, hend, hopen⟩ := hout
  have hnone : t.next.all (fun n => !n.answersCalls) = true := by
    rw [hend]
    rfl
  have hpath := Path.of_trace htr
  refine ⟨tr, t, hpath, hd, fun hanswered => ?_⟩
  have hanswers := hanswered hnone
  generalize conversation oneTurnEnv.host t.state = ms at hanswers hopen
  exact hopen hanswers.settled

end AiTrader.Agent
