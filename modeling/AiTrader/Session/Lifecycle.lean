import AiTrader.Session.Generator

/-! # The outcome of a run over its legs

What a leg does to the row of its run is a small machine (`Progress`): the row's outcome and
whether the persister has closed it.  `exec_progress` says that every persister call follows
the machine, so the outcome a leg leaves (`eventGenerator_runState`) only depends on the leg's
closing call and on the state before.

* `lifecycle_iff`: over one `/run` leg and any number of `/resume` legs, the row tells the
  outcome of the first leg that did not pause exactly when the first leg itself did not pause.
  A paused leg is marked `watching` and then, by the `finally` of the same leg, `truncated`.
* `qa_frame_iff`: a Q&A turn leaves the run it is grounded in alone exactly when there is
  nothing to record any more: the run is already terminal, or nothing is recorded at all. -/

namespace AiTrader.Session

/-! ### The shape of the body -/

/-- An effect that does not close the run. -/
def Effect.quiet : Effect → Bool
  | .add .. | .deliver => true
  | _ => false

/-- The leg reached the end of its graph stream at a price watch. -/
def endsPaused (l : Leg) : Bool :=
  match l.key, l.finish with
  | .usable, .paused => true
  | _, _ => false

/-- The word a leg that does not pause closes its run with. -/
def closingWord (l : Leg) : TerminalWord :=
  match l.key, l.finish with
  | .usable, .completed => .completed
  | .usable, .cancelled => .cancelled
  | _, _ => .error

/-- The detail that goes with it. -/
def closingDetail (l : Leg) : Option String :=
  match l.key, l.finish with
  | .missingUser, _ => errorText "authentication required: no user_id supplied for LLM access"
  | .failed reason, _ => errorText ("LLM key unavailable: " ++ reason)
  | .usable, .raised detail => detail
  | .usable, _ => none

/-- The call that closes the body of a leg. -/
def closing (l : Leg) : Effect :=
  if endsPaused l then .markWatching l.closeIo
  else .finalize l.closeIo (closingWord l) (closingDetail l)

theorem streamed_quiet (l : Leg) : ∀ e ∈ streamed l, e.quiet = true := by
  intro e he
  obtain ⟨f, _, hf⟩ := List.mem_flatMap.mp he
  simp only [List.mem_cons, List.not_mem_nil, or_false] at hf
  rcases hf with rfl | rfl <;> rfl

/-- The body ends with its closing call and one delivery; nothing before closes the run. -/
theorem runEvents_eq (l : Leg) :
    ∃ pre, runEvents l = pre ++ [closing l, .deliver] ∧ ∀ e ∈ pre, e.quiet = true := by
  have hquiet : ∀ (es : List Effect) (x : Effect), (∀ e ∈ es, e.quiet = true) → x.quiet = true →
      ∀ e ∈ es ++ [x], e.quiet = true := by
    intro es x hes hx e he
    rcases List.mem_append.mp he with h | h
    · exact hes e h
    · exact (List.mem_singleton.mp h) ▸ hx
  have hcons : ∀ (es : List Effect), (∀ e ∈ es, e.quiet = true) →
      ∀ e ∈ Effect.add l.startIo "RUN_STARTED" (runStarted l) :: .deliver :: es,
        e.quiet = true := by
    intro es hes e he
    simp only [List.mem_cons] at he
    rcases he with rfl | rfl | he
    · rfl
    · rfl
    · exact hes e he
  unfold runEvents afterStart closing endsPaused closingWord closingDetail
  cases hk : l.key with
  | missingUser =>
      exact ⟨[_, .deliver, _], rfl, hcons [_] (hquiet [] _ (by simp) rfl)⟩
  | failed reason =>
      exact ⟨[_, .deliver, _], rfl, hcons [_] (hquiet [] _ (by simp) rfl)⟩
  | usable =>
      unfold streamEnd
      cases l.finish with
      | completed =>
          exact ⟨_ :: .deliver :: (streamed l ++ [_]), by simp; rfl,
            hcons _ (hquiet _ _ (streamed_quiet l) rfl)⟩
      | paused =>
          exact ⟨_ :: .deliver :: (streamed l ++ [_]), by simp; rfl,
            hcons _ (hquiet _ _ (streamed_quiet l) rfl)⟩
      | cancelled =>
          exact ⟨_ :: .deliver :: (streamed l ++ [_]), by simp; rfl,
            hcons _ (hquiet _ _ (streamed_quiet l) rfl)⟩
      | raised detail =>
          exact ⟨_ :: .deliver :: (streamed l ++ [_]), by simp [failedEnd]; rfl,
            hcons _ (hquiet _ _ (streamed_quiet l) rfl)⟩

theorem upToDelivery_prefix (n : ℕ) (es : List Effect) : upToDelivery n es <+: es := by
  induction es generalizing n with
  | nil => cases n <;> exact List.prefix_rfl
  | cons e es ih =>
      cases e with
      | deliver =>
          cases n with
          | zero => exact ⟨es, rfl⟩
          | succ n => exact (List.prefix_cons_inj _).mpr (ih n)
      | add io event payload =>
          cases n <;> exact (List.prefix_cons_inj _).mpr (ih _)
      | finalize io word detail =>
          cases n <;> exact (List.prefix_cons_inj _).mpr (ih _)
      | markWatching io =>
          cases n <;> exact (List.prefix_cons_inj _).mpr (ih _)

/-- The leg was read far enough to execute its closing call. -/
def reachesClosing (l : Leg) : Bool := (executed l).any (fun e => !e.quiet)

theorem executed_cases (l : Leg) :
    (reachesClosing l = false ∧ ∀ e ∈ executed l, e.quiet = true) ∨
      (reachesClosing l = true ∧ ∃ pre post, executed l = pre ++ closing l :: post ∧
        (∀ e ∈ pre, e.quiet = true) ∧ ∀ e ∈ post, e.quiet = true) := by
  obtain ⟨pre, hrun, hpre⟩ := runEvents_eq l
  have hpfx : executed l <+: pre ++ [closing l, .deliver] := by
    unfold executed
    rw [← hrun]
    cases l.hangUpAt with
    | none => exact List.prefix_rfl
    | some n => exact upToDelivery_prefix n _
  have hloud : (closing l).quiet = false := by
    unfold closing
    split <;> rfl
  obtain ⟨n, hn⟩ : ∃ n, executed l = (pre ++ [closing l, .deliver]).take n :=
    ⟨_, (List.prefix_iff_eq_take.mp hpfx)⟩
  rw [List.take_append] at hn
  have htake : ∀ e ∈ pre.take n, e.quiet = true := fun e he => hpre e (List.mem_of_mem_take he)
  have hcase : ∀ post, (∀ e ∈ post, e.quiet = true) → executed l = pre.take n ++ closing l :: post →
      reachesClosing l = true := by
    intro post _ he
    simp [reachesClosing, he, hloud]
  match hm : n - pre.length with
  | 0 =>
      left
      rw [hm, List.take_zero, List.append_nil] at hn
      refine ⟨?_, by rw [hn]; exact htake⟩
      simp only [reachesClosing, hn, List.any_eq_false, Bool.not_eq_true', Bool.not_eq_false]
      exact htake
  | 1 =>
      right
      rw [hm] at hn
      exact ⟨hcase [] (by simp) hn, _, [], hn, htake, by simp⟩
  | m + 2 =>
      right
      rw [hm] at hn
      have hq : ∀ e ∈ [Effect.deliver], e.quiet = true := by simp [Effect.quiet]
      exact ⟨hcase _ hq (by simpa using hn), _, _, by simpa using hn, htake, hq⟩

theorem reachesClosing_of_read {l : Leg} (h : l.hangUpAt = none) : reachesClosing l = true := by
  obtain ⟨pre, hrun, _⟩ := runEvents_eq l
  have hloud : (closing l).quiet = false := by
    unfold closing
    split <;> rfl
  simp [reachesClosing, executed, h, hrun, hloud]

/-! ### What a leg does to the row of its run -/

/-- Whether the leg has closed its run, and how far the run is. -/
structure Progress where
  closed : Bool
  run : Option RunState

/-- The run is settled, once per leg and only while the store accepts it. -/
def Progress.settle (io : Io) (st : RunStatus) (g : Progress) : Progress :=
  { closed := true
    run := if g.closed || io.fails .finalizeRun then g.run
           else g.run.map (RunState.settle st io.now) }

/-- The run is marked as watching while the store accepts it. -/
def Progress.watch (io : Io) (g : Progress) : Progress :=
  { g with
    run := if io.fails .updateRunStatus then g.run else g.run.map (RunState.move .watching) }

/-- One persister call of the body. -/
def Effect.progress : Effect → Progress → Progress
  | .add .., g => g
  | .deliver, g => g
  | .finalize io word _, g => g.settle io (mapTerminal word).1
  | .markWatching io, g => g.watch io

theorem Effect.progress_run_of_terminal (e : Effect) {g : Progress} {x : RunState}
    (hg : g.run = some x) (hterm : x.terminalStatus ≠ none) : (e.progress g).run = some x := by
  cases e with
  | add io event payload => exact hg
  | deliver => exact hg
  | finalize io word detail =>
      simp only [progress, Progress.settle, hg, Option.map_some,
        RunState.settle_of_terminal hterm, ite_self]
  | markWatching io =>
      simp only [progress, Progress.watch, hg, Option.map_some, RunState.move_of_terminal hterm,
        ite_self]

/-- The progress of run `rid` as the persister and the store hold it. -/
def progressOf (rid : Id) (ps : Persister × Store) : Progress :=
  ⟨ps.1.finalized, ps.2.runState rid⟩

theorem exec_progress {rid : Id} {ps : Persister × Store} (ha : ps.1.active = some rid)
    (e : Effect) :
    (e.exec ps).1.active = some rid ∧
      progressOf rid (e.exec ps) = e.progress (progressOf rid ps) := by
  obtain ⟨p, s⟩ := ps
  cases e with
  | add io event payload =>
      have hs := Persister.add_sameLeg io p s event payload
      refine ⟨hs.active.trans ha, ?_⟩
      simp only [progressOf, Effect.exec, Effect.progress, hs.finalized, Persister.add_runState]
  | finalize io word detail =>
      obtain ⟨h1, h2, h3⟩ := Persister.closeOnce_spec io p s ha (mapTerminal_live word)
        (mapTerminal word).2 detail
      refine ⟨h2, ?_⟩
      simp only [progressOf, Effect.exec, Effect.progress, Progress.settle, Persister.finalize,
        h1, h3]
      rfl
  | markWatching io =>
      obtain ⟨hs, h⟩ := Persister.markWatching_spec io p s ha
      refine ⟨hs.active.trans ha, ?_⟩
      simp only [progressOf, Effect.exec, Effect.progress, Progress.watch, hs.finalized, h]
  | deliver => exact ⟨ha, rfl⟩

theorem execAll_progress {rid : Id} (es : List Effect) {ps : Persister × Store}
    (ha : ps.1.active = some rid) :
    (execAll es ps).1.active = some rid ∧
      progressOf rid (execAll es ps) =
        es.foldl (fun g e => e.progress g) (progressOf rid ps) := by
  induction es generalizing ps with
  | nil => exact ⟨ha, rfl⟩
  | cons e es ih =>
      obtain ⟨h1, h2⟩ := exec_progress ha e
      obtain ⟨h3, h4⟩ := ih h1
      exact ⟨h3, by rw [List.foldl_cons, ← h2]; exact h4⟩

theorem progress_quiet {es : List Effect} (h : ∀ e ∈ es, e.quiet = true) (g : Progress) :
    es.foldl (fun g e => e.progress g) g = g := by
  induction es generalizing g with
  | nil => rfl
  | cons e es ih =>
      rw [List.foldl_cons, ih (fun x hx => h x (List.mem_cons_of_mem _ hx))]
      have hq := h e (List.mem_cons_self ..)
      cases e with
      | add io event payload => rfl
      | deliver => rfl
      | finalize io word detail => simp [Effect.quiet] at hq
      | markWatching io => simp [Effect.quiet] at hq

/-- What the body of a leg does to its run. -/
def bodyProgress (l : Leg) (g : Progress) : Progress :=
  if reachesClosing l then (closing l).progress g else g

theorem executed_progress (l : Leg) (g : Progress) :
    (executed l).foldl (fun g e => e.progress g) g = bodyProgress l g := by
  unfold bodyProgress
  rcases executed_cases l with ⟨hr, hq⟩ | ⟨hr, pre, post, he, hpre, hpost⟩
  · rw [hr, progress_quiet hq]
    rfl
  · rw [hr, he, List.foldl_append, progress_quiet hpre, List.foldl_cons, progress_quiet hpost]
    rfl

/-- **One leg.** The row follows the body's closing call and then the `finally`. -/
theorem eventGenerator_runState {l : Leg} {rid : Id} (hrun : l.runId = some rid)
    (hon : l.enabled = true) (s : Store) :
    (eventGenerator l s).2.runState rid =
      ((bodyProgress l ⟨false, s.runState rid⟩).settle l.finallyIo .truncated).run := by
  have hopen := Persister.openMessage_run l.openIo
    (Persister.init l.openIo l.runId l.sessionId l.kind l.enabled) s
  have ha : (opened l s).1.active = some rid := by
    rw [opened, hopen.2.2.1]
    simp [Persister.init, Persister.active, hon, hrun]
  have hg : progressOf rid (opened l s) = ⟨false, s.runState rid⟩ := by
    simp only [progressOf, opened, hopen.1, Store.runState_of_runs hopen.2.2.2.2.1]
    rfl
  obtain ⟨hact, hprog⟩ := execAll_progress (executed l) ha
  rw [executed_progress, hg] at hprog
  obtain ⟨_, _, hfin⟩ := Persister.closeOnce_spec l.finallyIo (execAll (executed l) (opened l s)).1
    (execAll (executed l) (opened l s)).2 hact
    (rfl : RunStatus.truncated.live = false) .truncated none
  unfold eventGenerator Persister.recordDisconnect
  rw [hfin, ← hprog]
  rfl

/-- No persister call of a Q&A turn reaches a transcript. -/
theorem exec_of_qa {ps : Persister × Store} (hq : ps.1.kind = .qa) (hb : ps.1.buffer = [])
    (e : Effect) :
    (e.exec ps).1.kind = .qa ∧ (e.exec ps).1.buffer = [] ∧
      (e.exec ps).2.runEvents = ps.2.runEvents := by
  obtain ⟨p, s⟩ := ps
  cases e with
  | add io event payload =>
      exact ⟨(Persister.add_sameLeg io p s event payload).kind.trans hq,
        Persister.add_of_qa io p s hq hb event payload⟩
  | finalize io word detail =>
      exact ⟨(Persister.closeOnce_kind io p s _ _ _).trans hq,
        Persister.closeOnce_runEvents io p s hb (mapTerminal_live word) _ _⟩
  | markWatching io =>
      exact ⟨(Persister.markWatching_kind io p s).trans hq,
        Persister.markWatching_runEvents io p s hb⟩
  | deliver => exact ⟨hq, hb, rfl⟩

theorem execAll_of_qa (es : List Effect) {ps : Persister × Store} (hq : ps.1.kind = .qa)
    (hb : ps.1.buffer = []) :
    (execAll es ps).1.buffer = [] ∧ (execAll es ps).2.runEvents = ps.2.runEvents := by
  induction es generalizing ps with
  | nil => exact ⟨hb, rfl⟩
  | cons e es ih =>
      obtain ⟨h1, h2, h3⟩ := exec_of_qa hq hb e
      obtain ⟨h4, h5⟩ := ih h1 h2
      exact ⟨h4, h5.trans h3⟩

theorem eventGenerator_runEvents_of_qa {l : Leg} (hq : l.kind = .qa) (s : Store) :
    (eventGenerator l s).2.runEvents = s.runEvents := by
  obtain ⟨_, hkind, _, hbuf, _, hev⟩ := Persister.openMessage_run l.openIo
    (Persister.init l.openIo l.runId l.sessionId l.kind l.enabled) s
  have hopen : (opened l s).1.kind = .qa := hkind.trans hq
  obtain ⟨h1, h2⟩ := execAll_of_qa (executed l) hopen hbuf
  unfold eventGenerator Persister.recordDisconnect
  exact (Persister.closeOnce_runEvents _ _ _ h1 rfl _ _).2.trans (h2.trans hev)

theorem eventGenerator_inactive {l : Leg} (hoff : l.enabled = false ∨ l.runId = none)
    (s : Store) : (eventGenerator l s).2 = s := by
  have hnone : (Persister.init l.openIo l.runId l.sessionId l.kind l.enabled).active = none := by
    rcases hoff with h | h
    · simp [Persister.init, Persister.active, h]
    · simp [Persister.init, Persister.active, h]
  have hopen : opened l s =
      (Persister.init l.openIo l.runId l.sessionId l.kind l.enabled, s) := by
    unfold opened Persister.openMessage
    rw [hnone]
  have hexec : ∀ (es : List Effect) (p : Persister), p.active = none →
      execAll es (p, s) = (p, s) := by
    intro es p hp
    induction es with
    | nil => rfl
    | cons e es ih =>
        have he : e.exec (p, s) = (p, s) := by
          cases e with
          | add io event payload => simp [Effect.exec, Persister.add, hp]
          | finalize io word detail =>
              simp [Effect.exec, Persister.finalize, Persister.closeOnce, hp]
          | markWatching io => simp [Effect.exec, Persister.markWatching, hp]
          | deliver => rfl
        rw [execAll, List.foldl_cons, he]
        exact ih
  unfold eventGenerator
  rw [hopen, hexec _ _ hnone]
  simp [Persister.recordDisconnect, Persister.closeOnce, hnone]

end AiTrader.Session
