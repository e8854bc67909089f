import AiTrader.Session.Lifecycle

/-! # Run outcomes over legs and Q&A turns

* `lifecycle_iff`: over one `/run` leg and any number of `/resume` legs, the row tells the
  outcome of the first leg that did not pause exactly when the first leg itself did not pause.
  A paused leg is marked `watching` and then, by the `finally` of the same leg, `truncated`.
* `qa_frame_iff`: a Q&A turn leaves the run it is grounded in alone exactly when its closing
  call has nothing to record: persistence is off, the run is already terminal, or the store
  refuses the call. -/

namespace AiTrader.Session

/-! ### One leg on one run -/

/-- Every environment a leg meets. -/
def Leg.ios (l : Leg) : List Io :=
  [l.openIo, l.startIo, l.lastIo, l.closeIo, l.finallyIo] ++ l.frames.map Frame.io

/-- A leg recorded on run `rid`, read to its end, none of whose store calls fails. -/
structure RecordedLeg (rid : Id) (l : Leg) : Prop where
  runId : l.runId = some rid
  enabled : l.enabled = true
  read : l.hangUpAt = none
  sound : ∀ io ∈ l.ios, ∀ c, io.fails c = false

theorem RecordedLeg.closeIo {rid : Id} {l : Leg} (h : RecordedLeg rid l) (c : StoreCall) :
    l.closeIo.fails c = false :=
  h.sound _ (by simp [Leg.ios]) c

theorem RecordedLeg.finallyIo {rid : Id} {l : Leg} (h : RecordedLeg rid l) (c : StoreCall) :
    l.finallyIo.fails c = false :=
  h.sound _ (by simp [Leg.ios]) c

variable {rid : Id} {l : Leg} {s : Store} {x : RunState}

/-- The outcome a leg that does not pause is recorded with. -/
def outcome (l : Leg) : RunStatus := (mapTerminal (closingWord l)).1

theorem eventGenerator_of_ended (h : RecordedLeg rid l) (hend : endsPaused l = false)
    (hx : s.runState rid = some x) :
    (eventGenerator l s).2.runState rid = some (x.settle (outcome l) l.closeIo.now) := by
  rw [eventGenerator_runState h.runId h.enabled, bodyProgress, reachesClosing_of_read h.read,
    closing, hend]
  simp [Effect.progress, Progress.settle, h.closeIo, hx, outcome]

/-- A paused leg is marked as watching and then settled as truncated by its own `finally`. -/
theorem eventGenerator_of_paused (h : RecordedLeg rid l) (hend : endsPaused l = true)
    (hx : s.runState rid = some x) :
    (eventGenerator l s).2.runState rid =
      some ((x.move .watching).settle .truncated l.finallyIo.now) := by
  rw [eventGenerator_runState h.runId h.enabled, bodyProgress, reachesClosing_of_read h.read,
    closing, hend]
  simp [Effect.progress, Progress.settle, Progress.watch, h.closeIo, h.finallyIo, hx]

/-- **Set once.** No leg changes a run that is already terminal. -/
theorem eventGenerator_of_terminal (hrun : l.runId = some rid) (hx : s.runState rid = some x)
    (hterm : x.terminalStatus ≠ none) : (eventGenerator l s).2.runState rid = some x := by
  cases hon : l.enabled with
  | false => rw [eventGenerator_inactive (.inl hon), hx]
  | true =>
      have hbody : (bodyProgress l ⟨false, some x⟩).run = some x := by
        unfold bodyProgress
        split
        · exact (closing l).progress_run_of_terminal rfl hterm
        · rfl
      rw [eventGenerator_runState hrun hon, hx]
      exact (Effect.finalize l.finallyIo .truncated none).progress_run_of_terminal hbody hterm

/-! ### The legs of one run -/

/-- The store after a sequence of legs. -/
def afterLegs (s : Store) (legs : List Leg) : Store :=
  legs.foldl (fun s l => (eventGenerator l s).2) s

/-- The message a leg opened is still streaming. -/
def stillStreaming (ps : Persister × Store) : Prop :=
  ∃ mid m, ps.1.messageId = some mid ∧ ps.2.messages.find? mid = some m ∧ m.status = .streaming

/-- What the row of a run must say after the leg `last`, which ran after the legs `init`. -/
def tellsOutcome (s : Store) (rid : Id) (init : List Leg) (last : Leg) : Prop :=
  let after := eventGenerator last (afterLegs s init)
  match (init ++ [last]).find? (fun l => !endsPaused l) with
  | none =>
      (∃ x, after.2.runState rid = some x ∧ x.status = .watching ∧ x.terminalStatus = none) ∧
        stillStreaming after
  | some l =>
      ∃ x, after.2.runState rid = some x ∧ x.terminalStatus = some (outcome l)

/-- The row tells the outcome after every leg. -/
def LifecycleHolds (s : Store) (rid : Id) (legs : List Leg) : Prop :=
  ∀ init last rest, legs = init ++ last :: rest → tellsOutcome s rid init last

/-- One `/run` leg followed by `/resume` legs, all recorded on the run. -/
structure LegsOf (rid : Id) (first : Leg) (rest : List Leg) : Prop where
  first_kind : first.kind = .run
  rest_kind : ∀ l ∈ rest, l.kind = .resume
  recorded : ∀ l ∈ first :: rest, RecordedLeg rid l

/-- A run as `create_run` stores it. -/
def NewlyStored (s : Store) (rid : Id) : Prop :=
  s.runState rid = some ⟨.running, none, none⟩

/-- Once the first leg has settled the run, no later leg changes it. -/
theorem afterLegs_of_terminal {legs : List Leg} (hrun : ∀ l ∈ legs, l.runId = some rid)
    (hx : s.runState rid = some x) (hterm : x.terminalStatus ≠ none) :
    (afterLegs s legs).runState rid = some x := by
  induction legs generalizing s with
  | nil => exact hx
  | cons l legs ih =>
      rw [afterLegs, List.foldl_cons]
      exact ih (fun m hm => hrun m (List.mem_cons_of_mem _ hm))
        (eventGenerator_of_terminal (hrun l (List.mem_cons_self ..)) hx hterm)

theorem not_lifecycleHolds_of_paused {first : Leg} {rest : List Leg} (hnew : NewlyStored s rid)
    (hfirst : RecordedLeg rid first) (hp : endsPaused first = true) :
    ¬ LifecycleHolds s rid (first :: rest) := by
  intro h
  have h1 := h [] first rest rfl
  simp only [tellsOutcome, List.nil_append, List.find?_cons, hp, Bool.not_true,
    List.find?_nil] at h1
  obtain ⟨⟨x, hx, hstatus, _⟩, _⟩ := h1
  have hrow := eventGenerator_of_paused (s := afterLegs s []) hfirst hp hnew
  rw [hrow] at hx
  simp only [RunState.move, Option.isNone_none, if_true, RunState.settle,
    Option.some.injEq] at hx
  subst hx
  cases hstatus

theorem lifecycleHolds_of_ended {first : Leg} {rest : List Leg} (hnew : NewlyStored s rid)
    (hlegs : LegsOf rid first rest) (hp : endsPaused first = false) :
    LifecycleHolds s rid (first :: rest) := by
  intro init last later hsplit
  have hrow := eventGenerator_of_ended (hlegs.recorded first (List.mem_cons_self ..)) hp hnew
  rw [RunState.settle_of_open rfl] at hrow
  cases init with
  | nil =>
      obtain ⟨rfl, _⟩ := List.cons.inj hsplit
      simp only [tellsOutcome, List.nil_append, List.find?_cons, hp, Bool.not_false]
      exact ⟨_, hrow, rfl⟩
  | cons a init =>
      obtain ⟨rfl, hrest⟩ := List.cons.inj hsplit
      have hlater : ∀ l ∈ init ++ [last], l.runId = some rid := by
        intro l hl
        refine (hlegs.recorded l (List.mem_cons_of_mem _ ?_)).runId
        have hsub : init ++ [last] <+: rest := ⟨later, by simp [hrest]⟩
        exact hsub.subset hl
      have hend := afterLegs_of_terminal hlater hrow (by simp)
      rw [afterLegs, List.foldl_append] at hend
      simp only [tellsOutcome, List.cons_append, List.find?_cons, hp, Bool.not_false]
      exact ⟨_, hend, rfl⟩

/-- **Run lifecycle.** The row of a run tells its outcome after every leg exactly when the
first leg did not end paused. -/
theorem lifecycle_iff (s : Store) (rid : Id) (first : Leg) (rest : List Leg)
    (hnew : NewlyStored s rid) (hlegs : LegsOf rid first rest) :
    LifecycleHolds s rid (first :: rest) ↔ endsPaused first = false := by
  constructor
  · intro h
    by_contra hp
    exact not_lifecycleHolds_of_paused hnew (hlegs.recorded first (List.mem_cons_self ..))
      (by simpa using hp) h
  · exact lifecycleHolds_of_ended hnew hlegs

/-! The legs of the one run of `sampleStore`. -/

/-- An environment in which no store call fails. -/
def sampleIo : Io := { monotonic := 2, now := 2, fails := fun _ => false }

/-- A leg of run `1` that emits nothing of its own. -/
def sampleLeg (kind : LegKind) (finish : Finish) : Leg :=
  { threadId := "thread_1", kind := kind, runId := some 1, sessionId := some 0, enabled := true,
    openIo := sampleIo, startIo := sampleIo, key := .usable, frames := [], finish := finish,
    lastIo := sampleIo, closeIo := sampleIo, hangUpAt := none, finallyIo := sampleIo }

theorem sampleStore_newlyStored : NewlyStored sampleStore 1 := by
  unfold NewlyStored
  decide +kernel

theorem sampleLeg_recorded (kind : LegKind) (finish : Finish) :
    RecordedLeg 1 (sampleLeg kind finish) where
  runId := rfl
  enabled := rfl
  read := rfl
  sound := by simp [Leg.ios, sampleLeg, sampleIo]

/-- A completed `/run` leg followed by a `/resume` leg that fails. -/
theorem lifecycle_iff_completed :
    LifecycleHolds sampleStore 1
        [sampleLeg .run .completed, sampleLeg .resume (.raised "timeout")] ↔
      endsPaused (sampleLeg .run .completed) = false :=
  lifecycle_iff sampleStore 1 _ _ sampleStore_newlyStored
    { first_kind := rfl
      rest_kind := by simp [sampleLeg]
      recorded := by simp [sampleLeg_recorded] }

/-- A `/run` leg that parks at a price watch is recorded as truncated. -/
theorem paused_run_is_truncated :
    NewlyStored sampleStore 1 ∧ LegsOf 1 (sampleLeg .run .paused) [] ∧
      ¬ LifecycleHolds sampleStore 1 [sampleLeg .run .paused] :=
  ⟨sampleStore_newlyStored,
    { first_kind := rfl
      rest_kind := by simp
      recorded := by simp [sampleLeg_recorded] },
    not_lifecycleHolds_of_paused sampleStore_newlyStored (sampleLeg_recorded _ _) rfl⟩

/-! ### Q&A turns -/

/-- The frames stored for a run. -/
def Store.transcript (s : Store) (rid : Id) : List EventRow :=
  s.runEvents.rows.filter (fun e => e.runId = rid)

/-- A Q&A turn grounded in run `rid`, ending in any way but at a price watch. -/
structure QaTurn (rid : Id) (l : Leg) : Prop where
  kind : l.kind = .qa
  runId : l.runId = some rid
  unpaused : endsPaused l = false

/-- The turn leaves the run's outcome and transcript as they were, and a later `/resume` leg
can still record the outcome of a run that had none. -/
def LeavesRun (s : Store) (rid : Id) (l : Leg) : Prop :=
  let s' := (eventGenerator l s).2
  s'.runState rid = s.runState rid ∧ s'.transcript rid = s.transcript rid ∧
    ∀ later x, RecordedLeg rid later → later.kind = .resume → endsPaused later = false →
      s.runState rid = some x → x.terminalStatus = none →
        ∃ y, (eventGenerator later s').2.runState rid = some y ∧
          y.terminalStatus = some (outcome later)

/-- The environment of the one closing call of a turn: the body's, if the client stays for it,
else the one in the `finally`. -/
def finalizingIo (l : Leg) : Io := if reachesClosing l then l.closeIo else l.finallyIo

/-- The status that call records. -/
def finalizedAs (l : Leg) : RunStatus := if reachesClosing l then outcome l else .truncated

theorem eventGenerator_of_unpaused (hrun : l.runId = some rid) (hon : l.enabled = true)
    (hend : endsPaused l = false) (hx : s.runState rid = some x) :
    (eventGenerator l s).2.runState rid =
      some (if (finalizingIo l).fails .finalizeRun then x
            else x.settle (finalizedAs l) (finalizingIo l).now) := by
  rw [eventGenerator_runState hrun hon, bodyProgress, closing, hend, hx]
  cases hr : reachesClosing l with
  | false =>
      simp only [finalizingIo, finalizedAs, hr, Progress.settle, Bool.false_or,
        Bool.false_eq_true, if_false, Option.map_some]
      split <;> rfl
  | true =>
      simp only [finalizingIo, finalizedAs, hr, Effect.progress, Progress.settle, Bool.false_or,
        Bool.true_or, Bool.false_eq_true, if_false, if_true, Option.map_some, outcome]
      split <;> rfl

theorem not_leavesRun_of_open (hqa : QaTurn rid l) (hon : l.enabled = true)
    (hx : s.runState rid = some x) (hterm : x.terminalStatus = none)
    (hok : (finalizingIo l).fails .finalizeRun = false) : ¬ LeavesRun s rid l := by
  intro ⟨hstate, _, _⟩
  rw [eventGenerator_of_unpaused hqa.runId hon hqa.unpaused hx, hok,
    RunState.settle_of_open hterm, hx] at hstate
  simp only [Bool.false_eq_true, if_false, Option.some.injEq] at hstate
  rw [← hstate] at hterm
  cases hterm

/-- **Q&A frame.** A Q&A turn leaves its run alone exactly when persistence is off, the run is
already terminal, or the store refuses the turn's closing call. -/
theorem qa_frame_iff (s : Store) (rid : Id) (l : Leg) (x : RunState)
    (hx : s.runState rid = some x) (hqa : QaTurn rid l) :
    LeavesRun s rid l ↔
      l.enabled = false ∨ x.terminalStatus ≠ none ∨
        (finalizingIo l).fails .finalizeRun = true := by
  constructor
  · intro hleaves
    by_contra hnot
    simp only [not_or, Bool.not_eq_false, ne_eq, not_not, Bool.not_eq_true] at hnot
    obtain ⟨hon, hterm, hok⟩ := hnot
    exact not_leavesRun_of_open hqa hon hx hterm hok hleaves
  · intro hcond
    have hstate : (eventGenerator l s).2.runState rid = s.runState rid := by
      rcases hcond with hoff | hterm | hfail
      · rw [eventGenerator_inactive (.inl hoff)]
      · rw [eventGenerator_of_terminal hqa.runId hx hterm, hx]
      · cases hon : l.enabled with
        | false => rw [eventGenerator_inactive (.inl hon)]
        | true => rw [eventGenerator_of_unpaused hqa.runId hon hqa.unpaused hx, hfail, hx]; rfl
    refine ⟨hstate, ?_, ?_⟩
    · rw [Store.transcript, eventGenerator_runEvents_of_qa hqa.kind]
      rfl
    · intro later y hrec _ hend hy hopen
      have hrow := eventGenerator_of_ended hrec hend (hstate.trans hy)
      rw [RunState.settle_of_open hopen] at hrow
      exact ⟨_, hrow, rfl⟩

theorem sampleLeg_qaTurn : QaTurn 1 (sampleLeg .qa .completed) := ⟨rfl, rfl, rfl⟩

/-- A question about a run that already completed. -/
theorem qa_frame_iff_completed :
    LeavesRun (eventGenerator (sampleLeg .run .completed) sampleStore).2 1
        (sampleLeg .qa .completed) ↔
      (sampleLeg .qa .completed).enabled = false ∨
        (RunState.settle .complete 2 ⟨.running, none, none⟩).terminalStatus ≠ none ∨
          (finalizingIo (sampleLeg .qa .completed)).fails .finalizeRun = true :=
  qa_frame_iff _ 1 _ _
    (eventGenerator_of_ended (sampleLeg_recorded .run .completed) rfl sampleStore_newlyStored)
    sampleLeg_qaTurn

/-- A question answered while the run is still open completes the run. -/
theorem question_completes_open_run :
    sampleStore.runState 1 = some ⟨.running, none, none⟩ ∧ QaTurn 1 (sampleLeg .qa .completed) ∧
      ¬ LeavesRun sampleStore 1 (sampleLeg .qa .completed) :=
  ⟨sampleStore_newlyStored, sampleLeg_qaTurn,
    not_leavesRun_of_open sampleLeg_qaTurn rfl sampleStore_newlyStored rfl
      (by unfold finalizingIo; split <;> rfl)⟩

end AiTrader.Session
