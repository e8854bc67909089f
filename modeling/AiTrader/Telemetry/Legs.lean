import AiTrader.Telemetry.Writer

/-! # Session telemetry: legs

A leg is one `/run` or `/resume` of a thread as `observe_stream` puts it on the queue: a start
marker, one observation for every frame, an end marker.

* `Leg.fragment`: what a leg adds to the funnel of its session.
* `run_leg`: a leg saves one record, of the session it ran in with the leg folded in
  (`Leg.Folds`). -/

namespace AiTrader.Telemetry

open Keyed Fallible

/-- The kinds of a resume. -/
inductive Trigger
  | target | invalidation | heartbeat
  deriving DecidableEq, Repr

/-- `trigger_kind` of a `ResumeRequest`. -/
def Trigger.wire : Trigger → String
  | .target => "target"
  | .invalidation => "invalidation"
  | .heartbeat => "heartbeat"

/-- The two entry points.  A resume carries no symbol, timeframe or mode. -/
inductive Opening
  | run (symbol timeframe mode : Option String)
  | resume (trigger : Trigger)
  deriving DecidableEq, Repr

/-- The entry of `_observe`. -/
def Opening.entry : Opening → RunEntry
  | .run symbol timeframe mode => { kind := .run, symbol, timeframe, mode }
  | .resume trigger => { kind := .resume, triggerKind := some trigger.wire }

/-- A parsed frame, and when it was observed. -/
structure Frame where
  eventName : Option String := none
  payload : Option Kwargs := none
  ts : ℚ

structure Leg where
  opening : Opening
  startTs : ℚ
  frames : List Frame := []
  endTs : ℚ

/-- `Observation.frame`. -/
def Frame.observation (threadId : String) (entry : RunEntry) (frame : Frame) : Observation :=
  { threadId, entry, eventName := frame.eventName, payload := frame.payload, ts := frame.ts }

/-- `observe_stream`. -/
def Leg.observations (threadId : String) (leg : Leg) : List Observation :=
  { threadId, entry := leg.opening.entry, ts := leg.startTs, entryStarted := true } ::
    (leg.frames.map (Frame.observation threadId leg.opening.entry) ++
      [{ threadId, entry := leg.opening.entry, ts := leg.endTs, entryEnded := true }])

section
variable (R : Runtime)

/-- The event of a frame, and its time: the payload's own, or else when it was observed.  A frame
whose time is an integer too large for a double raises and is skipped. -/
def Frame.reading (frame : Frame) : Option (Event × ℚ) :=
  match frame.eventName, frame.payload with
  | none, _ => none
  | some name, none => some ((name, []), frame.ts)
  | some name, some payload =>
      match extractTs R payload with
      | .error _ => none
      | .ok ts => some ((name, payload), ts.getD frame.ts)

def Leg.readings (leg : Leg) : List (Event × ℚ) := leg.frames.filterMap (Frame.reading R)

/-- What the leg adds to the funnel: its opening marker, and one event for every frame that has
one. -/
def Leg.fragment (leg : Leg) : List FunnelEvent :=
  openingMarker R leg.opening.entry ((leg.readings R).head?.map Prod.snd) ::
    (leg.readings R).filterMap fun r => funnelEvent r.1 (some r.2)

/-- The leg has committed a decision, or errored. -/
def Leg.terminal (leg : Leg) : Bool :=
  (leg.readings R).any fun r => decide (r.1.1 = "DECISION" ∨ r.1.1 = "ERROR")

/-- A recorded event is the reading `r`. -/
structure Reads (event : Event) (r : Event × ℚ) : Prop where
  name : event.1 = r.1.1
  ts : extractTs R event.2 = .ok (some r.2)
  tool : toolNameOf event.2 = toolNameOf r.1.2

end

variable {R : Runtime} {threadId : String} {entry : RunEntry} {frame : Frame} {buf : EntryBuffer}
  {events : List Event} {rs : List (Event × ℚ)} {event : Event} {r : Event × ℚ}

/-! ### Frames -/

theorem extractTs_stamped (payload : Kwargs) (ts : ℚ) :
    extractTs R (payload.set "ts" (.float (.fin ts))) = .ok (some ts) := by
  rw [extractTs, extractTsAt, Kwargs.get_set_self]

theorem toolNameOf_stamped (payload : Kwargs) (value : PyVal) :
    toolNameOf (payload.set "ts" value) = toolNameOf payload := by
  rw [toolNameOf, Kwargs.get_set_of_ne (by decide), ← toolNameOf]

theorem recordEvent_frame (threadId : String) (entry : RunEntry) (buf : EntryBuffer) {name : String}
    (hname : frame.eventName = some name) :
    match frame.reading R with
    | none => ∃ e, recordEvent R (frame.observation threadId entry) name buf = .error e
    | some r => ∃ event, Reads R event r ∧
        recordEvent R (frame.observation threadId entry) name buf =
          .ok { buf with events := buf.events ++ [event], lastTs := frame.ts } := by
  obtain ⟨eventName, payload, ts⟩ := frame
  dsimp only at hname
  subst hname
  cases payload with
  | none => exact ⟨(name, [("ts", .float (.fin ts))]), ⟨rfl, rfl, rfl⟩, rfl⟩
  | some payload =>
      cases hts : extractTs R payload with
      | error e =>
          simp only [Frame.reading, hts]
          refine ⟨e, ?_⟩
          simp only [recordEvent, Frame.observation, hts]
          rfl
      | ok own =>
          simp only [Frame.reading, hts, recordEvent, Frame.observation]
          cases own with
          | none =>
              exact ⟨(name, payload.set "ts" (.float (.fin ts))),
                ⟨rfl, extractTs_stamped payload ts, toolNameOf_stamped payload _⟩, rfl⟩
          | some own => exact ⟨(name, payload), ⟨rfl, hts, rfl⟩, rfl⟩

theorem threadStep_frame (threadId : String) (entry : RunEntry) (state : Option SessionState)
    (frame : Frame) (hreads : List.Forall₂ (Reads R) buf.events rs) :
    ∃ buf' : EntryBuffer, buf'.entry = buf.entry ∧
      List.Forall₂ (Reads R) buf'.events (rs ++ (frame.reading R).toList) ∧
      threadStep R { state, buffer := some buf } (frame.observation threadId entry) =
        ({ state, buffer := some buf' }, []) := by
  have hopen : threadOpen { state, buffer := some buf } (frame.observation threadId entry) =
      { state, buffer := some buf } := by
    simp [threadOpen, Frame.observation]
  rw [threadStep, hopen]
  dsimp only
  cases hname : frame.eventName with
  | none =>
      refine ⟨buf, rfl, ?_, ?_⟩
      · simpa [Frame.reading, hname] using hreads
      · simp [threadOpened, Frame.observation, hname]
  | some name =>
      have hrecord := recordEvent_frame (R := R) threadId entry buf hname
      have hobs : (frame.observation threadId entry).eventName = some name := hname
      cases hreading : frame.reading R with
      | none =>
          rw [hreading] at hrecord
          obtain ⟨e, he⟩ := hrecord
          refine ⟨buf, rfl, by simpa using hreads, ?_⟩
          rw [threadOpened, hobs]
          dsimp only
          rw [he]
      | some r =>
          rw [hreading] at hrecord
          obtain ⟨event, hread, hok⟩ := hrecord
          refine ⟨{ buf with events := buf.events ++ [event], lastTs := frame.ts }, rfl, ?_, ?_⟩
          · exact List.rel_append hreads (.cons hread .nil)
          · rw [threadOpened, hobs]
            dsimp only
            rw [hok]
            rfl

theorem run_frames (threadId : String) (entry : RunEntry) (state : Option SessionState)
    (frames : List Frame) (hbuf : buf.events = []) :
    ∃ buf' : EntryBuffer, buf'.entry = buf.entry ∧
      List.Forall₂ (Reads R) buf'.events (frames.filterMap (Frame.reading R)) ∧
      run (threadStep R) { state, buffer := some buf }
          (frames.map (Frame.observation threadId entry)) =
        ({ state, buffer := some buf' }, []) := by
  induction frames using List.reverseRecOn with
  | nil =>
      refine ⟨buf, rfl, ?_, rfl⟩
      rw [hbuf]
      exact .nil
  | append_singleton frames frame ih =>
      obtain ⟨buf₁, hentry₁, hreads₁, hrun₁⟩ := ih
      obtain ⟨buf₂, hentry₂, hreads₂, hstep⟩ := threadStep_frame threadId entry state frame hreads₁
      refine ⟨buf₂, hentry₂.trans hentry₁, ?_, ?_⟩
      · rw [List.filterMap_append]
        have hlast : [frame].filterMap (Frame.reading R) = (frame.reading R).toList := by
          cases h : frame.reading R with
          | none => simp [h]
          | some r => simp [h]
        rw [hlast]
        exact hreads₂
      · rw [List.map_append, List.map_cons, List.map_nil, run_concat, hrun₁]
        dsimp only
        rw [hstep]
        rfl

/-! ### The end of a stream -/

theorem funnelEvent_reads (h : Reads R event r) (ts : Option ℚ) :
    funnelEvent event ts = funnelEvent r.1 ts := by
  rw [funnelEvent, h.name, h.tool, ← funnelEvent]

theorem mapM_extractTs (h : List.Forall₂ (Reads R) events rs) :
    (events.mapM fun event => extractTs R event.2) = .ok (rs.map fun r => some r.2) := by
  induction h with
  | nil => rfl
  | cons hread _ ih =>
      rw [List.mapM_cons, hread.ts, ih]
      rfl

theorem findSome?_stamps (rs : List (Event × ℚ)) :
    (rs.map fun r => some r.2).findSome? id = rs.head?.map Prod.snd := by
  cases rs with
  | nil => rfl
  | cons r rs => rfl

theorem filterMap_zip_stamps (h : List.Forall₂ (Reads R) events rs) :
    ((events.zip (rs.map fun r => some r.2)).filterMap fun e => funnelEvent e.1 e.2) =
      rs.filterMap fun r => funnelEvent r.1 (some r.2) := by
  induction h with
  | nil => rfl
  | cons hread _ ih =>
      rw [List.map_cons, List.zip_cons_cons, List.filterMap_cons, List.filterMap_cons, ih,
        funnelEvent_reads hread]

/-- A recorded stream is interpreted as its readings are. -/
theorem interpretEvents_reads (h : List.Forall₂ (Reads R) events rs) :
    interpretEvents R entry events =
      .ok (renumber 0 (openingMarker R entry (rs.head?.map Prod.snd) ::
        rs.filterMap fun r => funnelEvent r.1 (some r.2))) := by
  rw [interpretEvents, mapM_extractTs h]
  show Except.ok _ = _
  rw [findSome?_stamps, filterMap_zip_stamps h]

theorem terminalSignals_concat (events : List Event) (event : Event) :
    (terminalSignals R (events ++ [event])).terminal =
      ((terminalSignals R events).terminal ||
        decide (event.1 = "DECISION" ∨ event.1 = "ERROR")) := by
  rw [terminalSignals, List.foldl_append, ← terminalSignals, List.foldl_cons, List.foldl_nil]
  by_cases hdecision : event.1 = "DECISION"
  · rw [if_pos hdecision]
    simp [TerminalSignals.terminal, hdecision]
  · rw [if_neg hdecision]
    by_cases herror : event.1 = "ERROR"
    · rw [if_pos herror]
      simp [TerminalSignals.terminal, herror]
    · rw [if_neg herror]
      simp [hdecision, herror]

theorem terminal_reads (h : List.Forall₂ (Reads R) events rs) :
    (terminalSignals R events).terminal =
      rs.any fun r => decide (r.1.1 = "DECISION" ∨ r.1.1 = "ERROR") := by
  have hany : ∀ events : List Event, (terminalSignals R events).terminal =
      events.any fun event => decide (event.1 = "DECISION" ∨ event.1 = "ERROR") := by
    intro events
    induction events using List.reverseRecOn with
    | nil => rfl
    | append_singleton events event ih =>
        rw [terminalSignals_concat, ih, List.any_append, List.any_cons, List.any_nil, Bool.or_false]
  rw [hany]
  induction h with
  | nil => rfl
  | cons hread _ ih => rw [List.any_cons, List.any_cons, ih, hread.name]

/-! ### Folding -/

@[simp] theorem foldEvent_renumbered (state : SessionState) (e : FunnelEvent) (n : ℕ) :
    foldEvent state { e with seq := n } = foldEvent state e := rfl

/-- A fragment is numbered again when it is folded in. -/
theorem foldFragment_renumber (state : SessionState) (n : ℕ) (fragment : List FunnelEvent) :
    foldFragment state (renumber n fragment) = foldFragment state fragment := by
  induction fragment generalizing state n with
  | nil => rfl
  | cons e fragment ih =>
      rw [renumber, foldFragment, foldFragment, List.foldl_cons, List.foldl_cons,
        foldEvent_renumbered]
      exact ih _ _

/-- `state` is `folded` with its tokens and its end looked at. -/
structure Closes (folded state : SessionState) : Prop where
  threadId : state.threadId = folded.threadId
  funnel : state.funnel = folded.funnel
  watchCycles : state.watchCycles = folded.watchCycles
  targetEvents : state.targetEvents = folded.targetEvents
  invalidationEvents : state.invalidationEvents = folded.invalidationEvents
  resumeCount : state.resumeCount = folded.resumeCount
  reasoningTurns : state.reasoningTurns = folded.reasoningTurns
  toolCallsTotal : state.toolCallsTotal = folded.toolCallsTotal
  toolCallsByName : state.toolCallsByName = folded.toolCallsByName

theorem foldEntry_reads (state : SessionState) (h : List.Forall₂ (Reads R) buf.events rs) :
    ∃ state', foldEntry R state buf = .ok state' ∧
      Closes (foldFragment state (openingMarker R buf.entry (rs.head?.map Prod.snd) ::
        rs.filterMap fun r => funnelEvent r.1 (some r.2))) state' := by
  rw [foldEntry, interpretEvents_reads h]
  refine ⟨_, rfl, ?_⟩
  rw [foldFragment_renumber]
  split
  · exact ⟨rfl, rfl, rfl, rfl, rfl, rfl, rfl, rfl, rfl⟩
  · exact ⟨rfl, rfl, rfl, rfl, rfl, rfl, rfl, rfl, rfl⟩

/-- The session a leg runs in: a run, and a resume that finds none open, begins one. -/
def Leg.session (threadId : String) (leg : Leg) (open? : Option SessionState) : SessionState :=
  match leg.opening, open? with
  | .resume _, some state => state
  | _, _ => newState threadId leg.opening.entry leg.startTs

/-- The leg, as it was recorded, folded into a session. -/
def Leg.Folds (R : Runtime) (leg : Leg) (state state' : SessionState) : Prop :=
  ∃ buf : EntryBuffer, buf.entry = leg.opening.entry ∧
    List.Forall₂ (Reads R) buf.events (leg.readings R) ∧ foldEntry R state buf = .ok state'

theorem Leg.Folds.closes {leg : Leg} {state state' : SessionState} (h : leg.Folds R state state') :
    Closes (foldFragment state (leg.fragment R)) state' := by
  obtain ⟨buf, hentry, hreads, hfold⟩ := h
  obtain ⟨closed, hclosed, hcloses⟩ := foldEntry_reads state hreads
  obtain rfl := Except.ok.inj (hclosed.symm.trans hfold)
  rwa [hentry] at hcloses

/-- **A leg** saves one record. -/
theorem run_leg (threadId : String) (leg : Leg) (t : ThreadState) :
    ∃ state, leg.Folds R (leg.session threadId t.state) state ∧
      run (threadStep R) t (leg.observations threadId) =
        ({ state := if leg.terminal R then none else some state },
          [finalizeSession R state]) := by
  have hopened : threadStep R t
      { threadId, entry := leg.opening.entry, ts := leg.startTs, entryStarted := true } =
        ({ state := some (leg.session threadId t.state),
           buffer := some { entry := leg.opening.entry, lastTs := leg.startTs } }, []) := by
    rw [threadStep, threadOpen, if_pos (.inl rfl)]
    cases hopening : leg.opening with
    | run symbol timeframe mode =>
        simp [threadStart, threadOpened, Leg.session, hopening, Opening.entry]
    | resume trigger =>
        cases hstate : t.state with
        | none => simp [threadStart, threadOpened, Leg.session, hopening, hstate, Opening.entry]
        | some state =>
            simp [threadStart, threadOpened, Leg.session, hopening, hstate, Opening.entry]
  have hfresh : ({ entry := leg.opening.entry, lastTs := leg.startTs } : EntryBuffer).events = [] := rfl
  obtain ⟨buf, hentry, hreads, hframes⟩ := run_frames (R := R) threadId leg.opening.entry
    (some (leg.session threadId t.state)) leg.frames hfresh
  obtain ⟨state, hfold, -⟩ := foldEntry_reads (leg.session threadId t.state) hreads
  refine ⟨state, ⟨buf, hentry, hreads, hfold⟩, ?_⟩
  rw [Leg.observations, ← List.singleton_append, run_append]
  have hstart : run (threadStep R) t
      [{ threadId, entry := leg.opening.entry, ts := leg.startTs, entryStarted := true }] =
        ({ state := some (leg.session threadId t.state),
           buffer := some { entry := leg.opening.entry, lastTs := leg.startTs } }, []) := by
    rw [← List.nil_append [_], run_concat, run_nil, hopened]
    rfl
  rw [hstart, run_concat, hframes]
  simp only [List.nil_append]
  have hended : threadStep R { state := some (leg.session threadId t.state), buffer := some buf }
      { threadId, entry := leg.opening.entry, ts := leg.endTs, entryEnded := true } =
        ({ state := if leg.terminal R then none else some state },
          [finalizeSession R state]) := by
    have hterminal : (terminalSignals R buf.events).terminal = leg.terminal R := terminal_reads hreads
    simp only [threadStep, threadOpen, threadOpened, threadEnd, reduceCtorEq, Bool.false_eq_true,
      or_self, if_false, if_true, Option.getD_some, hfold, hterminal]
  rw [hended]

end AiTrader.Telemetry
