import AiTrader.Telemetry.Legs

/-! # Session telemetry: the counts

The records of a thread against the legs it ran.

* `Tallied`: the counters of a session are those of its funnel, which every fragment keeps.
* `sessionLegs`: the legs of the session a thread is in.  A run begins one, and so does what comes
  after a leg that committed a decision or errored.
* `records_faithful`: whatever the threads interleave, every leg of a thread saves one record, and
  that record counts the legs of its session. -/

namespace AiTrader.Telemetry

open Keyed

section
variable (R : Runtime)

/-! ### What a record should say -/

/-- The leg is a resume. -/
def Leg.isResume (leg : Leg) : Bool :=
  match leg.opening with
  | .run _ _ _ => false
  | .resume _ => true

/-- The leg is a resume of the trigger. -/
def Leg.resumedBy (trigger : Trigger) (leg : Leg) : Bool := decide (leg.opening = .resume trigger)

/-- The legs of the session after one more. -/
def extend (session : List Leg) (leg : Leg) : List Leg :=
  if leg.isResume = false ∨ session.getLast?.any (Leg.terminal R) then [leg] else session ++ [leg]

/-- The legs of the session that the last of `legs` ran in. -/
def sessionLegs (legs : List Leg) : List Leg := legs.foldl (extend R) []

/-- The record counts the legs of `session`. -/
structure Counts (session : List Leg) (record : SessionRecord) : Prop where
  funnel : record.funnel = renumber 0 (session.flatMap (Leg.fragment R))
  seq : record.funnel.map FunnelEvent.seq = List.range record.funnel.length
  watchCycles : record.watchCycles =
    record.funnel.countP fun e => decide (e.kind = .watchRegistered)
  reasoningTurns : record.reasoningTurns =
    record.funnel.countP fun e => decide (e.kind = .reasoningTurn)
  toolCallsTotal : record.toolCallsTotal =
    record.funnel.countP fun e => decide (e.kind = .watchRegistered ∨ e.kind = .toolCall)
  toolCallsByName : record.toolCallsByName.total = record.toolCallsTotal
  resumeCount : record.resumeCount = session.countP Leg.isResume
  invalidationEvents : record.invalidationEvents = session.countP (Leg.resumedBy .invalidation)
  -- a resume by heartbeat is left out: it counts as one by target
  targetEvents : (∀ leg ∈ session, leg.opening ≠ .resume .heartbeat) →
    record.targetEvents = session.countP (Leg.resumedBy .target)

end

variable {R : Runtime} {threadId : String} {state : SessionState} {funnel fragment : List FunnelEvent}
  {session legs : List Leg} {leg : Leg}

/-! ### Tallies -/

/-- A resume by other than an invalidation. -/
def FunnelEvent.resumedOtherwise (e : FunnelEvent) : Bool :=
  decide (e.kind = .resumed ∧ e.triggerKind ≠ some .invalidation)

/-- A resume by an invalidation. -/
def FunnelEvent.invalidated (e : FunnelEvent) : Bool :=
  decide (e.kind = .resumed ∧ e.triggerKind = some .invalidation)

/-- The state has folded in `funnel`, and counted it. -/
structure Tallied (state : SessionState) (funnel : List FunnelEvent) : Prop where
  numbered : state.funnel = renumber 0 funnel
  watchCycles : state.watchCycles = funnel.countP fun e => decide (e.kind = .watchRegistered)
  reasoningTurns : state.reasoningTurns = funnel.countP fun e => decide (e.kind = .reasoningTurn)
  toolCallsTotal : state.toolCallsTotal =
    funnel.countP fun e => decide (e.kind = .watchRegistered ∨ e.kind = .toolCall)
  toolCallsByName : state.toolCallsByName.total = state.toolCallsTotal
  resumeCount : state.resumeCount = funnel.countP fun e => decide (e.kind = .resumed)
  invalidationEvents : state.invalidationEvents = funnel.countP FunnelEvent.invalidated
  targetEvents : state.targetEvents = funnel.countP FunnelEvent.resumedOtherwise

theorem tallied_newState (entry : RunEntry) (ts : ℚ) : Tallied (newState threadId entry ts) [] :=
  ⟨rfl, rfl, rfl, rfl, rfl, rfl, rfl, rfl⟩

theorem renumber_concat (funnel : List FunnelEvent) (e : FunnelEvent) :
    renumber 0 (funnel ++ [e]) = renumber 0 funnel ++ [{ e with seq := (renumber 0 funnel).length }] := by
  rw [renumber_append, length_renumber, Nat.zero_add]
  rfl

theorem foldEvent_frame (state : SessionState) (e : FunnelEvent) :
    (foldEvent state e).threadId = state.threadId ∧
      (foldEvent state e).funnel = state.funnel ++ [{ e with seq := state.funnel.length }] := by
  unfold foldEvent
  split
  · exact ⟨rfl, rfl⟩
  · exact ⟨rfl, rfl⟩
  · exact ⟨rfl, rfl⟩
  · split
    · exact ⟨rfl, rfl⟩
    · exact ⟨rfl, rfl⟩
  · exact ⟨rfl, rfl⟩

theorem Tallied.foldEvent (h : Tallied state funnel) (e : FunnelEvent) :
    Tallied (foldEvent state e) (funnel ++ [e]) := by
  obtain ⟨hnumbered, hwatch, hreason, htools, hnames, hresume, hinvalid, htarget⟩ := h
  have hnumbered' : (Telemetry.foldEvent state e).funnel = renumber 0 (funnel ++ [e]) := by
    rw [(foldEvent_frame state e).2, hnumbered, renumber_concat]
  have hcount : ∀ p : FunnelEvent → Bool,
      (funnel ++ [e]).countP p = funnel.countP p + if p e then 1 else 0 := by
    intro p
    rw [List.countP_append, List.countP_singleton]
  cases hkind : e.kind with
  | watchRegistered =>
      refine ⟨hnumbered', ?_, ?_, ?_, ?_, ?_, ?_, ?_⟩ <;>
        simp [Telemetry.foldEvent, FunnelEvent.invalidated, FunnelEvent.resumedOtherwise,
          ToolCounts.total_bump, *]
  | toolCall =>
      refine ⟨hnumbered', ?_, ?_, ?_, ?_, ?_, ?_, ?_⟩ <;>
        simp [Telemetry.foldEvent, FunnelEvent.invalidated, FunnelEvent.resumedOtherwise,
          ToolCounts.total_bump, *]
  | resumed =>
      by_cases htrigger : e.triggerKind = some .invalidation
      · refine ⟨hnumbered', ?_, ?_, ?_, ?_, ?_, ?_, ?_⟩ <;>
          simp [Telemetry.foldEvent, FunnelEvent.invalidated, FunnelEvent.resumedOtherwise, *]
      · refine ⟨hnumbered', ?_, ?_, ?_, ?_, ?_, ?_, ?_⟩ <;>
          simp [Telemetry.foldEvent, FunnelEvent.invalidated, FunnelEvent.resumedOtherwise, *]
  | _ =>
      refine ⟨hnumbered', ?_, ?_, ?_, ?_, ?_, ?_, ?_⟩ <;>
        simp [Telemetry.foldEvent, FunnelEvent.invalidated, FunnelEvent.resumedOtherwise, *]

/-- **Fragments** are counted. -/
theorem Tallied.foldFragment (h : Tallied state funnel) (fragment : List FunnelEvent) :
    Tallied (foldFragment state fragment) (funnel ++ fragment) := by
  induction fragment using List.reverseRecOn with
  | nil =>
      rw [List.append_nil]
      exact h
  | append_singleton fragment e ih =>
      rw [← List.append_assoc, Telemetry.foldFragment, List.foldl_append, List.foldl_cons,
        List.foldl_nil]
      exact ih.foldEvent e

theorem Tallied.closes {folded : SessionState} (h : Tallied folded funnel) (hc : Closes folded state) :
    Tallied state funnel where
  numbered := hc.funnel.trans h.numbered
  watchCycles := hc.watchCycles.trans h.watchCycles
  reasoningTurns := hc.reasoningTurns.trans h.reasoningTurns
  toolCallsTotal := hc.toolCallsTotal.trans h.toolCallsTotal
  toolCallsByName := by rw [hc.toolCallsByName, hc.toolCallsTotal, h.toolCallsByName]
  resumeCount := hc.resumeCount.trans h.resumeCount
  invalidationEvents := hc.invalidationEvents.trans h.invalidationEvents
  targetEvents := hc.targetEvents.trans h.targetEvents

theorem foldFragment_threadId (state : SessionState) (fragment : List FunnelEvent) :
    (foldFragment state fragment).threadId = state.threadId := by
  induction fragment using List.reverseRecOn with
  | nil => rfl
  | append_singleton fragment e ih =>
      rw [foldFragment, List.foldl_append, List.foldl_cons, List.foldl_nil, ← foldFragment, ← ih]
      exact (foldEvent_frame _ e).1

/-! ### Fragments and sessions -/

theorem countP_flatMap_indicator {α β : Type*} {p : β → Bool} {q : α → Bool} {f : α → List β}
    {xs : List α} (h : ∀ x ∈ xs, (f x).countP p = if q x then 1 else 0) :
    (xs.flatMap f).countP p = xs.countP q := by
  induction xs with
  | nil => rfl
  | cons x xs ih =>
      rw [List.flatMap_cons, List.countP_append, h x List.mem_cons_self,
        ih fun y hy => h y (List.mem_cons_of_mem x hy), List.countP_cons, Nat.add_comm]

/-- Of a fragment's events only the opening marker may be a resume. -/
theorem countP_fragment {p : FunnelEvent → Bool} (hp : ∀ e, p e = true → e.kind = .resumed)
    (leg : Leg) :
    (leg.fragment R).countP p =
      if p (openingMarker R leg.opening.entry ((leg.readings R).head?.map Prod.snd)) then 1 else 0 := by
  rw [Leg.fragment, List.countP_cons]
  have hrest : ((leg.readings R).filterMap fun r => funnelEvent r.1 (some r.2)).countP p = 0 := by
    refine List.countP_eq_zero.mpr fun e he hpe => ?_
    obtain ⟨r, -, hr⟩ := List.mem_filterMap.mp he
    exact (funnelEvent_kind hr).1 (hp e hpe)
  rw [hrest, Nat.zero_add]

theorem normalizeTriggerKind_wire (trigger : Trigger) :
    normalizeTriggerKind R (some trigger.wire) =
      if trigger = .invalidation then .invalidation else .target := by
  have hascii : (Text.strip trigger.wire).toList.all (fun c => decide (c.toNat < 128)) = true := by
    cases trigger <;> decide
  dsimp only [normalizeTriggerKind]
  rw [R.casing.lower_of_ascii hascii]
  cases trigger <;> decide

/-- The opening markers of the session are its resumes. -/
theorem Tallied.counts (h : Tallied state (session.flatMap (Leg.fragment R))) :
    Counts R session (finalizeSession R state) := by
  have hsame : ∀ p : FunnelEvent → Bool, (∀ e n, p { e with seq := n } = p e) →
      (session.flatMap (Leg.fragment R)).countP p = state.funnel.countP p := by
    intro p hp
    rw [h.numbered, countP_renumber hp]
  refine ⟨h.numbered, ?_, ?_, ?_, ?_, h.toolCallsByName, ?_, ?_, fun hbeat => ?_⟩
  · show state.funnel.map FunnelEvent.seq = List.range state.funnel.length
    rw [h.numbered, map_seq_renumber, length_renumber, List.range_eq_range']
  · exact h.watchCycles.trans (hsame _ fun _ _ => rfl)
  · exact h.reasoningTurns.trans (hsame _ fun _ _ => rfl)
  · exact h.toolCallsTotal.trans (hsame _ fun _ _ => rfl)
  · refine h.resumeCount.trans (countP_flatMap_indicator fun leg _ => ?_)
    rw [countP_fragment (fun e he => of_decide_eq_true he)]
    cases hopening : leg.opening with
    | run symbol timeframe mode => simp [Opening.entry, openingMarker, Leg.isResume, hopening]
    | resume trigger => simp [Opening.entry, openingMarker, Leg.isResume, hopening]
  · refine h.invalidationEvents.trans (countP_flatMap_indicator fun leg _ => ?_)
    rw [countP_fragment (fun e he => (of_decide_eq_true he).1)]
    cases hopening : leg.opening with
    | run symbol timeframe mode =>
        simp [Opening.entry, openingMarker, Leg.resumedBy, hopening, FunnelEvent.invalidated]
    | resume trigger =>
        simp [Opening.entry, openingMarker, Leg.resumedBy, hopening, FunnelEvent.invalidated,
          normalizeTriggerKind_wire]
  · refine h.targetEvents.trans (countP_flatMap_indicator fun leg hleg => ?_)
    rw [countP_fragment (fun e he => (of_decide_eq_true he).1)]
    have hleg := hbeat leg hleg
    cases hopening : leg.opening with
    | run symbol timeframe mode =>
        simp [Opening.entry, openingMarker, Leg.resumedBy, hopening, FunnelEvent.resumedOtherwise]
    | resume trigger =>
        rw [hopening] at hleg
        cases trigger with
        | target =>
            simp [Opening.entry, openingMarker, Leg.resumedBy, hopening,
              FunnelEvent.resumedOtherwise, normalizeTriggerKind_wire]
        | invalidation =>
            simp [Opening.entry, openingMarker, Leg.resumedBy, hopening,
              FunnelEvent.resumedOtherwise, normalizeTriggerKind_wire]
        | heartbeat => exact absurd rfl hleg

/-! ### Runs of a thread -/

/-- What a thread holds between two legs: the session of the last leg unless that leg ended it. -/
structure Holding (R : Runtime) (I : List Leg → SessionState → Prop) (session : List Leg)
    (open? : Option SessionState) : Prop where
  closed : open? = none → session = [] ∨ session.getLast?.any (Leg.terminal R) = true
  running : ∀ state, open? = some state →
    session.getLast?.any (Leg.terminal R) = false ∧ I session state

/-- What is true of a session and its legs, from the first leg on. -/
structure KeptByLegs (R : Runtime) (threadId : String) (I : List Leg → SessionState → Prop) :
    Prop where
  first : ∀ leg state, leg.Folds R (newState threadId leg.opening.entry leg.startTs) state →
    I [leg] state
  next : ∀ before leg state state', before.getLast?.any (Leg.terminal R) = false → I before state →
    leg.Folds R state state' → I (before ++ [leg]) state'

section
variable {I : List Leg → SessionState → Prop}

theorem Holding.run_leg (hI : KeptByLegs R threadId I) {t : ThreadState}
    (h : Holding R I session t.state) (leg : Leg) :
    ∃ t' state, run (threadStep R) t (leg.observations threadId) = (t', [finalizeSession R state]) ∧
      Holding R I (extend R session leg) t'.state ∧ I (extend R session leg) state := by
  obtain ⟨state, hfolds, hrun⟩ := Telemetry.run_leg (R := R) threadId leg t
  have hstate : I (extend R session leg) state ∧ (extend R session leg).getLast? = some leg := by
    have hfresh : leg.session threadId t.state = newState threadId leg.opening.entry leg.startTs →
        I [leg] state := fun heq => hI.first leg state (heq ▸ hfolds)
    cases hopening : leg.opening with
    | run symbol timeframe mode =>
        have hextend : extend R session leg = [leg] := by
          rw [extend, if_pos (.inl (by rw [Leg.isResume, hopening]))]
        rw [hextend]
        exact ⟨hfresh (by simp [Leg.session, hopening]), rfl⟩
    | resume trigger =>
        cases hopen : t.state with
        | none =>
            have hextend : extend R session leg = [leg] := by
              rcases h.closed hopen with rfl | hterminal
              · simp [extend]
              · rw [extend, if_pos (.inr hterminal)]
            rw [hextend]
            exact ⟨hfresh (by simp [Leg.session, hopening, hopen]), rfl⟩
        | some open? =>
            obtain ⟨hrunning, hbefore⟩ := h.running open? hopen
            have hsession : leg.session threadId t.state = open? := by
              simp [Leg.session, hopening, hopen]
            rw [hsession] at hfolds
            rw [extend, if_neg (by simp [Leg.isResume, hopening, hrunning])]
            exact ⟨hI.next session leg open? state hrunning hbefore hfolds, by simp⟩
  refine ⟨_, state, hrun, ⟨fun hnone => .inr ?_, fun state' hsome => ?_⟩, hstate.1⟩
  · by_cases hterminal : leg.terminal R = true
    · rw [hstate.2, Option.any_some, hterminal]
    · rw [if_neg hterminal] at hnone
      cases hnone
  · by_cases hterminal : leg.terminal R = true
    · rw [if_pos hterminal] at hsome
      cases hsome
    · rw [if_neg hterminal] at hsome
      cases hsome
      exact ⟨by rw [hstate.2, Option.any_some, eq_false_of_ne_true hterminal], hstate.1⟩

theorem run_legs (hI : KeptByLegs R threadId I) (legs : List Leg) :
    ∃ t records, run (threadStep R) {} (legs.flatMap (Leg.observations threadId)) = (t, records) ∧
      Holding R I (sessionLegs R legs) t.state ∧ records.length = legs.length ∧
      ∀ i < legs.length, ∃ state, records[i]? = some (finalizeSession R state) ∧
        I (sessionLegs R (legs.take (i + 1))) state := by
  induction legs using List.reverseRecOn with
  | nil =>
      refine ⟨{}, [], rfl, ⟨fun _ => .inl rfl, fun state hstate => ?_⟩, rfl, fun i hi => ?_⟩
      · cases hstate
      · exact absurd hi (Nat.not_lt_zero i)
  | append_singleton legs leg ih =>
      obtain ⟨t, records, hrun, hholding, hlength, hstates⟩ := ih
      obtain ⟨t', state, hleg, hholding', hstate⟩ := hholding.run_leg hI leg
      have hsession : sessionLegs R (legs ++ [leg]) = extend R (sessionLegs R legs) leg := by
        rw [sessionLegs, List.foldl_append, ← sessionLegs]
        rfl
      refine ⟨t', records ++ [finalizeSession R state], ?_, ?_, ?_, fun i hi => ?_⟩
      · rw [List.flatMap_append, List.flatMap_cons, List.flatMap_nil, List.append_nil, run_append,
          hrun, hleg]
      · rw [hsession]
        exact hholding'
      · rw [List.length_append, List.length_append, hlength]
        rfl
      · rw [List.length_append, List.length_singleton] at hi
        rcases Nat.lt_succ_iff_lt_or_eq.mp hi with hlt | rfl
        · obtain ⟨old, hold, hkept⟩ := hstates i hlt
          refine ⟨old, ?_, ?_⟩
          · rw [List.getElem?_append_left (by omega), hold]
          · rw [List.take_append_of_le_length (by omega)]
            exact hkept
        · refine ⟨state, ?_, ?_⟩
          · rw [← hlength, List.getElem?_concat_length]
          · rw [List.take_of_length_le (by simp), hsession]
            exact hstate

end

theorem tallied_keptByLegs : KeptByLegs R threadId fun session state =>
    Tallied state (session.flatMap (Leg.fragment R)) where
  first leg state h := by
    rw [List.flatMap_cons, List.flatMap_nil, List.append_nil]
    exact ((tallied_newState _ _).foldFragment (leg.fragment R)).closes h.closes
  next before leg state state' _ hbefore h := by
    rw [List.flatMap_append, List.flatMap_cons, List.flatMap_nil, List.append_nil]
    exact (hbefore.foldFragment (leg.fragment R)).closes h.closes

/-! ### All threads -/

/-- The session of a thread is of that thread. -/
def Own (threadId : String) (t : ThreadState) : Prop :=
  ∀ state, t.state = some state → state.threadId = threadId

theorem foldEntry_threadId {state' : SessionState} {buf : EntryBuffer}
    (h : foldEntry R state buf = .ok state') : state'.threadId = state.threadId := by
  rw [foldEntry] at h
  obtain ⟨fragment, -, h⟩ := Fallible.bind_eq_ok.mp h
  cases h
  split
  · exact foldFragment_threadId state fragment
  · exact foldFragment_threadId state fragment

theorem threadOpen_own {t : ThreadState} {obs : Observation} (h : Own obs.threadId t) :
    Own obs.threadId (threadOpen t obs) := by
  rw [threadOpen]
  split
  · intro state hstate
    cases hkind : obs.entry.kind with
    | run =>
        simp only [threadStart, hkind, Option.some.injEq] at hstate
        rw [← hstate, newState]
    | resume =>
        cases hopen : t.state with
        | none =>
            simp only [threadStart, hkind, hopen, Option.some.injEq] at hstate
            rw [← hstate, newState]
        | some old =>
            simp only [threadStart, hkind, hopen, Option.some.injEq] at hstate
            rw [← hstate, h old hopen]
  · exact h

theorem threadStep_own {t : ThreadState} {obs : Observation} (h : Own obs.threadId t) :
    Own obs.threadId (threadStep R t obs).1 ∧
      ∀ record ∈ (threadStep R t obs).2, record.threadId = obs.threadId := by
  have hopen := threadOpen_own h
  have hend : ∀ buf, Own obs.threadId (threadEnd R (threadOpen t obs).state buf obs).1 ∧
      ∀ record ∈ (threadEnd R (threadOpen t obs).state buf obs).2, record.threadId = obs.threadId := by
    intro buf
    have hstate : ((threadOpen t obs).state.getD
        (newState obs.threadId buf.entry buf.lastTs)).threadId = obs.threadId := by
      cases hs : (threadOpen t obs).state with
      | none => rfl
      | some state => exact hopen state hs
    rw [threadEnd]
    cases hfold : foldEntry R ((threadOpen t obs).state.getD
        (newState obs.threadId buf.entry buf.lastTs)) buf with
    | error e =>
        refine ⟨fun state hs => ?_, fun record hrecord => absurd hrecord List.not_mem_nil⟩
        rw [← Option.some.inj hs, hstate]
    | ok state' =>
        have hid := (foldEntry_threadId hfold).trans hstate
        refine ⟨fun state hs => ?_, fun record hrecord => ?_⟩
        · by_cases hterminal : (terminalSignals R buf.events).terminal = true
          · simp [hterminal] at hs
          · simp only [hterminal, Bool.false_eq_true, if_false, Option.some.injEq] at hs
            rw [← hs, hid]
        · rw [List.mem_singleton.mp hrecord]
          exact hid
  have hquiet : ∀ record ∈ ([] : List SessionRecord), record.threadId = obs.threadId :=
    fun record hrecord => absurd hrecord List.not_mem_nil
  rw [threadStep]
  split
  · exact ⟨hopen, hquiet⟩
  · rw [threadOpened]
    split
    · split
      · exact ⟨hopen, hquiet⟩
      · split
        · exact hend _
        · exact ⟨hopen, hquiet⟩
    · split
      · exact hend _
      · exact ⟨hopen, hquiet⟩

/-- What a thread saves it would save alone. -/
theorem saved_thread {observations : List Observation}
    (hlegs : observations.filter (fun obs => decide (obs.threadId = threadId)) =
      legs.flatMap (Leg.observations threadId)) :
    ((saved R observations).filter fun record => decide (record.threadId = threadId)) =
      (run (threadStep R) {} (legs.flatMap (Leg.observations threadId))).2 := by
  rw [← hlegs]
  exact process_projection.filter_run (I := Own)
    (fun k state hstate => by cases hstate) (fun t obs h => (threadStep_own h).1)
    (fun t obs h => (threadStep_own h).2) observations threadId

/-- **Records are faithful.**  In any interleaving, what a thread saves is what it would save alone:
one record a leg, that counts the legs of its session. -/
theorem records_faithful (R : Runtime) (observations : List Observation) (threadId : String)
    (legs : List Leg)
    (hlegs : observations.filter (fun obs => decide (obs.threadId = threadId)) =
      legs.flatMap (Leg.observations threadId)) :
    let records := (saved R observations).filter fun record => decide (record.threadId = threadId)
    records = saved R (observations.filter fun obs => decide (obs.threadId = threadId)) ∧
      records.length = legs.length ∧
      ∀ i < legs.length, ∃ record, records[i]? = some record ∧
        Counts R (sessionLegs R (legs.take (i + 1))) record := by
  intro records
  have hview : ∀ k, threadState k ({} : Writer) = {} := fun k => rfl
  have halone : records = (run (threadStep R) {} (legs.flatMap (Leg.observations threadId))).2 :=
    saved_thread hlegs
  have hkept : KeptByLegs R threadId _ := tallied_keptByLegs
  obtain ⟨t, saved', hrun, -, hlength, hstates⟩ := run_legs hkept legs
  rw [hrun] at halone
  refine ⟨?_, by rw [halone, hlength], fun i hi => ?_⟩
  · rw [saved, process_projection.out_of_forall_key (k := threadId)
      fun obs hobs => of_decide_eq_true (List.mem_filter.mp hobs).2, hlegs, hview, hrun, halone]
  · obtain ⟨state, hstate, htallied⟩ := hstates i hi
    exact ⟨_, by rw [halone, hstate], htallied.counts⟩

/-- A run that watches a price, and its resume. -/
def watched : List Leg :=
  [{ opening := .run (some "INFY") (some "5m") none, startTs := 0, endTs := 4
     frames := [{ eventName := some "REASONING", ts := 1 },
       { eventName := some "TOOL_CALL_START", payload := some [("tool", .str watchToolName)], ts := 2 }] },
    { opening := .resume .target, startTs := 9, endTs := 10 }]

/-- Another thread runs in between. -/
def interleaved : List Observation :=
  let other : Leg := { opening := .resume .heartbeat, startTs := 3, endTs := 5 }
  (watched.flatMap (Leg.observations "a")).take 3 ++ other.observations "b" ++
    (watched.flatMap (Leg.observations "a")).drop 3

theorem records_faithful_interleaved :
    ((saved .small interleaved).filter fun record => decide (record.threadId = "a")).length = 2 :=
  (records_faithful .small interleaved "a" watched rfl).2.1

/-- A run that errors, and a resume by heartbeat. -/
def retried : List Leg :=
  [{ opening := .run (some "INFY") (some "5m") none, startTs := 0, endTs := 2
     frames := [{ eventName := some "ERROR", ts := 1 }] },
    { opening := .resume .heartbeat, startTs := 9, endTs := 10 }]

/-- The record of the resume has not the funnel of both legs, and counts a target. -/
theorem retried_miscounted :
    (saved .small (retried.flatMap (Leg.observations "a"))).map
        (fun record => (record.funnel.map FunnelEvent.kind, record.targetEvents)) =
      [([.sessionStarted, .error], 0), ([.resumed], 1)] ∧
    (retried.flatMap (Leg.fragment .small)).map FunnelEvent.kind =
      [.sessionStarted, .error, .resumed] ∧
    retried.countP (Leg.resumedBy .target) = 0 := by
  decide +kernel

end AiTrader.Telemetry
