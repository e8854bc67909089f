import AiTrader.Library.Transition
import AiTrader.Session.Api
import AiTrader.Session.Persist
import Mathlib.Data.Finset.Erase
import Mathlib.Data.Finset.Insert

/-! # Cancellation

`/cancel` puts a thread into one shared set.  A leg looks the set up at each step of its graph
stream and ends `cancelled` when its thread is in it; the `finally` around the stream takes the
thread out again, whichever leg it belongs to.

* `Requested`: a cancel of the leg's thread was accepted while the leg was in flight.
* `Pending`: a cancel of the thread was accepted, and no leg of the thread has left its stream
  since.
* `mem_cancelled_iff`: the set holds exactly the threads with a pending cancel.
* `cancellation_exact_iff`: a leg is cancelled as requested exactly when at its last graph step a
  cancel was pending if and only if one had been requested. -/

namespace AiTrader.Session

open Transition

/-! ### Requests -/

/-- The body of `/cancel`. -/
structure CancelRequest where
  threadId : Option Id
  runId : Option Id

/-- A request, with the caller that was resolved for it and the store it reads. -/
structure CancelCall where
  sessionsActive : Bool
  store : Store
  user : Option VerifiedUser
  request : CancelRequest

/-- `cancel_agent` up to the point where it accepts: the thread to cancel. -/
def CancelCall.thread (c : CancelCall) : Except HttpError Id :=
  match c.request.runId, c.request.threadId with
  | some rid, _ =>
      if !c.sessionsActive then
        .error ⟨503, "session persistence is not enabled on this deployment"⟩
      else
        match c.user with
        | none => .error runNotFound
        | some u =>
            match c.store.getRunForUser rid u.id with
            | .error e => .error (serverError e)
            | .ok none => .error runNotFound
            | .ok (some run) => .ok run.threadId
  | none, some tid =>
      -- a thread without a run row has no recorded owner
      match c.store.getRunByThread tid with
      | none => .ok tid
      | some run =>
          if c.user.map VerifiedUser.id = some run.userId then .ok tid else .error ⟨404, "not found"⟩
  | none, none => .error ⟨422, "either run_id or thread_id is required"⟩

/-! ### Legs -/

structure LegInput where
  kind : LegKind
  threadId : Id

/-- The outcome recorded for a leg. -/
inductive LegOutcome where
  | cancelled | completed | paused | error | authError | keyError | disconnected
deriving DecidableEq, Repr

/-- The outcomes of a leg that does not reach its graph stream. -/
def LegOutcome.early : LegOutcome → Bool
  | authError | keyError | disconnected => true
  | _ => false

/-- The outcomes of a graph stream that was not cancelled. -/
def LegOutcome.late : LegOutcome → Bool
  | completed | paused | error | disconnected => true
  | _ => false

/-- `setup` is before the `try`, `looping` inside the graph stream, `ending` before the
`finally`. -/
inductive LegPhase where
  | idle
  | setup
  | looping
  | ending (o : LegOutcome)
  | closed (o : LegOutcome)
deriving DecidableEq, Repr

def LegPhase.outcome : LegPhase → Option LegOutcome
  | ending o | closed o => some o
  | _ => none

/-- The leg has started and has no outcome yet. -/
def LegPhase.inFlight : LegPhase → Bool
  | setup | looping => true
  | _ => false

/-- `_CANCELLED`, and where each leg stands. -/
structure CancelState (ω : Type*) where
  cancelled : Finset Id
  phase : ω → LegPhase

inductive CancelEvent (ω : Type*) where
  | cancel (c : CancelCall)
  | start (i : ω)
  | abort (i : ω) (o : LegOutcome)
  | enter (i : ω)
  | graphStep (i : ω)
  | finish (i : ω) (o : LegOutcome)
  | close (i : ω)

section
variable {ω : Type*} [DecidableEq ω] (legs : ω → LegInput)

namespace CancelState

/-- Nothing has happened. -/
def initial : CancelState ω := ⟨∅, fun _ => .idle⟩

/-- The leg `i` moves on. -/
def goto (s : CancelState ω) (i : ω) (p : LegPhase) : CancelState ω :=
  { s with phase := Function.update s.phase i p }

/-- One event. -/
def step (s : CancelState ω) : CancelEvent ω → Option (CancelState ω)
  | .cancel c =>
      match c.thread with
      | .ok tid => some { s with cancelled := insert tid s.cancelled }
      | .error _ => some s
  | .start i =>
      match s.phase i with
      | .idle => some (s.goto i .setup)
      | _ => none
  | .abort i o =>
      match s.phase i with
      | .setup => if o.early then some (s.goto i (.closed o)) else none
      | _ => none
  | .enter i =>
      match s.phase i with
      | .setup => some (s.goto i .looping)
      | _ => none
  | .graphStep i =>
      match s.phase i with
      | .looping =>
          if (legs i).threadId ∈ s.cancelled then some (s.goto i (.ending .cancelled)) else some s
      | _ => none
  | .finish i o =>
      match s.phase i with
      | .looping => if o.late then some (s.goto i (.ending o)) else none
      | _ => none
  | .close i =>
      match s.phase i with
      | .ending o =>
          some { s.goto i (.closed o) with cancelled := s.cancelled.erase (legs i).threadId }
      | _ => none

end CancelState

/-! ### What was asked for -/

/-- A cancel of the thread is accepted. -/
def CancelEvent.accepts (tid : Id) : CancelEvent ω → Bool
  | .cancel c =>
      match c.thread with
      | .ok t => decide (t = tid)
      | .error _ => false
  | _ => false

/-- A leg of the thread leaves its stream. -/
def CancelEvent.closes (tid : Id) : CancelEvent ω → Bool
  | .close i => decide ((legs i).threadId = tid)
  | _ => false

/-- A cancel of the leg's thread was accepted while the leg was in flight. -/
def Requested (i : ω) (tr : List (CancelState ω × CancelEvent ω)) : Prop :=
  ∃ x ∈ tr, x.2.accepts (legs i).threadId = true ∧ (x.1.phase i).inFlight = true

/-- A cancel of the thread was accepted, and no leg of the thread has left its stream since. -/
def Pending (tid : Id) (tr : List (CancelState ω × CancelEvent ω)) : Prop :=
  Since (fun x => x.2.accepts tid = true) (fun x => x.2.closes legs tid = false) tr

/-- The leg ends `cancelled` only if that was requested, and does so if it takes a graph step
after the request. -/
def CancelledAsRequested (i : ω) (tr : List (CancelState ω × CancelEvent ω))
    (t : CancelState ω) : Prop :=
  ((t.phase i).outcome = some .cancelled → Requested legs i tr) ∧
    ∀ tr₁ x tr₂, tr = tr₁ ++ (x, .graphStep i) :: tr₂ → Requested legs i tr₁ →
      (t.phase i).outcome = some .cancelled

variable {legs} {s s' t : CancelState ω} {e : CancelEvent ω} {i : ω} {o : LegOutcome} {tid : Id}
  {tr tr₁ tr₂ : List (CancelState ω × CancelEvent ω)}

namespace CancelState

/-! ### One event -/

@[simp] theorem goto_phase (s : CancelState ω) (i : ω) (p : LegPhase) :
    (s.goto i p).phase = Function.update s.phase i p := rfl

omit [DecidableEq ω] in
theorem outcome_of_inFlight {p : LegPhase} (h : p.inFlight = true) : p.outcome = none := by
  cases p with
  | idle | setup | looping => rfl
  | ending o | closed o => cases h

theorem step_cases (h : s.step legs e = some s') :
    (∃ c, e = .cancel c ∧ s'.phase = s.phase ∧
      ∀ tid, tid ∈ s'.cancelled ↔ e.accepts tid = true ∨ tid ∈ s.cancelled) ∨
    (∃ i p, s' = s.goto i p ∧ (s.phase i).outcome = none ∧
      (p.outcome = some .cancelled → e = .graphStep i) ∧
      ∀ tid, e.accepts tid = false ∧ e.closes legs tid = false) ∨
    (∃ i, e = .graphStep i ∧ s' = s) ∨
    (∃ i o, e = .close i ∧ s.phase i = .ending o ∧
      s' = { s.goto i (.closed o) with cancelled := s.cancelled.erase (legs i).threadId }) := by
  cases e with
  | cancel c =>
      left
      refine ⟨c, rfl, ?_⟩
      simp only [step] at h
      cases hc : c.thread with
      | ok t =>
          rw [hc] at h
          cases h
          refine ⟨rfl, fun tid => ?_⟩
          simp [CancelEvent.accepts, hc, eq_comm]
      | error err =>
          rw [hc] at h
          cases h
          refine ⟨rfl, fun tid => ?_⟩
          simp [CancelEvent.accepts, hc]
  | start i =>
      simp only [step] at h
      split at h
      · rename_i hphase
        cases h
        exact .inr (.inl ⟨i, .setup, rfl, by rw [hphase]; rfl, nofun, fun _ => ⟨rfl, rfl⟩⟩)
      · cases h
  | abort i o =>
      simp only [step] at h
      split at h
      · rename_i hphase
        split_ifs at h with hearly
        cases h
        refine .inr (.inl ⟨i, .closed o, rfl, by rw [hphase]; rfl, ?_, fun _ => ⟨rfl, rfl⟩⟩)
        rintro hout
        cases hout
        cases hearly
      · cases h
  | enter i =>
      simp only [step] at h
      split at h
      · rename_i hphase
        cases h
        exact .inr (.inl ⟨i, .looping, rfl, by rw [hphase]; rfl, nofun, fun _ => ⟨rfl, rfl⟩⟩)
      · cases h
  | graphStep i =>
      simp only [step] at h
      split at h
      · rename_i hphase
        split_ifs at h
        · cases h
          exact .inr (.inl ⟨i, .ending .cancelled, rfl, by rw [hphase]; rfl, fun _ => rfl,
            fun _ => ⟨rfl, rfl⟩⟩)
        · cases h
          exact .inr (.inr (.inl ⟨i, rfl, rfl⟩))
      · cases h
  | finish i o =>
      simp only [step] at h
      split at h
      · rename_i hphase
        split_ifs at h with hlate
        cases h
        refine .inr (.inl ⟨i, .ending o, rfl, by rw [hphase]; rfl, ?_, fun _ => ⟨rfl, rfl⟩⟩)
        rintro hout
        cases hout
        cases hlate
      · cases h
  | close i =>
      simp only [step] at h
      split at h
      · rename_i o hphase
        cases h
        exact .inr (.inr (.inr ⟨i, o, rfl, hphase, rfl⟩))
      · cases h

theorem step_graphStep (h : s.step legs (.graphStep i) = some s') :
    s.phase i = .looping ∧
      s' = if (legs i).threadId ∈ s.cancelled then s.goto i (.ending .cancelled) else s := by
  simp only [step] at h
  split at h
  · rename_i hphase
    refine ⟨hphase, ?_⟩
    split_ifs at h ⊢ with hmem
    · exact (Option.some.inj h).symm
    · exact (Option.some.inj h).symm
  · cases h

/-- A thread is in the set after an event that accepts its cancel, or if it was and no leg of
the thread left its stream. -/
theorem mem_cancelled_step (h : s.step legs e = some s') :
    tid ∈ s'.cancelled ↔
      e.accepts tid = true ∨ (tid ∈ s.cancelled ∧ e.closes legs tid = false) := by
  obtain ⟨c, rfl, -, hmem⟩ | ⟨i, p, rfl, -, -, hquiet⟩ | ⟨i, rfl, rfl⟩ | ⟨i, o, rfl, -, rfl⟩ :=
    step_cases h
  · rw [hmem]
    simp [CancelEvent.closes]
  · obtain ⟨hacc, hcl⟩ := hquiet tid
    simp [goto, hacc, hcl]
  · simp [CancelEvent.accepts, CancelEvent.closes]
  · simp only [Finset.mem_erase, CancelEvent.accepts, CancelEvent.closes, Bool.false_eq_true,
      false_or, decide_eq_false_iff_not]
    rw [and_comm, ne_comm]

/-- An event leaves the outcome of a leg alone, or gives it one; `cancelled` is given by a graph
step of the leg itself. -/
theorem outcome_cases (h : s.step legs e = some s') (i : ω) :
    (s'.phase i).outcome = (s.phase i).outcome ∨
      ((s.phase i).outcome = none ∧
        ((s'.phase i).outcome = some .cancelled → e = .graphStep i)) := by
  obtain ⟨c, rfl, hphase, -⟩ | ⟨j, p, rfl, hnone, hcanc, -⟩ | ⟨j, rfl, rfl⟩ |
    ⟨j, o, rfl, hend, rfl⟩ := step_cases h
  · exact .inl (by rw [hphase])
  · by_cases hij : i = j
    · subst hij
      rw [goto_phase, Function.update_self]
      exact .inr ⟨hnone, hcanc⟩
    · exact .inl (by rw [goto_phase, Function.update_of_ne hij])
  · exact .inl rfl
  · refine .inl ?_
    show (Function.update s.phase j (.closed o) i).outcome = _
    by_cases hij : i = j
    · subst hij
      rw [Function.update_self, hend]
      rfl
    · rw [Function.update_of_ne hij]

theorem outcome_step (h : s.step legs e = some s') (ho : (s.phase i).outcome = some o) :
    (s'.phase i).outcome = some o := by
  obtain hkeep | ⟨hnone, -⟩ := outcome_cases h i
  · rw [hkeep, ho]
  · rw [hnone] at ho
    cases ho

theorem cancelled_step (h : s.step legs e = some s') (hne : e ≠ .graphStep i)
    (ho : (s.phase i).outcome ≠ some .cancelled) :
    (s'.phase i).outcome ≠ some .cancelled := by
  obtain hkeep | ⟨-, hcanc⟩ := outcome_cases h i
  · rw [hkeep]
    exact ho
  · exact fun hout => hne (hcanc hout)

/-! ### Runs -/

/-- The set holds the threads with a pending cancel. -/
theorem mem_cancelled_iff (hrun : Path (step legs) initial tr t) :
    tid ∈ t.cancelled ↔ Pending legs tid tr := by
  induction hrun with
  | nil => exact iff_of_false (Finset.notMem_empty _) not_since_nil
  | snoc _ hs ih => rw [mem_cancelled_step hs, ih, Pending, Pending, since_concat]

/-- The last graph step of a leg decides whether it ends `cancelled`; if it does, the leg is in
flight no more. -/
theorem last_graphStep {x : CancelState ω}
    (hrun : Path (step legs) s (tr₁ ++ (x, .graphStep i) :: tr₂) t)
    (hlast : ∀ y ∈ tr₂, y.2 ≠ .graphStep i) :
    ((t.phase i).outcome = some .cancelled ↔ (legs i).threadId ∈ x.cancelled) ∧
      ((legs i).threadId ∈ x.cancelled → ∀ y ∈ tr₂, (y.1.phase i).inFlight = false) := by
  obtain ⟨-, u, hstep, hrest⟩ := hrun.split
  obtain ⟨hphase, hu⟩ := step_graphStep hstep
  by_cases hmem : (legs i).threadId ∈ x.cancelled
  · rw [if_pos hmem] at hu
    have hout : (u.phase i).outcome = some .cancelled := by
      rw [hu, goto_phase, Function.update_self]
      rfl
    obtain ⟨hall, hend⟩ := hrest.invariant
      (I := fun y => (y.phase i).outcome = some .cancelled)
      (fun _ _ _ _ hy h => outcome_step h hy) hout
    refine ⟨iff_of_true hend hmem, fun _ y hy => ?_⟩
    rw [Bool.eq_false_iff]
    intro hfl
    have hnone := outcome_of_inFlight hfl
    rw [hall y hy] at hnone
    cases hnone
  · rw [if_neg hmem] at hu
    have hout : (u.phase i).outcome ≠ some .cancelled := by
      rw [hu, hphase]
      nofun
    obtain ⟨-, hend⟩ := hrest.invariant
      (I := fun y => (y.phase i).outcome ≠ some .cancelled)
      (fun y a _ hy hc h => cancelled_step h (hlast (y, a) hy) hc) hout
    exact ⟨iff_of_false hend hmem, fun h => absurd h hmem⟩

theorem not_cancelled_of_no_graphStep (hrun : Path (step legs) initial tr t)
    (hno : ∀ y ∈ tr, y.2 ≠ .graphStep i) : (t.phase i).outcome ≠ some .cancelled :=
  (hrun.invariant (I := fun y => (y.phase i).outcome ≠ some .cancelled)
    (fun y a _ hy hc h => cancelled_step h (hno (y, a) hy) hc) nofun).2

omit [DecidableEq ω] in
theorem requested_append (h : Requested legs i tr₁) : Requested legs i (tr₁ ++ tr₂) := by
  obtain ⟨x, hx, hreq⟩ := h
  exact ⟨x, List.mem_append_left _ hx, hreq⟩

/-- **Cancellation.** A leg ends `cancelled` only if a cancel of its thread was accepted while it
was in flight, and does end so when it takes a graph step after that, exactly when at its last
graph step the two histories agree: a cancel of its thread is pending if and only if one was
accepted since the leg started. -/
theorem cancellation_exact_iff (hrun : Path (step legs) initial tr t) :
    CancelledAsRequested legs i tr t ↔
      ∀ tr₁ x tr₂, tr = tr₁ ++ (x, .graphStep i) :: tr₂ → (∀ y ∈ tr₂, y.2 ≠ .graphStep i) →
        (Pending legs (legs i).threadId tr₁ ↔ Requested legs i tr₁) := by
  constructor
  · rintro ⟨honly, hwhen⟩ tr₁ x tr₂ rfl hlast
    obtain ⟨hcanc, hafter⟩ := last_graphStep hrun hlast
    have hpend : (legs i).threadId ∈ x.cancelled ↔ Pending legs (legs i).threadId tr₁ :=
      mem_cancelled_iff hrun.split.1
    constructor
    · intro hp
      have hmem := hpend.mpr hp
      obtain ⟨y, hy, hacc, hfl⟩ := honly (hcanc.mpr hmem)
      -- the request came before the step: at the step nothing is accepted, and later the leg
      -- is no longer in flight
      rcases List.mem_append.mp hy with hy | hy
      · exact ⟨y, hy, hacc, hfl⟩
      · rcases List.mem_cons.mp hy with rfl | hy
        · cases hacc
        · rw [hafter hmem y hy] at hfl
          cases hfl
    · intro hreq
      exact hpend.mp (hcanc.mp (hwhen tr₁ x tr₂ rfl hreq))
  · intro hagree
    constructor
    · intro hout
      by_contra hnot
      refine not_cancelled_of_no_graphStep hrun (fun y hy hstep => ?_) hout
      obtain ⟨tr₁, ⟨x, e⟩, tr₂, rfl, hx, hlast⟩ :=
        since_last (p := fun y : CancelState ω × CancelEvent ω => y.2 = .graphStep i) hy hstep
      cases hx
      have hmem := (last_graphStep hrun hlast).1.mp hout
      exact hnot (requested_append
        ((hagree tr₁ x tr₂ rfl hlast).mp ((mem_cancelled_iff hrun.split.1).mp hmem)))
    · rintro tr₁ x tr₂ rfl hreq
      -- the last graph step is this one or a later one, so the request precedes it
      obtain ⟨l₁, ⟨y, e⟩, l₂, hl, hy, hlast⟩ :=
        since_last (p := fun y : CancelState ω × CancelEvent ω => y.2 = .graphStep i)
          (List.mem_cons_self (a := (x, .graphStep i)) (l := tr₂)) rfl
      cases hy
      rw [hl, ← List.append_assoc] at hrun hagree
      rw [(last_graphStep hrun hlast).1, mem_cancelled_iff hrun.split.1]
      exact (hagree (tr₁ ++ l₁) y l₂ rfl hlast).mpr (requested_append hreq)

end CancelState

end

/-! ### A run and a question on one thread -/

/-- A `/run` leg and a `/qa` leg of the run of `sampleStore`. -/
def sampleLegs : Bool → LegInput
  | false => ⟨.run, 2⟩
  | true => ⟨.qa, 2⟩

/-- The owner cancels the run. -/
def ownCancel : CancelCall :=
  { sessionsActive := true, store := sampleStore, user := some sampleUser,
    request := { threadId := none, runId := some 1 } }

/-- The states of a schedule. -/
def runLegs (schedule : List (CancelEvent Bool)) :
    Option (List (CancelState Bool × CancelEvent Bool) × CancelState Bool) :=
  trace (CancelState.step sampleLegs) .initial schedule

/-- The run is cancelled between two graph steps. -/
def cancelInFlight : List (CancelEvent Bool) :=
  [.start false, .enter false, .graphStep false, .cancel ownCancel, .graphStep false, .close false]

/-- The run has ended when it is cancelled; later a question is asked. -/
def cancelTooLate : List (CancelEvent Bool) :=
  [.start false, .enter false, .graphStep false, .finish false .completed, .close false,
   .cancel ownCancel, .start true, .enter true, .graphStep true, .close true]

theorem cancelInFlight_runs : (runLegs cancelInFlight).isSome = true := by decide +kernel

theorem cancellation_exact_inFlight :
    ∃ tr t, runLegs cancelInFlight = some (tr, t) ∧
      (CancelledAsRequested sampleLegs false tr t ↔
        ∀ tr₁ x tr₂, tr = tr₁ ++ (x, .graphStep false) :: tr₂ →
          (∀ y ∈ tr₂, y.2 ≠ .graphStep false) →
          (Pending sampleLegs (sampleLegs false).threadId tr₁ ↔ Requested sampleLegs false tr₁)) := by
  obtain ⟨⟨tr, t⟩, hrun⟩ := Option.isSome_iff_exists.mp cancelInFlight_runs
  exact ⟨tr, t, hrun, CancelState.cancellation_exact_iff (Path.of_trace hrun)⟩

theorem cancelTooLate_cancels : (runLegs cancelTooLate).any (fun r =>
    decide ((r.2.phase true).outcome = some .cancelled) &&
      r.1.all fun x => !(x.2.accepts 2 && (x.1.phase true).inFlight)) = true := by
  decide +kernel

/-- The cancel of a finished run stays in the set and ends a question that nobody cancelled. -/
theorem late_cancel_hits_question :
    ∃ tr t, runLegs cancelTooLate = some (tr, t) ∧ ¬ CancelledAsRequested sampleLegs true tr t := by
  obtain ⟨⟨tr, t⟩, hrun, hends⟩ := (Option.any_eq_true _ _).mp cancelTooLate_cancels
  obtain ⟨hout, hnone⟩ := (Bool.and_eq_true _ _).mp hends
  refine ⟨tr, t, hrun, fun h => ?_⟩
  obtain ⟨x, hx, hacc, hfl⟩ := h.1 (of_decide_eq_true hout)
  have hno := List.all_eq_true.mp hnone x hx
  rw [show x.2.accepts 2 = true from hacc, hfl] at hno
  cases hno

end AiTrader.Session
