import AiTrader.Library.Transition
import Mathlib.Algebra.BigOperators.Group.Finset.Piecewise
import Mathlib.Algebra.Order.BigOperators.Group.Finset
import Mathlib.Data.Fintype.Basic

/-! # Exporting the work counter

`ServiceMetrics::refresh` (`src/service-metrics/src/lib.rs`) folds the heartbeat's count of work
into a monotonic counter.  Any number of refreshes overlap, and beats come in between; each of the
three atomic operations of a refresh is one step: the load of the count, the `fetch_update` that
raises the watermark, and the `inc_by` of the counter.  The counts are natural numbers; the
source's wrap at `2 ^ 64` beats.

* `Accounted`: the counter, with what the refreshes in flight still owe it, is the watermark.
* `work_counted_once`: in every interleaving the counter stays within the count of work, agrees
  with the watermark where nothing is owed, and catches up with one refresh. -/

namespace AiTrader.ServiceMetrics

open Transition

/-- Where a refresh stands. -/
inductive RefreshPhase where
  | idle
  /-- it has loaded the count -/
  | loaded (observed : ℕ)
  /-- it has raised the watermark from `exported` and owes the counter the difference -/
  | raised (observed exported : ℕ)
deriving DecidableEq, Repr

/-- The atomics that a refresh touches, and the refreshes of the callers `ω`. -/
structure MetricsState (ω : Type*) where
  workCount : ℕ := 0
  exportedWork : ℕ := 0
  workTotal : ℕ := 0
  phase : ω → RefreshPhase := fun _ => .idle

inductive Operation (ω : Type*) where
  | beat
  | load (i : ω)
  | fetchUpdate (i : ω)
  | incBy (i : ω)
deriving DecidableEq, Repr

namespace MetricsState

section
variable {ω : Type*} [DecidableEq ω]

/-- The refresh of `i` moves on. -/
def goto (s : MetricsState ω) (i : ω) (p : RefreshPhase) : MetricsState ω :=
  { s with phase := Function.update s.phase i p }

/-- One atomic operation.  An `Err` of `fetch_update` ends the refresh. -/
def step (s : MetricsState ω) : Operation ω → Option (MetricsState ω)
  | .beat => some { s with workCount := s.workCount + 1 }
  | .load i =>
      match s.phase i with
      | .idle => some (s.goto i (.loaded s.workCount))
      | _ => none
  | .fetchUpdate i =>
      match s.phase i with
      | .loaded observed =>
          if observed > s.exportedWork then
            some { s.goto i (.raised observed s.exportedWork) with exportedWork := observed }
          else some (s.goto i .idle)
      | _ => none
  | .incBy i =>
      match s.phase i with
      | .raised observed exported =>
          some { s.goto i .idle with workTotal := s.workTotal + (observed - exported) }
      | _ => none

/-- `refresh`, with nothing in between. -/
def refresh (s : MetricsState ω) (i : ω) : Option (MetricsState ω) := do
  let s₁ ← s.step (.load i)
  let s₂ ← s₁.step (.fetchUpdate i)
  match s₂.phase i with
  | .raised _ _ => s₂.step (.incBy i)
  | _ => some s₂

end

end MetricsState

/-- What a refresh in flight still owes the counter. -/
def RefreshPhase.owed : RefreshPhase → ℕ
  | .raised observed exported => observed - exported
  | _ => 0

@[simp] theorem RefreshPhase.owed_idle : RefreshPhase.idle.owed = 0 := rfl

@[simp] theorem RefreshPhase.owed_loaded (observed : ℕ) : (RefreshPhase.loaded observed).owed = 0 :=
  rfl

@[simp] theorem RefreshPhase.owed_raised (observed exported : ℕ) :
    (RefreshPhase.raised observed exported).owed = observed - exported :=
  rfl

/-- The refresh is between its second and its third operation. -/
def RefreshPhase.isRaised : RefreshPhase → Bool
  | .raised _ _ => true
  | _ => false

/-- The beats of a run. -/
def beats {ω : Type*} (tr : List (MetricsState ω × Operation ω)) : ℕ :=
  tr.countP fun x => match x.2 with
    | .beat => true
    | _ => false

section
variable {ω : Type*} [Fintype ω] {s s' : MetricsState ω} {tr : List (MetricsState ω × Operation ω)}
  {i : ω} {p : RefreshPhase}

/-! ### The account -/

/-- What a refresh knows is old but true. -/
def RefreshPhase.Sound (workCount : ℕ) : RefreshPhase → Prop
  | .idle => True
  | .loaded observed => observed ≤ workCount
  | .raised observed exported => exported < observed

/-- The counter, with what is still owed to it, is the watermark. -/
structure Accounted (s : MetricsState ω) : Prop where
  balance : s.workTotal + ∑ j, (s.phase j).owed = s.exportedWork
  exported_le : s.exportedWork ≤ s.workCount
  sound : ∀ j, (s.phase j).Sound s.workCount

theorem accounted_init : Accounted ({} : MetricsState ω) where
  balance := by simp
  exported_le := le_rfl
  sound _ := trivial

theorem Accounted.total_le (hs : Accounted s) : s.workTotal ≤ s.workCount := by
  have := hs.balance
  have := hs.exported_le
  omega

theorem Accounted.total_eq (hs : Accounted s) (hnone : ∀ j, (s.phase j).isRaised = false) :
    s.workTotal = s.exportedWork := by
  have hzero : ∑ j, (s.phase j).owed = 0 := by
    refine Finset.sum_eq_zero fun j _ => ?_
    have hj := hnone j
    cases hphase : s.phase j with
    | idle => rfl
    | loaded observed => rfl
    | raised observed exported =>
        rw [hphase] at hj
        cases hj
  have := hs.balance
  omega

variable [DecidableEq ω]

theorem sum_owed_goto {q : RefreshPhase} (hphase : s.phase i = q) (p : RefreshPhase) :
    (∑ j, ((s.goto i p).phase j).owed) + q.owed = (∑ j, (s.phase j).owed) + p.owed := by
  have hupdate : (fun j => ((s.goto i p).phase j).owed) =
      Function.update (fun j => (s.phase j).owed) i p.owed := by
    funext j
    by_cases hj : j = i
    · subst hj
      simp [MetricsState.goto]
    · simp [MetricsState.goto, hj]
  have hrest := Finset.add_sum_erase Finset.univ (fun j => (s.phase j).owed) (Finset.mem_univ i)
  rw [hupdate, Finset.sum_update_of_mem (Finset.mem_univ i), Finset.sdiff_singleton_eq_erase,
    ← hphase]
  omega

omit [Fintype ω] in
theorem sound_goto (h : ∀ j, (s.phase j).Sound s.workCount) (hp : p.Sound s.workCount) (j : ω) :
    ((s.goto i p).phase j).Sound s.workCount := by
  by_cases hj : j = i
  · subst hj
    simpa [MetricsState.goto] using hp
  · simpa [MetricsState.goto, hj] using h j

omit [Fintype ω] in
theorem step_cases {op : Operation ω} (h : s.step op = some s') :
    (op = .beat ∧ s' = { s with workCount := s.workCount + 1 }) ∨
    (∃ i, op = .load i ∧ s.phase i = .idle ∧ s' = s.goto i (.loaded s.workCount)) ∨
    (∃ i observed, op = .fetchUpdate i ∧ s.phase i = .loaded observed ∧
      s.exportedWork < observed ∧
        s' = { s.goto i (.raised observed s.exportedWork) with exportedWork := observed }) ∨
    (∃ i observed, op = .fetchUpdate i ∧ s.phase i = .loaded observed ∧
      observed ≤ s.exportedWork ∧ s' = s.goto i .idle) ∨
    ∃ i observed exported, op = .incBy i ∧ s.phase i = .raised observed exported ∧
      s' = { s.goto i .idle with workTotal := s.workTotal + (observed - exported) } := by
  cases op with
  | beat => exact .inl ⟨rfl, (Option.some.inj h).symm⟩
  | load i =>
      simp only [MetricsState.step] at h
      split at h
      · rename_i hphase
        exact .inr (.inl ⟨i, rfl, hphase, (Option.some.inj h).symm⟩)
      · cases h
  | fetchUpdate i =>
      simp only [MetricsState.step] at h
      split at h
      · rename_i observed hphase
        split at h
        · rename_i hgt
          exact .inr (.inr (.inl ⟨i, observed, rfl, hphase, hgt, (Option.some.inj h).symm⟩))
        · rename_i hle
          exact .inr (.inr (.inr (.inl
            ⟨i, observed, rfl, hphase, not_lt.mp hle, (Option.some.inj h).symm⟩)))
      · cases h
  | incBy i =>
      simp only [MetricsState.step] at h
      split at h
      · rename_i observed exported hphase
        exact .inr (.inr (.inr (.inr
          ⟨i, observed, exported, rfl, hphase, (Option.some.inj h).symm⟩)))
      · cases h

theorem Accounted.step {op : Operation ω} (hs : Accounted s) (h : s.step op = some s') :
    Accounted s' := by
  obtain ⟨hbalance, hle, hsound⟩ := hs
  obtain ⟨-, rfl⟩ | ⟨i, -, hphase, rfl⟩ | ⟨i, observed, -, hphase, hlt, rfl⟩ |
    ⟨i, observed, -, hphase, -, rfl⟩ | ⟨i, observed, exported, -, hphase, rfl⟩ := step_cases h
  · refine ⟨hbalance, Nat.le_succ_of_le hle, fun j => ?_⟩
    have hj := hsound j
    cases hphase : s.phase j with
    | idle => trivial
    | loaded observed =>
        rw [hphase] at hj
        exact Nat.le_succ_of_le hj
    | raised observed exported =>
        rw [hphase] at hj
        exact hj
  · have hsum := sum_owed_goto hphase (.loaded s.workCount)
    simp only [RefreshPhase.owed_idle, RefreshPhase.owed_loaded] at hsum
    refine ⟨?_, hle, sound_goto hsound le_rfl⟩
    show s.workTotal + ∑ j, ((s.goto i _).phase j).owed = s.exportedWork
    omega
  · have hsum := sum_owed_goto hphase (.raised observed s.exportedWork)
    have hi := hsound i
    rw [hphase] at hi
    simp only [RefreshPhase.owed_loaded, RefreshPhase.owed_raised] at hsum
    refine ⟨?_, hi, sound_goto hsound hlt⟩
    show s.workTotal + ∑ j, ((s.goto i _).phase j).owed = observed
    omega
  · have hsum := sum_owed_goto hphase .idle
    simp only [RefreshPhase.owed_idle, RefreshPhase.owed_loaded] at hsum
    refine ⟨?_, hle, sound_goto hsound trivial⟩
    show s.workTotal + ∑ j, ((s.goto i _).phase j).owed = s.exportedWork
    omega
  · have hsum := sum_owed_goto hphase .idle
    simp only [RefreshPhase.owed_idle, RefreshPhase.owed_raised] at hsum
    refine ⟨?_, hle, sound_goto hsound trivial⟩
    show s.workTotal + (observed - exported) + ∑ j, ((s.goto i _).phase j).owed = s.exportedWork
    omega

omit [Fintype ω] in
theorem step_workCount {op : Operation ω} (h : s.step op = some s') :
    s'.workCount = s.workCount + beats [(s, op)] := by
  obtain ⟨rfl, rfl⟩ | ⟨i, rfl, -, rfl⟩ | ⟨i, observed, rfl, -, -, rfl⟩ |
    ⟨i, observed, rfl, -, -, rfl⟩ | ⟨i, observed, exported, rfl, -, rfl⟩ := step_cases h <;> rfl

/-- Every run keeps the account, and the count of work is the number of beats. -/
theorem Accounted.path (h : Path MetricsState.step {} tr s) :
    Accounted s ∧ s.workCount = beats tr := by
  induction h with
  | nil => exact ⟨accounted_init, rfl⟩
  | snoc _ hstep ih =>
      refine ⟨ih.1.step hstep, ?_⟩
      rw [step_workCount hstep, ih.2, beats, beats, beats, List.countP_append]

/-! ### One more refresh -/

/-- A refresh on its own brings the counter up to the count. -/
theorem Accounted.refresh (hs : Accounted s) (hidle : ∀ j, s.phase j = .idle) (i : ω) :
    ∃ t, s.refresh i = some t ∧ t.workTotal = s.workCount := by
  have htotal := hs.total_eq fun j => by rw [hidle j]; rfl
  have hle := hs.exported_le
  by_cases hlt : s.exportedWork < s.workCount
  · refine ⟨{ ((s.goto i (.loaded s.workCount)).goto i
      (.raised s.workCount s.exportedWork)).goto i .idle with
        exportedWork := s.workCount
        workTotal := s.workTotal + (s.workCount - s.exportedWork) }, ?_, ?_⟩
    · simp [MetricsState.refresh, MetricsState.step, MetricsState.goto, hidle i, hlt]
    · show s.workTotal + (s.workCount - s.exportedWork) = s.workCount
      omega
  · refine ⟨(s.goto i (.loaded s.workCount)).goto i .idle, ?_, ?_⟩
    · simp [MetricsState.refresh, MetricsState.step, MetricsState.goto, hidle i, hlt]
    · show s.workTotal = s.workCount
      omega

/-- **Work is counted once.**  However refreshes and beats interleave, the counter never passes the
number of beats, it is the watermark whenever no refresh is between its second and third operation,
what is subtracted is never the larger number, and once all is quiet one more refresh makes the
counter the number of beats. -/
theorem work_counted_once (h : Path MetricsState.step ({} : MetricsState ω) tr s) :
    s.workTotal ≤ s.workCount ∧
      ((∀ j, (s.phase j).isRaised = false) → s.workTotal = s.exportedWork) ∧
      (∀ j observed exported, s.phase j = .raised observed exported → exported ≤ observed) ∧
      ((∀ j, s.phase j = .idle) →
        ∀ i, ∃ t, s.refresh i = some t ∧ t.workTotal = beats tr) := by
  obtain ⟨hs, hcount⟩ := Accounted.path h
  refine ⟨hs.total_le, hs.total_eq, fun j observed exported hj => ?_, fun hidle i => ?_⟩
  · have hsound := hs.sound j
    rw [hj] at hsound
    exact le_of_lt hsound
  · rw [← hcount]
    exact hs.refresh hidle i

end

/-! ### Two overlapping refreshes -/

/-- The slower of two refreshes has an old reading and does nothing. -/
def overlapping : List (Operation (Fin 2)) :=
  [.beat, .load 0, .beat, .load 1, .fetchUpdate 1, .fetchUpdate 0, .incBy 1, .beat]

theorem work_counted_once_overlapping : ∃ tr s,
    trace MetricsState.step ({} : MetricsState (Fin 2)) overlapping = some (tr, s) ∧
      s.workTotal = 2 ∧ s.workCount = 3 ∧
      ∀ i, ∃ t, s.refresh i = some t ∧ t.workTotal = beats tr := by
  refine ⟨_, _, rfl, rfl, rfl, ?_⟩
  have hpath := Path.of_trace (show trace MetricsState.step {} overlapping = some (_, _) from rfl)
  exact (work_counted_once hpath).2.2.2 (by decide)

end AiTrader.ServiceMetrics
