import AiTrader.Library.Transition
import AiTrader.Watch.Server
import Mathlib.Data.Rat.Defs

/-! # Watcher tasks and the shared registry

Each accepted registration replaces the thread's entry in the registry and spawns a task.
The task loops: sleep, check the registry, load the latest candle, decide, and then either
remove the thread's entry and post the resume, or post a heartbeat.  Every `await` is a point
where other tasks and registrations interleave, so each of these is a step of its own.

The registry holds watchers by thread; an entry here also carries the number of the
registration that made it (`Entry.reg`), which the code has no access to: a task recognises
itself by thread, price level and symbol only (`stillActive`).

`Event` is the history of a run: what was registered, what each removal took out, and what was
posted. -/

namespace AiTrader.Watch

open Text

/-- Where a watcher's task stands between two awaits. -/
inductive Phase where
  | asleep
  | checked
  | firing (c : Candle) (t : WatcherTrigger)
  | removed (c : Candle) (t : WatcherTrigger)
  | due (c : Candle)
  | pulsing (c : Candle)
  | refused
  | done
deriving DecidableEq

/-- A spawned task with its local variables. -/
structure Task where
  watcher : Watcher
  avgVolume : F64
  phase : Phase
  heartbeatSeq : ℕ
  lastHeartbeat : ℚ

/-- A registry entry and the number of the registration that made it. -/
structure Entry where
  reg : ℕ
  watcher : Watcher
deriving DecidableEq

inductive Event where
  | registered (reg : ℕ) (w : Watcher)
  | removed (reg : ℕ) (threadId : String) (entry : Option Entry)
  | resumed (reg : ℕ) (threadId : String) (c : Candle) (t : WatcherTrigger)
  | heartbeat (reg : ℕ) (threadId : String) (seq : ℕ)
  | heartbeatLost (reg : ℕ)
deriving DecidableEq

/-- The registry, the tasks by registration number, and the history. -/
structure WatchState where
  registry : String → Option Entry
  tasks : List Task
  log : List Event

/-- A server that has just started. -/
def WatchState.init : WatchState := ⟨fun _ => none, [], []⟩

/-- What `post_resume` returns for a heartbeat. -/
inductive PostAnswer where
  | accepted
  | refused
  | failed
deriving DecidableEq

/-- One step of the environment or of a task. -/
inductive WatchAct where
  | register (q : WatchConditionRequest) (latest : LatestClose) (avgVolume : F64) (now : ℚ)
  | check (i : ℕ)
  | load (i : ℕ) (latest : Option Candle) (now : ℚ)
  | remove (i : ℕ)
  | resume (i : ℕ)
  | pulse (i : ℕ)
  | answer (i : ℕ) (ans : PostAnswer) (now : ℚ)
  | drop (i : ℕ)

namespace WatchState

/-- Replace task `i` and extend the history. -/
def advance (s : WatchState) (i : ℕ) (t : Task) (evs : List Event) : WatchState :=
  { s with tasks := s.tasks.set i t, log := s.log ++ evs }

/-- `map.remove(thread_id)`. -/
def erase (s : WatchState) (threadId : String) : WatchState :=
  { s with registry := fun th => if th = threadId then none else s.registry th }

/-- `map.insert(thread_id, watcher)` and the spawned task. -/
def enrol (s : WatchState) (w : Watcher) (avgVolume : F64) (now : ℚ) : WatchState where
  registry := fun th => if th = w.threadId then some ⟨s.tasks.length, w⟩ else s.registry th
  tasks := s.tasks ++ [⟨w, avgVolume, .asleep, 0, now⟩]
  log := s.log ++ [.registered s.tasks.length w]

/-- The registry check of a task: same thread, same level, same symbol. -/
def stillActive (s : WatchState) (w : Watcher) : Bool :=
  match s.registry w.threadId with
  | some e => F64.eq e.watcher.priceLevel w.priceLevel && e.watcher.symbol == w.symbol
  | none => false

end WatchState

/-- The heartbeat rule: enabled, below the cap and past the cadence. -/
def Task.heartbeatDue (t : Task) (now : ℚ) : Bool :=
  (t.watcher.heartbeatEnabled && decide (0 < t.watcher.heartbeatMax) &&
    F64.lt (.fin 0) t.watcher.heartbeatCadenceSecs) &&
  decide (t.heartbeatSeq < t.watcher.heartbeatMax) &&
  F64.le t.watcher.heartbeatCadenceSecs (.fin (now - t.lastHeartbeat))

section machine
variable (C : Casing) (fmt : F64 → String) (mul : F64 → F64 → F64)

/-- The decision on a loaded candle. -/
def Task.afterLoad (t : Task) (latest : Option Candle) (now : ℚ) : Phase :=
  match latest with
  | none => .asleep
  | some c =>
      match t.watcher.triggered mul t.avgVolume c with
      | some k => .firing c k
      | none => if t.heartbeatDue now then .due c else .asleep

/-- One step.  `none` when the step does not fit the task's phase or the request is refused. -/
def watchStep (s : WatchState) : WatchAct → Option WatchState
  | .register q latest avg now =>
      match watchCondition C fmt q latest with
      | .ok w => some (s.enrol w avg now)
      | .error _ => none
  | .check i => do
      let t ← s.tasks[i]?
      match t.phase with
      | .asleep =>
          some (s.advance i
            { t with phase := if s.stillActive t.watcher then .checked else .done } [])
      | _ => none
  | .load i latest now => do
      let t ← s.tasks[i]?
      match t.phase with
      | .checked => some (s.advance i { t with phase := t.afterLoad mul latest now } [])
      | _ => none
  | .remove i => do
      let t ← s.tasks[i]?
      match t.phase with
      | .firing c k =>
          some ((s.erase t.watcher.threadId).advance i { t with phase := .removed c k }
            [.removed i t.watcher.threadId (s.registry t.watcher.threadId)])
      | _ => none
  | .resume i => do
      let t ← s.tasks[i]?
      match t.phase with
      | .removed c k =>
          some (s.advance i { t with phase := .done } [.resumed i t.watcher.threadId c k])
      | _ => none
  | .pulse i => do
      let t ← s.tasks[i]?
      match t.phase with
      | .due c =>
          some (s.advance i { t with phase := .pulsing c }
            [.heartbeat i t.watcher.threadId (t.heartbeatSeq + 1)])
      | _ => none
  | .answer i ans now => do
      let t ← s.tasks[i]?
      match t.phase with
      | .pulsing _ =>
          match ans with
          | .accepted =>
              some (s.advance i { t with
                phase := .asleep, heartbeatSeq := t.heartbeatSeq + 1, lastHeartbeat := now } [])
          | .refused => some (s.advance i { t with phase := .refused } [])
          | .failed =>
              some (s.advance i { t with phase := .asleep, lastHeartbeat := now }
                [.heartbeatLost i])
      | _ => none
  | .drop i => do
      let t ← s.tasks[i]?
      match t.phase with
      | .refused =>
          some ((s.erase t.watcher.threadId).advance i { t with phase := .done }
            [.removed i t.watcher.threadId (s.registry t.watcher.threadId)])
      | _ => none

/-- What one step does, guards included. -/
inductive Move (s : WatchState) : WatchAct → WatchState → Prop
  | register {q latest avg now w} : watchCondition C fmt q latest = .ok w →
      Move s (.register q latest avg now) (s.enrol w avg now)
  | check {i t} : s.tasks[i]? = some t → t.phase = .asleep →
      Move s (.check i) (s.advance i
        { t with phase := if s.stillActive t.watcher then .checked else .done } [])
  | load {i t latest now} : s.tasks[i]? = some t → t.phase = .checked →
      Move s (.load i latest now) (s.advance i
        { t with phase := t.afterLoad mul latest now } [])
  | remove {i t c k} : s.tasks[i]? = some t → t.phase = .firing c k →
      Move s (.remove i) ((s.erase t.watcher.threadId).advance i
        { t with phase := .removed c k }
        [.removed i t.watcher.threadId (s.registry t.watcher.threadId)])
  | resume {i t c k} : s.tasks[i]? = some t → t.phase = .removed c k →
      Move s (.resume i) (s.advance i { t with phase := .done }
        [.resumed i t.watcher.threadId c k])
  | pulse {i t c} : s.tasks[i]? = some t → t.phase = .due c →
      Move s (.pulse i) (s.advance i { t with phase := .pulsing c }
        [.heartbeat i t.watcher.threadId (t.heartbeatSeq + 1)])
  | accepted {i t c now} : s.tasks[i]? = some t → t.phase = .pulsing c →
      Move s (.answer i .accepted now) (s.advance i { t with
        phase := .asleep, heartbeatSeq := t.heartbeatSeq + 1, lastHeartbeat := now } [])
  | refused {i t c now} : s.tasks[i]? = some t → t.phase = .pulsing c →
      Move s (.answer i .refused now) (s.advance i { t with phase := .refused } [])
  | failed {i t c now} : s.tasks[i]? = some t → t.phase = .pulsing c →
      Move s (.answer i .failed now) (s.advance i
        { t with phase := .asleep, lastHeartbeat := now } [.heartbeatLost i])
  | drop {i t} : s.tasks[i]? = some t → t.phase = .refused →
      Move s (.drop i) ((s.erase t.watcher.threadId).advance i { t with phase := .done }
        [.removed i t.watcher.threadId (s.registry t.watcher.threadId)])

end machine

variable {C : Casing} {fmt : F64 → String} {mul : F64 → F64 → F64} {s s' : WatchState}
  {a : WatchAct}

theorem watchStep_move (h : watchStep C fmt mul s a = some s') : Move C fmt mul s a s' := by
  cases a with
  | register q latest avg now =>
      simp only [watchStep] at h
      split at h
      · rename_i hw
        cases h
        exact .register hw
      · cases h
  | check i =>
      obtain ⟨t, ht, h⟩ := Option.bind_eq_some_iff.mp h
      split at h
      · rename_i hp
        cases h
        exact .check ht hp
      · cases h
  | load i latest now =>
      obtain ⟨t, ht, h⟩ := Option.bind_eq_some_iff.mp h
      split at h
      · rename_i hp
        cases h
        exact .load ht hp
      · cases h
  | remove i =>
      obtain ⟨t, ht, h⟩ := Option.bind_eq_some_iff.mp h
      split at h
      · rename_i hp
        cases h
        exact .remove ht hp
      · cases h
  | resume i =>
      obtain ⟨t, ht, h⟩ := Option.bind_eq_some_iff.mp h
      split at h
      · rename_i hp
        cases h
        exact .resume ht hp
      · cases h
  | pulse i =>
      obtain ⟨t, ht, h⟩ := Option.bind_eq_some_iff.mp h
      split at h
      · rename_i hp
        cases h
        exact .pulse ht hp
      · cases h
  | answer i ans now =>
      obtain ⟨t, ht, h⟩ := Option.bind_eq_some_iff.mp h
      split at h
      · rename_i hp
        cases ans with
        | accepted => cases h; exact .accepted ht hp
        | refused => cases h; exact .refused ht hp
        | failed => cases h; exact .failed ht hp
      · cases h
  | drop i =>
      obtain ⟨t, ht, h⟩ := Option.bind_eq_some_iff.mp h
      split at h
      · rename_i hp
        cases h
        exact .drop ht hp
      · cases h

/-! ### What the building blocks do to the tasks -/

namespace WatchState

variable {i j : ℕ} {t t' : Task} {evs : List Event}

theorem set_tasks (hi : s.tasks[i]? = some t) :
    (s.tasks.set i t')[j]? = if i = j then some t' else s.tasks[j]? := by
  obtain ⟨hlt, _⟩ := List.getElem?_eq_some_iff.mp hi
  simp only [List.getElem?_set, hlt, if_true]

theorem advance_tasks (hi : s.tasks[i]? = some t) :
    (s.advance i t' evs).tasks[j]? = if i = j then some t' else s.tasks[j]? :=
  set_tasks hi

theorem enrol_tasks {w : Watcher} {avg : F64} {now : ℚ}
    (h : (s.enrol w avg now).tasks[j]? = some t) :
    s.tasks[j]? = some t ∨ j = s.tasks.length ∧ t = ⟨w, avg, .asleep, 0, now⟩ := by
  simp only [enrol, List.getElem?_append, List.getElem?_singleton] at h
  split at h
  · exact .inl h
  · split at h
    · exact .inr ⟨by omega, (Option.some.inj h).symm⟩
    · cases h

theorem enrol_tasks_of_old {w : Watcher} {avg : F64} {now : ℚ} (h : s.tasks[j]? = some t) :
    (s.enrol w avg now).tasks[j]? = some t := by
  obtain ⟨hlt, _⟩ := List.getElem?_eq_some_iff.mp h
  rw [enrol, List.getElem?_append_left hlt, h]

end WatchState

end AiTrader.Watch
