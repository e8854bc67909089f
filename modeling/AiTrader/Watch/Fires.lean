import AiTrader.Watch.Registry
import AiTrader.Watch.Tool

/-! # Each watch fires on its own condition

`fires_properly`: in every run in which a task only removes a registry entry while its own
registration is still the latest one of its thread, every posted trigger follows the removal
of the task's own entry on a candle that met its own condition, no registration is resumed
twice, and no entry leaves the registry but by its own task or a newer registration.

The invariant is `Tracks`: as long as a task of the latest registration has not removed its
entry, the registry holds exactly that entry.  Without the guard it fails, because a task that
passed the check may remove what a newer registration has put there meanwhile
(`superseded_task_takes_newer_entry`). -/

namespace AiTrader.Watch

open Text Transition

variable {C : Casing} {fmt : F64 → String} {mul : F64 → F64 → F64} {s s' : WatchState}
  {a : WatchAct} {i j : ℕ} {t : Task}

/-! ### The property -/

/-- The registry that the recorded registrations and removals explain. -/
def replayEvent (m : String → Option Entry) : Event → String → Option Entry
  | .registered n w => fun th => if th = w.threadId then some ⟨n, w⟩ else m th
  | .removed _ threadId _ => fun th => if th = threadId then none else m th
  | _ => m

def replay (log : List Event) : String → Option Entry := log.foldl replayEvent (fun _ => none)

/-- A target or invalidation resume of registration `i`. -/
def isResumeOf (i : ℕ) : Event → Bool
  | .resumed j _ _ _ => decide (j = i)
  | _ => false

/-- Each watch fires at most once, on its own condition, and none is lost. -/
structure FiresProperly (mul : F64 → F64 → F64) (s : WatchState) : Prop where
  own : ∀ i th c k, Event.resumed i th c k ∈ s.log → ∃ t, s.tasks[i]? = some t ∧
    t.watcher.threadId = th ∧ t.watcher.triggered mul t.avgVolume c = some k ∧
    Event.removed i th (some ⟨i, t.watcher⟩) ∈ s.log
  once : ∀ i, s.log.countP (isResumeOf i) ≤ 1
  kept : ∀ i th e, Event.removed i th (some e) ∈ s.log → e.reg = i
  explained : s.registry = replay s.log

/-! ### The guard -/

/-- Registration `i` is the latest one of the thread. -/
def Latest (s : WatchState) (i : ℕ) (threadId : String) : Prop :=
  ∀ j t, s.tasks[j]? = some t → t.watcher.threadId = threadId → j ≤ i

/-- A task removes a registry entry only while its registration is the thread's latest. -/
def Unsuperseded (s : WatchState) : WatchAct → Prop
  | .remove i | .drop i => ∀ t, s.tasks[i]? = some t → Latest s i t.watcher.threadId
  | _ => True

instance (s : WatchState) (i : ℕ) (threadId : String) : Decidable (Latest s i threadId) :=
  decidable_of_iff
    (∀ j < s.tasks.length, ∀ t ∈ s.tasks[j]?, t.watcher.threadId = threadId → j ≤ i)
    ⟨fun h j t ht => h j (List.getElem?_eq_some_iff.mp ht).1 t ht, fun h j _ t ht => h j t ht⟩

instance (s : WatchState) (a : WatchAct) : Decidable (Unsuperseded s a) :=
  match a with
  | .remove i =>
      inferInstanceAs (Decidable (∀ t ∈ s.tasks[i]?, Latest s i t.watcher.threadId))
  | .drop i => inferInstanceAs (Decidable (∀ t ∈ s.tasks[i]?, Latest s i t.watcher.threadId))
  | .register .. | .check _ | .load .. | .resume _ | .pulse _ | .answer .. =>
      inferInstanceAs (Decidable True)

/-! ### The registry follows the latest registration -/

/-- The task has not taken its entry out, and has not stopped. -/
def Phase.holding : Phase → Bool
  | .removed .. | .done => false
  | _ => true

/-- What the registry holds. -/
structure Tracks (s : WatchState) : Prop where
  entry : ∀ th e, s.registry th = some e → ∃ t, s.tasks[e.reg]? = some t ∧
    t.watcher = e.watcher ∧ t.watcher.threadId = th ∧ Latest s e.reg th
  holds : ∀ i t, s.tasks[i]? = some t → Latest s i t.watcher.threadId →
    t.phase.holding = true → s.registry t.watcher.threadId = some ⟨i, t.watcher⟩

section
variable {t' : Task} {evs : List Event} {th : String}

/-- Replacing a task by one with the same watcher changes no thread's latest registration. -/
theorem latest_advance (evs : List Event) (hi : s.tasks[i]? = some t)
    (hw : t'.watcher = t.watcher) :
    Latest (s.advance i t' evs) j th ↔ Latest s j th := by
  constructor
  · intro h n u hu hth
    by_cases hn : i = n
    · subst hn
      rw [hi] at hu
      cases hu
      exact h i t' (by rw [WatchState.advance_tasks hi, if_pos rfl]) (hw ▸ hth)
    · exact h n u (by rw [WatchState.advance_tasks hi, if_neg hn]; exact hu) hth
  · intro h n u hu hth
    rw [WatchState.advance_tasks hi] at hu
    split at hu
    · rename_i hn
      cases hu
      exact h n t (hn ▸ hi) (hw ▸ hth)
    · exact h n u hu hth

/-- A step of a task that touches no entry and does not restart a stopped task. -/
theorem Tracks.advance (h : Tracks s) (hi : s.tasks[i]? = some t) (hw : t'.watcher = t.watcher)
    (hp : t'.phase.holding = true → t.phase.holding = true) : Tracks (s.advance i t' evs) where
  entry th e he := by
    obtain ⟨u, hu, huw, hth, hl⟩ := h.entry th e he
    have hl' := (latest_advance evs hi hw).mpr hl
    by_cases hn : i = e.reg
    · rw [← hn, hi] at hu
      cases hu
      exact ⟨t', by rw [WatchState.advance_tasks hi, if_pos hn], hw.trans huw, hw ▸ hth, hl'⟩
    · exact ⟨u, by rw [WatchState.advance_tasks hi, if_neg hn]; exact hu, huw, hth, hl'⟩
  holds n u hu hl hold := by
    have hl' := (latest_advance evs hi hw).mp hl
    rw [WatchState.advance_tasks hi] at hu
    split at hu
    · rename_i hn
      cases hu
      subst hn
      have hreg := h.holds i t hi (hw ▸ hl') (hp hold)
      rw [hw]
      exact hreg
    · exact h.holds n u hu hl' hold

/-- A task of the latest registration removes its own entry and nothing else. -/
theorem Tracks.erase (h : Tracks s) (hi : s.tasks[i]? = some t) (hw : t'.watcher = t.watcher)
    (hl : Latest s i t.watcher.threadId) (hp : t'.phase.holding = false) :
    Tracks ((s.erase t.watcher.threadId).advance i t' evs) where
  entry th e he := by
    simp only [WatchState.advance, WatchState.erase] at he
    split at he
    · cases he
    · rename_i hth
      obtain ⟨u, hu, huw, hut, hlu⟩ := h.entry th e he
      have hl' : Latest ((s.erase t.watcher.threadId).advance i t' evs) e.reg th :=
        (latest_advance (s := s.erase _) evs hi hw).mpr hlu
      have hn : i ≠ e.reg := by
        intro hn
        rw [← hn, hi] at hu
        cases hu
        exact hth hut.symm
      refine ⟨u, ?_, huw, hut, hl'⟩
      rw [WatchState.advance_tasks (s := s.erase _) hi, if_neg hn]
      exact hu
  holds n u hu hlu hold := by
    have hlu' : Latest s n u.watcher.threadId :=
      (latest_advance (s := s.erase _) evs hi hw).mp hlu
    rw [WatchState.advance_tasks (s := s.erase _) hi] at hu
    split at hu
    · cases hu
      rw [hp] at hold
      cases hold
    · rename_i hn
      have hne : u.watcher.threadId ≠ t.watcher.threadId := by
        intro heq
        have h1 : i ≤ n := hlu' i t hi heq.symm
        have h2 : n ≤ i := hl n u hu heq
        exact hn (by omega)
      have hreg := h.holds n u hu hlu' hold
      simp only [WatchState.advance, WatchState.erase, hne, if_false]
      exact hreg

end

theorem Tracks.enrol (h : Tracks s) (w : Watcher) (avg : F64) (now : ℚ) :
    Tracks (s.enrol w avg now) := by
  have hnew : (s.enrol w avg now).tasks[s.tasks.length]? =
      some ⟨w, avg, .asleep, 0, now⟩ := by
    simp [WatchState.enrol]
  have hlt : ∀ {n u}, s.tasks[n]? = some u → n < s.tasks.length := by
    intro n u hu
    exact (List.getElem?_eq_some_iff.mp hu).1
  -- another thread's latest registration stays the latest
  have hother : ∀ {n th}, th ≠ w.threadId → Latest s n th → Latest (s.enrol w avg now) n th := by
    intro n th hth hl m u hu hum
    rcases WatchState.enrol_tasks hu with hu | ⟨_, rfl⟩
    · exact hl m u hu hum
    · exact absurd hum.symm hth
  have hback : ∀ {n th}, Latest (s.enrol w avg now) n th → Latest s n th :=
    fun hl m u hu hum => hl m u (WatchState.enrol_tasks_of_old hu) hum
  constructor
  · intro th e he
    simp only [WatchState.enrol] at he
    split at he
    · rename_i hth
      cases he
      refine ⟨_, hnew, rfl, hth.symm, ?_⟩
      intro m u hu _
      rcases WatchState.enrol_tasks hu with hu | ⟨rfl, _⟩
      · exact (hlt hu).le
      · exact le_rfl
    · rename_i hth
      obtain ⟨u, hu, huw, hut, hl⟩ := h.entry th e he
      exact ⟨u, WatchState.enrol_tasks_of_old hu, huw, hut, hother hth hl⟩
  · intro n u hu hl hold
    rcases WatchState.enrol_tasks hu with hu | ⟨rfl, rfl⟩
    · have hne : u.watcher.threadId ≠ w.threadId := by
        intro heq
        have hle := hl s.tasks.length _ hnew heq.symm
        have hn := hlt hu
        omega
      have hreg := h.holds n u hu (hback hl) hold
      simp only [WatchState.enrol, hne, if_false]
      exact hreg
    · simp [WatchState.enrol]

/-- **Step lemma.** Every guarded step keeps the registry on the latest registrations. -/
theorem Tracks.step (h : Tracks s) (hok : Unsuperseded s a) (hm : Move C fmt mul s a s') :
    Tracks s' := by
  cases hm with
  | register hw => exact h.enrol _ _ _
  | check hi hp => exact h.advance hi rfl (fun _ => by rw [hp]; rfl)
  | load hi hp => exact h.advance hi rfl (fun _ => by rw [hp]; rfl)
  | remove hi hp => exact h.erase hi rfl (hok _ hi) rfl
  | resume hi hp => exact h.advance hi rfl (fun hd => by cases hd)
  | pulse hi hp => exact h.advance hi rfl (fun _ => by rw [hp]; rfl)
  | accepted hi hp => exact h.advance hi rfl (fun _ => by rw [hp]; rfl)
  | refused hi hp => exact h.advance hi rfl (fun _ => by rw [hp]; rfl)
  | failed hi hp => exact h.advance hi rfl (fun _ => by rw [hp]; rfl)
  | drop hi hp => exact h.erase hi rfl (hok _ hi) rfl

/-! ### The history -/

/-- The removal by which registration `i` took its own entry out. -/
def ownRemoval (i : ℕ) (w : Watcher) : Event := .removed i w.threadId (some ⟨i, w⟩)

/-- What the history says about the tasks. -/
structure Recorded (mul : F64 → F64 → F64) (s : WatchState) : Prop where
  firing : ∀ (i : ℕ) (t : Task) c k, s.tasks[i]? = some t → t.phase = .firing c k →
    t.watcher.triggered mul t.avgVolume c = some k
  removed : ∀ (i : ℕ) (t : Task) c k, s.tasks[i]? = some t → t.phase = .removed c k →
    t.watcher.triggered mul t.avgVolume c = some k ∧ ownRemoval i t.watcher ∈ s.log
  own : ∀ i th c k, Event.resumed i th c k ∈ s.log → ∃ t, s.tasks[i]? = some t ∧
    t.watcher.threadId = th ∧ t.watcher.triggered mul t.avgVolume c = some k ∧
    ownRemoval i t.watcher ∈ s.log
  once : ∀ i, s.log.countP (isResumeOf i) = 0 ∨
    s.log.countP (isResumeOf i) = 1 ∧ ∃ t, s.tasks[i]? = some t ∧ t.phase = .done
  kept : ∀ i th e, Event.removed i th (some e) ∈ s.log → e.reg = i
  explained : s.registry = replay s.log

theorem Recorded.firesProperly (h : Recorded mul s) : FiresProperly mul s where
  own i th c k hmem := by
    obtain ⟨t, ht, hth, htrig, hrem⟩ := h.own i th c k hmem
    exact ⟨t, ht, hth, htrig, hth ▸ hrem⟩
  once i := by
    rcases h.once i with h0 | ⟨h1, _⟩
    · omega
    · omega
  kept := h.kept
  explained := h.explained

/-- What a step of task `i` must satisfy for the history to stay truthful: `t'` is the task
after it, `evs` what it records. -/
structure Truthful (mul : F64 → F64 → F64) (s : WatchState) (i : ℕ) (t t' : Task)
    (evs : List Event) : Prop where
  watcher : t'.watcher = t.watcher
  avgVolume : t'.avgVolume = t.avgVolume
  running : t.phase ≠ .done
  firing : ∀ c k, t'.phase = .firing c k → t.watcher.triggered mul t.avgVolume c = some k
  removed : ∀ c k, t'.phase = .removed c k →
    t.watcher.triggered mul t.avgVolume c = some k ∧ ownRemoval i t.watcher ∈ s.log ++ evs
  resumed : ∀ n th c k, Event.resumed n th c k ∈ evs → n = i ∧ th = t.watcher.threadId ∧
    t.watcher.triggered mul t.avgVolume c = some k ∧ ownRemoval i t.watcher ∈ s.log
  count : ∀ n, evs.countP (isResumeOf n) = 0 ∨
    n = i ∧ evs.countP (isResumeOf n) = 1 ∧ t'.phase = .done
  kept : ∀ n th e, Event.removed n th (some e) ∈ evs → e.reg = n

theorem Truthful.once {t t' : Task} {evs : List Event} (ht : Truthful mul s i t t' evs)
    (h : Recorded mul s) (hi : s.tasks[i]? = some t)
    (htasks : ∀ n : ℕ, s'.tasks[n]? = if i = n then some t' else s.tasks[n]?) (n : ℕ) :
    (s.log ++ evs).countP (isResumeOf n) = 0 ∨
      (s.log ++ evs).countP (isResumeOf n) = 1 ∧ ∃ u, s'.tasks[n]? = some u ∧ u.phase = .done := by
  have hfresh : n = i → s.log.countP (isResumeOf n) = 0 := by
    rintro rfl
    rcases h.once n with h0 | ⟨_, u, hu, hd⟩
    · exact h0
    · rw [hi] at hu
      cases hu
      exact absurd hd ht.running
  rw [List.countP_append]
  rcases ht.count n with h0 | ⟨rfl, h1, hd⟩
  · rw [h0, Nat.add_zero]
    by_cases hn : n = i
    · exact .inl (hfresh hn)
    · rcases h.once n with hz | ⟨ho, u, hu, hd⟩
      · exact .inl hz
      · exact .inr ⟨ho, u, by rw [htasks, if_neg (Ne.symm hn), hu], hd⟩
  · rw [hfresh rfl, h1]
    exact .inr ⟨rfl, t', by rw [htasks, if_pos rfl], hd⟩

theorem Recorded.advance {t t' : Task} {evs : List Event} (h : Recorded mul s)
    (hi : s.tasks[i]? = some t) (hset : s'.tasks = s.tasks.set i t')
    (hlog : s'.log = s.log ++ evs) (hreg : s'.registry = evs.foldl replayEvent s.registry)
    (ht : Truthful mul s i t t' evs) : Recorded mul s' := by
  have htasks : ∀ n, s'.tasks[n]? = if i = n then some t' else s.tasks[n]? := by
    intro n
    rw [hset]
    exact WatchState.set_tasks hi
  -- a task named by the old history is still there, with the same watcher
  have hkeep : ∀ (n : ℕ) (u : Task), s.tasks[n]? = some u → ∃ u' : Task, s'.tasks[n]? = some u' ∧
      u'.watcher = u.watcher ∧ u'.avgVolume = u.avgVolume := by
    intro n u hu
    by_cases hn : i = n
    · subst hn
      rw [hi] at hu
      cases hu
      exact ⟨t', by rw [htasks, if_pos rfl], ht.watcher, ht.avgVolume⟩
    · exact ⟨u, by rw [htasks, if_neg hn]; exact hu, rfl, rfl⟩
  constructor
  · intro n u c k hu hp
    rw [htasks] at hu
    split at hu
    · cases hu
      rw [ht.watcher, ht.avgVolume]
      exact ht.firing c k hp
    · exact h.firing n u c k hu hp
  · intro n u c k hu hp
    rw [htasks] at hu
    split at hu
    · rename_i hn
      cases hu
      subst hn
      rw [ht.watcher, ht.avgVolume, hlog]
      exact ht.removed c k hp
    · obtain ⟨h1, h2⟩ := h.removed n u c k hu hp
      exact ⟨h1, by rw [hlog]; exact List.mem_append_left _ h2⟩
  · intro n th c k hmem
    rw [hlog] at hmem ⊢
    rcases List.mem_append.mp hmem with hold | hnew
    · obtain ⟨u, hu, hth, htrig, hrem⟩ := h.own n th c k hold
      obtain ⟨u', hu', hw, hv⟩ := hkeep n u hu
      exact ⟨u', hu', hw ▸ hth, hw ▸ hv ▸ htrig, List.mem_append_left _ (hw ▸ hrem)⟩
    · obtain ⟨rfl, hth, htrig, hrem⟩ := ht.resumed n th c k hnew
      refine ⟨t', by rw [htasks, if_pos rfl], ht.watcher ▸ hth.symm, ?_, ?_⟩
      · rw [ht.watcher, ht.avgVolume]
        exact htrig
      · rw [ht.watcher]
        exact List.mem_append_left _ hrem
  · intro n
    rw [hlog]
    exact ht.once h hi htasks n
  · intro n th e hmem
    rw [hlog] at hmem
    rcases List.mem_append.mp hmem with hold | hnew
    · exact h.kept n th e hold
    · exact ht.kept n th e hnew
  · rw [hreg, hlog, h.explained]
    exact (List.foldl_append ..).symm

theorem Recorded.enrol (h : Recorded mul s) (w : Watcher) (avg : F64) (now : ℚ) :
    Recorded mul (s.enrol w avg now) := by
  have hlog : (s.enrol w avg now).log = s.log ++ [.registered s.tasks.length w] := rfl
  have hmem : ∀ e, e ∈ (s.enrol w avg now).log → e ≠ .registered s.tasks.length w →
      e ∈ s.log := by
    intro e he hne
    rw [hlog, List.mem_append, List.mem_singleton] at he
    exact he.resolve_right hne
  constructor
  · intro n u c k hu hp
    rcases WatchState.enrol_tasks hu with hu | ⟨_, rfl⟩
    · exact h.firing n u c k hu hp
    · cases hp
  · intro n u c k hu hp
    rcases WatchState.enrol_tasks hu with hu | ⟨_, rfl⟩
    · obtain ⟨h1, h2⟩ := h.removed n u c k hu hp
      exact ⟨h1, List.mem_append_left _ h2⟩
    · cases hp
  · intro n th c k he
    obtain ⟨u, hu, hth, htrig, hrem⟩ := h.own n th c k (hmem _ he (by simp))
    exact ⟨u, WatchState.enrol_tasks_of_old hu, hth, htrig, List.mem_append_left _ hrem⟩
  · intro n
    rw [hlog, List.countP_append]
    rcases h.once n with h0 | ⟨h1, u, hu, hd⟩
    · exact .inl (by rw [h0]; rfl)
    · exact .inr ⟨by rw [h1]; rfl, u, WatchState.enrol_tasks_of_old hu, hd⟩
  · intro n th e he
    exact h.kept n th e (hmem _ he (by simp))
  · rw [hlog, replay, List.foldl_append, ← replay, ← h.explained]
    rfl

theorem Truthful.quiet {t t' : Task} {evs : List Event} (hw : t'.watcher = t.watcher)
    (hv : t'.avgVolume = t.avgVolume) (hrun : t.phase ≠ .done)
    (hfire : ∀ c k, t'.phase = .firing c k → t.watcher.triggered mul t.avgVolume c = some k)
    (hrem : ∀ c k, t'.phase ≠ .removed c k)
    (hevs : ∀ e ∈ evs, (∀ n th c k, e ≠ .resumed n th c k) ∧ ∀ n th x, e ≠ .removed n th x) :
    Truthful mul s i t t' evs where
  watcher := hw
  avgVolume := hv
  running := hrun
  firing := hfire
  removed c k hp := absurd hp (hrem c k)
  resumed n th c k he := absurd rfl ((hevs _ he).1 n th c k)
  count n := by
    refine .inl (List.countP_eq_zero.mpr (fun e he => ?_))
    cases e with
    | resumed m th c k => exact absurd rfl ((hevs _ he).1 m th c k)
    | registered m w => simp [isResumeOf]
    | removed m th x => simp [isResumeOf]
    | heartbeat m th q => simp [isResumeOf]
    | heartbeatLost m => simp [isResumeOf]
  kept n th e he := absurd rfl ((hevs _ he).2 n th _)

theorem Truthful.removal {t t' : Task} (htr : Tracks s) (hi : s.tasks[i]? = some t)
    (hl : Latest s i t.watcher.threadId) (hold : t.phase.holding = true)
    (hw : t'.watcher = t.watcher) (hv : t'.avgVolume = t.avgVolume)
    (hfire : ∀ c k, t'.phase ≠ .firing c k)
    (hrem : ∀ c k, t'.phase = .removed c k →
      t.watcher.triggered mul t.avgVolume c = some k) :
    Truthful mul s i t t'
      [.removed i t.watcher.threadId (s.registry t.watcher.threadId)] := by
  have hreg := htr.holds i t hi hl hold
  constructor
  · exact hw
  · exact hv
  · intro hd
    rw [hd] at hold
    cases hold
  · intro c k hp
    exact absurd hp (hfire c k)
  · intro c k hp
    refine ⟨hrem c k hp, List.mem_append_right _ ?_⟩
    rw [hreg, List.mem_singleton, ownRemoval]
  · intro n th c k he
    simp at he
  · intro n
    exact .inl rfl
  · intro n th e he
    rw [hreg, List.mem_singleton] at he
    cases he
    rfl

theorem afterLoad_firing {latest : Option Candle} {now : ℚ} {c : Candle} {k : WatcherTrigger}
    (h : t.afterLoad mul latest now = .firing c k) :
    t.watcher.triggered mul t.avgVolume c = some k := by
  unfold Task.afterLoad at h
  split at h
  · cases h
  · split at h
    · rename_i hk
      cases h
      exact hk
    · split at h <;> cases h

theorem afterLoad_not_removed {latest : Option Candle} {now : ℚ} {c : Candle}
    {k : WatcherTrigger} : t.afterLoad mul latest now ≠ .removed c k := by
  unfold Task.afterLoad
  split
  · simp
  · split
    · simp
    · split <;> simp

/-- **Step lemma.** Every guarded step keeps the history truthful. -/
theorem Recorded.step (h : Recorded mul s) (htr : Tracks s) (hok : Unsuperseded s a)
    (hm : Move C fmt mul s a s') : Recorded mul s' := by
  cases hm with
  | register hw => exact h.enrol _ _ _
  | @check i t hi hp =>
      have hphase : ∀ c k, (if s.stillActive t.watcher then Phase.checked else .done) ≠
          .firing c k ∧ (if s.stillActive t.watcher then Phase.checked else .done) ≠
          .removed c k := by
        intro c k
        split <;> simp
      refine h.advance hi rfl rfl rfl (.quiet rfl rfl (by rw [hp]; simp) ?_ ?_ (by simp))
      · exact fun c k hf => absurd hf (hphase c k).1
      · exact fun c k => (hphase c k).2
  | load hi hp =>
      refine h.advance hi rfl rfl rfl (.quiet rfl rfl (by rw [hp]; simp) ?_ ?_ (by simp))
      · exact fun c k hf => afterLoad_firing hf
      · exact fun c k => afterLoad_not_removed
  | @remove i t c k hi hp =>
      refine h.advance hi rfl rfl rfl
        (.removal htr hi (hok t hi) (by rw [hp]; rfl) rfl rfl (by simp) ?_)
      intro c' k' heq
      cases heq
      exact h.firing i t c k hi hp
  | @resume i t c k hi hp =>
      obtain ⟨htrig, hmem⟩ := h.removed i t c k hi hp
      refine h.advance hi rfl rfl rfl
        ⟨rfl, rfl, by rw [hp]; simp, by simp, by simp, ?_, ?_, by simp⟩
      · intro n th c' k' he
        rw [List.mem_singleton] at he
        cases he
        exact ⟨rfl, rfl, htrig, hmem⟩
      · intro n
        by_cases hn : n = i
        · exact .inr ⟨hn, by simp [isResumeOf, hn], rfl⟩
        · exact .inl (by simp [isResumeOf, Ne.symm hn])
  | pulse hi hp =>
      exact h.advance hi rfl rfl rfl
        (.quiet rfl rfl (by rw [hp]; simp) (by simp) (by simp) (by simp))
  | accepted hi hp =>
      exact h.advance hi rfl rfl rfl
        (.quiet rfl rfl (by rw [hp]; simp) (by simp) (by simp) (by simp))
  | refused hi hp =>
      exact h.advance hi rfl rfl rfl
        (.quiet rfl rfl (by rw [hp]; simp) (by simp) (by simp) (by simp))
  | failed hi hp =>
      exact h.advance hi rfl rfl rfl
        (.quiet rfl rfl (by rw [hp]; simp) (by simp) (by simp) (by simp))
  | drop hi hp =>
      exact h.advance hi rfl rfl rfl
        (.removal htr hi (hok _ hi) (by rw [hp]; rfl) rfl rfl (by simp) (by simp))

/-! ### Runs -/

theorem Tracks.init : Tracks .init where
  entry th e he := by cases he
  holds i t hi := by simp [WatchState.init] at hi

theorem Recorded.init : Recorded mul .init where
  firing i t c k hi := by simp [WatchState.init] at hi
  removed i t c k hi := by simp [WatchState.init] at hi
  own i th c k hmem := by simp [WatchState.init] at hmem
  once i := .inl rfl
  kept i th e hmem := by simp [WatchState.init] at hmem
  explained := rfl

/-- **Each watch fires on its own condition.** In every state reached by steps in which a task
removes a registry entry only while its registration is the latest of its thread. -/
theorem fires_properly (C : Casing) (fmt : F64 → String) (mul : F64 → F64 → F64)
    (s : WatchState) (h : Reaches (watchStep C fmt mul) Unsuperseded .init s) :
    FiresProperly mul s := by
  refine Recorded.firesProperly (h.invariant_of (J := Tracks) ?_ ?_ Tracks.init Recorded.init).2
  · intro x a y hx hok hs
    exact hx.step hok (watchStep_move hs)
  · intro x a y hx hrec hok hs
    exact hrec.step hx hok (watchStep_move hs)

/-- The request of the sample watch, with a level of one's choice. -/
def sampleRequest (level : F64) : WatchConditionRequest :=
  watchPayload (sampleEnv (.fin 100)) { sampleArgs with priceLevel := level }

/-- A watch renewed at `120` while its task sleeps, and renewed again once it has fired; a watch of
another thread fires meanwhile. -/
def renewedWatch : List WatchAct :=
  [.register (sampleRequest (.fin 110)) (.close (.fin 100)) (.fin 1000) 0, .check 0,
    .load 0 (some { sampleCandle with close := .fin 105 }) 5,
    .register (sampleRequest (.fin 120)) (.close (.fin 105)) (.fin 1000) 6,
    .register { sampleRequest (.fin 110) with threadId := "thread_2" } (.close (.fin 105))
      (.fin 1000) 7,
    .check 0, .check 1, .check 2, .load 1 (some { sampleCandle with close := .fin 125 }) 10,
    .load 2 (some sampleCandle) 10, .remove 1, .remove 2, .resume 2, .resume 1,
    .register (sampleRequest (.fin 110)) (.close (.fin 100)) (.fin 1000) 12, .check 3,
    .load 3 (some sampleCandle) 15, .remove 3, .resume 3]

/-- A watch that is re-armed at `120` while its task is between check and decision. -/
def rearmedWatch : List WatchAct :=
  [.register (sampleRequest (.fin 110)) (.close (.fin 100)) (.fin 1000) 0, .check 0,
    .register (sampleRequest (.fin 120)) (.close (.fin 100)) (.fin 1000) 4,
    .load 0 (some sampleCandle) 5, .remove 0]

/-- Of the registrations of a renewed watch the superseded one does not fire, the others do. -/
theorem fires_properly_renewed :
    ∃ s : WatchState, (List.range 4).map (fun i => s.log.countP (isResumeOf i)) = [0, 1, 1, 1] ∧
      FiresProperly F64.mulExact s := by
  have hrun : (runOk (watchStep Casing.ascii samplePrice F64.mulExact) Unsuperseded .init
      renewedWatch).map (fun s => (List.range 4).map fun i => s.log.countP (isResumeOf i)) =
        some [0, 1, 1, 1] := by
    decide +kernel
  obtain ⟨s, hs, hcount⟩ := Option.map_eq_some_iff.mp hrun
  exact ⟨s, hcount, fires_properly Casing.ascii samplePrice F64.mulExact s (.of_runOk hs)⟩

/-- The superseded task removes the entry of the newer registration. -/
theorem superseded_task_takes_newer_entry :
    ∃ s, Reaches (watchStep Casing.ascii samplePrice F64.mulExact) (fun _ _ => True) .init s ∧
      ¬ FiresProperly F64.mulExact s := by
  have hrun : (runOk (watchStep Casing.ascii samplePrice F64.mulExact) (fun _ _ => True) .init
      rearmedWatch).map (fun s => decide (Event.removed 0 "thread_1"
        (some ⟨1, { sampleWatcher with priceLevel := .fin 120 }⟩) ∈ s.log)) = some true := by
    decide +kernel
  obtain ⟨s, hs, hmem⟩ := Option.map_eq_some_iff.mp hrun
  refine ⟨s, .of_runOk hs, fun hfires => ?_⟩
  have hreg := hfires.kept 0 _ _ (of_decide_eq_true hmem)
  cases hreg

end AiTrader.Watch
