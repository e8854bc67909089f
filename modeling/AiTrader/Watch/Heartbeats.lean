import AiTrader.Watch.Fires

/-! # Heartbeats of one thread

`heartbeats_bounded`: if every registration carries the configured cap `M`, then in every run in
which a heartbeat is only posted while no other registration of the thread has posted one and
none of the task's own was lost in transport, at most `M` heartbeats are posted per thread.

The cap is compared with a counter local to the task, which starts at zero with every
registration and does not advance when a post fails; `rearmed_watch_exceeds_cap` is a run in
which the resumed tool body re-registers its watch and the cap is passed. -/

namespace AiTrader.Watch

open Text Transition

variable {C : Casing} {fmt : F64 → String} {mul : F64 → F64 → F64} {s s' : WatchState}
  {a : WatchAct} {i j : ℕ} {t : Task} {M : ℕ}

/-- A heartbeat posted for a thread. -/
def isHeartbeatFor (threadId : String) : Event → Bool
  | .heartbeat _ th _ => decide (th = threadId)
  | _ => false

/-- A heartbeat posted by registration `i`. -/
def isHeartbeatOf (i : ℕ) : Event → Bool
  | .heartbeat j _ _ => decide (j = i)
  | _ => false

/-- A heartbeat of registration `i` that was lost in transport. -/
def isLostOf (i : ℕ) : Event → Bool
  | .heartbeatLost j => decide (j = i)
  | _ => false

/-- No thread was sent more than `M` heartbeats. -/
def HeartbeatsBounded (M : ℕ) (s : WatchState) : Prop :=
  ∀ threadId, s.log.countP (isHeartbeatFor threadId) ≤ M

/-- Every registration carries the configured cap. -/
def FromConfig (M : ℕ) : WatchAct → Prop
  | .register q _ _ _ => q.heartbeatEnabled = true → q.heartbeatMax = M
  | _ => True

instance (M : ℕ) (a : WatchAct) : Decidable (FromConfig M a) :=
  match a with
  | .register q _ _ _ =>
      inferInstanceAs (Decidable (q.heartbeatEnabled = true → q.heartbeatMax = M))
  | .check _ | .load .. | .remove _ | .resume _ | .pulse _ | .answer .. | .drop _ =>
      inferInstanceAs (Decidable True)

/-- The event leaves the counter of registration `i` the only and exact one of its thread. -/
def keepsCounter (i : ℕ) (threadId : String) : Event → Bool
  | .heartbeat j th _ => decide (th = threadId → j = i)
  | .heartbeatLost j => decide (j ≠ i)
  | _ => true

/-- A heartbeat is posted only while the task's counter is the only and exact one. -/
def SoleCounter (s : WatchState) : WatchAct → Prop
  | .pulse i => ∀ t ∈ s.tasks[i]?, ∀ e ∈ s.log, keepsCounter i t.watcher.threadId e = true
  | _ => True

instance (s : WatchState) (a : WatchAct) : Decidable (SoleCounter s a) :=
  match a with
  | .pulse i => inferInstanceAs (Decidable
      (∀ t ∈ s.tasks[i]?, ∀ e ∈ s.log, keepsCounter i t.watcher.threadId e = true))
  | .register .. | .check _ | .load .. | .remove _ | .resume _ | .answer .. | .drop _ =>
      inferInstanceAs (Decidable True)

/-! ### The counters -/

/-- A heartbeat that is posted but not yet counted. -/
def Phase.pending : Phase → ℕ
  | .pulsing _ | .refused => 1
  | _ => 0

/-- Every counter accounts for the heartbeats of its own registration. -/
structure Counted (M : ℕ) (s : WatchState) : Prop where
  owner : ∀ i th q, Event.heartbeat i th q ∈ s.log → i < s.tasks.length
  lost : ∀ i, Event.heartbeatLost i ∈ s.log → i < s.tasks.length
  count : ∀ (i : ℕ) (t : Task), s.tasks[i]? = some t → t.phase ≠ .done →
    s.log.countP (isHeartbeatOf i) =
      t.heartbeatSeq + s.log.countP (isLostOf i) + t.phase.pending
  due : ∀ (i : ℕ) (t : Task) c, s.tasks[i]? = some t → t.phase = .due c →
    t.heartbeatSeq < t.watcher.heartbeatMax ∧ t.watcher.heartbeatEnabled = true
  cap : ∀ (i : ℕ) (t : Task), s.tasks[i]? = some t → t.watcher.heartbeatEnabled = true →
    t.watcher.heartbeatMax = M
  bounded : HeartbeatsBounded M s

theorem countP_heartbeatOf_eq_zero {evs : List Event} {n : ℕ}
    (h : ∀ j th q, Event.heartbeat j th q ∈ evs → j ≠ n) : evs.countP (isHeartbeatOf n) = 0 := by
  refine List.countP_eq_zero.mpr (fun e he => ?_)
  cases e with
  | heartbeat j th q => simp [isHeartbeatOf, h j th q he]
  | registered j w => simp [isHeartbeatOf]
  | removed j th x => simp [isHeartbeatOf]
  | resumed j th c k => simp [isHeartbeatOf]
  | heartbeatLost j => simp [isHeartbeatOf]

theorem countP_lostOf_eq_zero {evs : List Event} {n : ℕ}
    (h : ∀ j, Event.heartbeatLost j ∈ evs → j ≠ n) : evs.countP (isLostOf n) = 0 := by
  refine List.countP_eq_zero.mpr (fun e he => ?_)
  cases e with
  | heartbeatLost j => simp [isLostOf, h j he]
  | heartbeat j th q => simp [isLostOf]
  | registered j w => simp [isLostOf]
  | removed j th x => simp [isLostOf]
  | resumed j th c k => simp [isLostOf]

theorem Counted.fresh (h : Counted M s) :
    s.log.countP (isHeartbeatOf s.tasks.length) = 0 ∧
      s.log.countP (isLostOf s.tasks.length) = 0 :=
  ⟨countP_heartbeatOf_eq_zero fun j th q he => (h.owner j th q he).ne,
    countP_lostOf_eq_zero fun j he => (h.lost j he).ne⟩

theorem Counted.enrol (h : Counted M s) {w : Watcher} (hw : w.heartbeatEnabled = true →
    w.heartbeatMax = M) (avg : F64) (now : ℚ) : Counted M (s.enrol w avg now) := by
  have hlen : (s.enrol w avg now).tasks.length = s.tasks.length + 1 := by
    simp [WatchState.enrol]
  have hlog : (s.enrol w avg now).log = s.log ++ [.registered s.tasks.length w] := rfl
  have hcount : ∀ p : Event → Bool, p (.registered s.tasks.length w) = false →
      (s.enrol w avg now).log.countP p = s.log.countP p := by
    intro p hp
    simp [hlog, List.countP_append, hp]
  constructor
  · intro i th q hmem
    rw [hlog, List.mem_append] at hmem
    have := h.owner i th q (hmem.resolve_right (by simp))
    omega
  · intro i hmem
    rw [hlog, List.mem_append] at hmem
    have := h.lost i (hmem.resolve_right (by simp))
    omega
  · intro i t ht hrun
    rw [hcount _ rfl, hcount _ rfl]
    rcases WatchState.enrol_tasks ht with ht | ⟨rfl, rfl⟩
    · exact h.count i t ht hrun
    · obtain ⟨h1, h2⟩ := h.fresh
      rw [h1, h2]
      rfl
  · intro i t c ht hp
    rcases WatchState.enrol_tasks ht with ht | ⟨_, rfl⟩
    · exact h.due i t c ht hp
    · cases hp
  · intro i t ht hon
    rcases WatchState.enrol_tasks ht with ht | ⟨_, rfl⟩
    · exact h.cap i t ht hon
    · exact hw hon
  · intro th
    rw [hcount _ rfl]
    exact h.bounded th

/-- What a step of task `i` must satisfy for the counters to stay exact. -/
structure Accounted (i : ℕ) (t t' : Task) (evs : List Event) : Prop where
  watcher : t'.watcher = t.watcher
  running : t'.phase ≠ .done → t.phase ≠ .done
  owner : ∀ e ∈ evs, (∀ j th q, e = .heartbeat j th q → j = i) ∧
    ∀ j, e = .heartbeatLost j → j = i
  balance : t'.phase ≠ .done →
    t.heartbeatSeq + t.phase.pending + evs.countP (isHeartbeatOf i) =
      t'.heartbeatSeq + evs.countP (isLostOf i) + t'.phase.pending
  due : ∀ c, t'.phase = .due c →
    t'.heartbeatSeq < t.watcher.heartbeatMax ∧ t.watcher.heartbeatEnabled = true

theorem Accounted.others {t t' : Task} {evs : List Event} (ht : Accounted i t t' evs) {n : ℕ}
    (hn : n ≠ i) : evs.countP (isHeartbeatOf n) = 0 ∧ evs.countP (isLostOf n) = 0 := by
  constructor
  · refine countP_heartbeatOf_eq_zero fun j th q he => ?_
    rw [(ht.owner _ he).1 j th q rfl]
    exact Ne.symm hn
  · refine countP_lostOf_eq_zero fun j he => ?_
    rw [(ht.owner _ he).2 j rfl]
    exact Ne.symm hn

theorem Counted.advance {t t' : Task} {evs : List Event} (h : Counted M s)
    (hi : s.tasks[i]? = some t) (hset : s'.tasks = s.tasks.set i t')
    (hlog : s'.log = s.log ++ evs) (ht : Accounted i t t' evs)
    (hb : ∀ th, (s.log ++ evs).countP (isHeartbeatFor th) ≤ M) : Counted M s' := by
  have hlen : s'.tasks.length = s.tasks.length := by rw [hset, List.length_set]
  have hlt : i < s.tasks.length := (List.getElem?_eq_some_iff.mp hi).1
  have htasks : ∀ n, s'.tasks[n]? = if i = n then some t' else s.tasks[n]? := by
    intro n
    rw [hset]
    exact WatchState.set_tasks hi
  constructor
  · intro n th q hmem
    rw [hlen]
    rw [hlog, List.mem_append] at hmem
    rcases hmem with hmem | hmem
    · exact h.owner n th q hmem
    · exact (ht.owner _ hmem).1 n th q rfl ▸ hlt
  · intro n hmem
    rw [hlen]
    rw [hlog, List.mem_append] at hmem
    rcases hmem with hmem | hmem
    · exact h.lost n hmem
    · exact (ht.owner _ hmem).2 n rfl ▸ hlt
  · intro n u hu hrun
    rw [hlog, List.countP_append, List.countP_append]
    rw [htasks] at hu
    split at hu
    · rename_i hn
      cases hu
      subst hn
      have hold := h.count i t hi (ht.running hrun)
      have hbal := ht.balance hrun
      omega
    · rename_i hn
      obtain ⟨h1, h2⟩ := ht.others (Ne.symm hn)
      have hold := h.count n u hu hrun
      omega
  · intro n u c hu hp
    rw [htasks] at hu
    split at hu
    · cases hu
      rw [ht.watcher]
      exact ht.due c hp
    · exact h.due n u c hu hp
  · intro n u hu hon
    rw [htasks] at hu
    split at hu
    · cases hu
      rw [ht.watcher] at hon ⊢
      exact h.cap i t hi hon
    · exact h.cap n u hu hon
  · intro th
    rw [hlog]
    exact hb th

theorem bounded_append {evs : List Event} (h : HeartbeatsBounded M s)
    (hevs : ∀ e ∈ evs, ∀ j th q, e ≠ .heartbeat j th q) (th : String) :
    (s.log ++ evs).countP (isHeartbeatFor th) ≤ M := by
  have hzero : evs.countP (isHeartbeatFor th) = 0 := by
    refine List.countP_eq_zero.mpr (fun e he => ?_)
    cases e with
    | heartbeat j th' q => exact absurd rfl (hevs _ he j th' q)
    | registered j w => simp [isHeartbeatFor]
    | removed j th x => simp [isHeartbeatFor]
    | resumed j th c k => simp [isHeartbeatFor]
    | heartbeatLost j => simp [isHeartbeatFor]
  rw [List.countP_append, hzero]
  exact h th

theorem afterLoad_due {latest : Option Candle} {now : ℚ} {c : Candle}
    (h : t.afterLoad mul latest now = .due c) :
    t.heartbeatSeq < t.watcher.heartbeatMax ∧ t.watcher.heartbeatEnabled = true := by
  unfold Task.afterLoad at h
  split at h
  · cases h
  · split at h
    · cases h
    · split at h
      · rename_i hdue
        simp only [Task.heartbeatDue, Bool.and_eq_true, decide_eq_true_eq] at hdue
        exact ⟨hdue.1.2, hdue.1.1.1.1⟩
      · cases h

theorem afterLoad_pending {latest : Option Candle} {now : ℚ} :
    (t.afterLoad mul latest now).pending = 0 := by
  unfold Task.afterLoad
  split
  · rfl
  · split
    · rfl
    · split <;> rfl

theorem Counted.pulse_bounded (h : Counted M s) (hi : s.tasks[i]? = some t) {c : Candle}
    (hp : t.phase = .due c) (hok : SoleCounter s (.pulse i)) (th : String) :
    (s.log ++ [Event.heartbeat i t.watcher.threadId (t.heartbeatSeq + 1)]).countP
      (isHeartbeatFor th) ≤ M := by
  have hsole := hok t hi
  rw [List.countP_append]
  by_cases hth : t.watcher.threadId = th
  · subst hth
    -- every heartbeat of the thread is one of this registration
    have hle : s.log.countP (isHeartbeatFor t.watcher.threadId) ≤
        s.log.countP (isHeartbeatOf i) := by
      refine List.countP_mono_left (fun e he hfor => ?_)
      have hk := hsole e he
      cases e with
      | heartbeat j th q =>
          simp only [isHeartbeatFor, decide_eq_true_eq] at hfor
          simp only [keepsCounter, decide_eq_true_eq] at hk
          exact decide_eq_true (hk hfor)
      | registered j w => cases hfor
      | removed j th x => cases hfor
      | resumed j th c k => cases hfor
      | heartbeatLost j => cases hfor
    have hlost : s.log.countP (isLostOf i) = 0 := by
      refine countP_lostOf_eq_zero fun j he => ?_
      have hk := hsole _ he
      simp only [keepsCounter, decide_eq_true_eq] at hk
      exact hk
    have hcount := h.count i t hi (by rw [hp]; simp)
    obtain ⟨hseq, hon⟩ := h.due i t c hi hp
    have hcap := h.cap i t hi hon
    have hone : [Event.heartbeat i t.watcher.threadId (t.heartbeatSeq + 1)].countP
        (isHeartbeatFor t.watcher.threadId) = 1 := by
      simp [isHeartbeatFor]
    have hpend : t.phase.pending = 0 := by rw [hp]; rfl
    omega
  · have hzero : [Event.heartbeat i t.watcher.threadId (t.heartbeatSeq + 1)].countP
        (isHeartbeatFor th) = 0 := by
      simp [isHeartbeatFor, hth]
    have := h.bounded th
    omega

/-- **Step lemma.** Every guarded step keeps the counters exact and the thread below its cap. -/
theorem Counted.step (h : Counted M s) (hcfg : FromConfig M a) (hok : SoleCounter s a)
    (hm : Move C fmt mul s a s') : Counted M s' := by
  cases hm with
  | register hw =>
      obtain ⟨x, _, hacc⟩ := watchCondition_ok hw
      refine h.enrol ?_ _ _
      rw [hacc.heartbeatEnabled, hacc.heartbeatMax]
      exact hcfg
  | @check i t hi hp =>
      refine h.advance hi rfl rfl ⟨rfl, fun _ => by rw [hp]; simp, by simp, ?_, ?_⟩
        (bounded_append h.bounded (by simp))
      · intro _
        dsimp only
        rw [hp]
        split <;> rfl
      · intro c hc
        dsimp only at hc
        split at hc <;> cases hc
  | load hi hp =>
      refine h.advance hi rfl rfl ⟨rfl, fun _ => by rw [hp]; simp, by simp, ?_,
        fun c hc => afterLoad_due hc⟩ (bounded_append h.bounded (by simp))
      intro _
      dsimp only
      rw [hp, afterLoad_pending]
      rfl
  | remove hi hp =>
      exact h.advance hi rfl rfl ⟨rfl, fun _ => by rw [hp]; simp, by simp,
        fun _ => by rw [hp]; rfl, by simp⟩ (bounded_append h.bounded (by simp))
  | resume hi hp =>
      exact h.advance hi rfl rfl ⟨rfl, fun hd => absurd rfl hd, by simp,
        fun hd => absurd rfl hd, by simp⟩ (bounded_append h.bounded (by simp))
  | @pulse i t c hi hp =>
      refine h.advance hi rfl rfl ⟨rfl, fun _ => by rw [hp]; simp, ?_, ?_, by simp⟩
        (h.pulse_bounded hi hp hok)
      · intro e he
        rw [List.mem_singleton] at he
        subst he
        refine ⟨?_, by simp⟩
        intro j th q heq
        cases heq
        rfl
      · intro _
        rw [hp]
        simp [isHeartbeatOf, isLostOf, Phase.pending]
  | accepted hi hp =>
      refine h.advance hi rfl rfl ⟨rfl, fun _ => by rw [hp]; simp, by simp, ?_, by simp⟩
        (bounded_append h.bounded (by simp))
      intro _
      rw [hp]
      rfl
  | refused hi hp =>
      refine h.advance hi rfl rfl ⟨rfl, fun _ => by rw [hp]; simp, by simp, ?_, by simp⟩
        (bounded_append h.bounded (by simp))
      intro _
      rw [hp]
      rfl
  | @failed i t c now hi hp =>
      refine h.advance hi rfl rfl ⟨rfl, fun _ => by rw [hp]; simp, ?_, ?_, by simp⟩
        (bounded_append h.bounded (by simp))
      · intro e he
        rw [List.mem_singleton] at he
        subst he
        refine ⟨by simp, ?_⟩
        intro j heq
        cases heq
        rfl
      · intro _
        rw [hp]
        simp [isHeartbeatOf, isLostOf, Phase.pending]
  | drop hi hp =>
      exact h.advance hi rfl rfl ⟨rfl, fun hd => absurd rfl hd, by simp,
        fun hd => absurd rfl hd, by simp⟩ (bounded_append h.bounded (by simp))

theorem Counted.init : Counted M .init where
  owner i th q hmem := by simp [WatchState.init] at hmem
  lost i hmem := by simp [WatchState.init] at hmem
  count i t hi := by simp [WatchState.init] at hi
  due i t c hi := by simp [WatchState.init] at hi
  cap i t hi := by simp [WatchState.init] at hi
  bounded th := Nat.zero_le M

/-- **Heartbeats are bounded** as long as a single exact counter counts them. -/
theorem heartbeats_bounded (C : Casing) (fmt : F64 → String) (mul : F64 → F64 → F64) (M : ℕ)
    (s : WatchState)
    (h : Reaches (watchStep C fmt mul) (fun x a => FromConfig M a ∧ SoleCounter x a) .init s) :
    HeartbeatsBounded M s := by
  refine (h.invariant (I := Counted M) ?_ Counted.init).bounded
  intro x a y hx hok hs
  exact hx.step hok.1 hok.2 (watchStep_move hs)

/-- The sample watch with one heartbeat allowed, a minute after its registration. -/
def heartbeatRequest : WatchConditionRequest :=
  { sampleRequest (.fin 110) with
    heartbeatEnabled := true, heartbeatCadenceSecs := .fin 60, heartbeatMax := 1 }

/-- A candle that neither reaches the level nor invalidates the watch. -/
def quietCandle : Candle := { sampleCandle with close := .fin 105 }

/-- A watch is renewed before its first heartbeat; the renewed one posts its only heartbeat, and so
does the watch of another thread. -/
def renewedHeartbeat : List WatchAct :=
  [.register heartbeatRequest (.close (.fin 100)) (.fin 1000) 0, .check 0,
    .load 0 (some quietCandle) 5,
    .register { heartbeatRequest with priceLevel := .fin 120 } (.close (.fin 105)) (.fin 1000) 6,
    .register { heartbeatRequest with threadId := "thread_2" } (.close (.fin 105)) (.fin 1000) 7,
    .check 0, .check 1, .check 2, .load 1 (some quietCandle) 70, .load 2 (some quietCandle) 70,
    .pulse 1, .pulse 2, .answer 2 .accepted 71, .answer 1 .accepted 72, .check 1,
    .load 1 (some quietCandle) 140, .check 1, .load 1 (some quietCandle) 210]

/-- While the heartbeat is in flight, the resumed tool body registers the same watch again;
the task of that registration counts from zero. -/
def rearmedByHeartbeat : List WatchAct :=
  [.register heartbeatRequest (.close (.fin 100)) (.fin 1000) 0, .check 0,
    .load 0 (some quietCandle) 60, .pulse 0,
    .register heartbeatRequest (.close (.fin 105)) (.fin 1000) 60, .answer 0 .accepted 61,
    .check 1, .load 1 (some quietCandle) 120, .pulse 1]

/-- Two threads, one of them registered twice, stay within a cap of one heartbeat each. -/
theorem heartbeats_bounded_renewed :
    ∃ s : WatchState, s.log.countP (isHeartbeatFor "thread_1") = 1 ∧
      s.log.countP (isHeartbeatFor "thread_2") = 1 ∧ HeartbeatsBounded 1 s := by
  have hrun : (runOk (watchStep Casing.ascii samplePrice F64.mulExact)
      (fun x a => FromConfig 1 a ∧ SoleCounter x a) .init renewedHeartbeat).map
        (fun s => (s.log.countP (isHeartbeatFor "thread_1"),
          s.log.countP (isHeartbeatFor "thread_2"))) = some (1, 1) := by
    decide +kernel
  obtain ⟨s, hs, hcount⟩ := Option.map_eq_some_iff.mp hrun
  obtain ⟨hfirst, hsecond⟩ := Prod.mk.inj hcount
  exact ⟨s, hfirst, hsecond,
    heartbeats_bounded Casing.ascii samplePrice F64.mulExact 1 s (.of_runOk hs)⟩

/-- A watch re-armed by its own heartbeat is sent a second one under a cap of one. -/
theorem rearmed_watch_exceeds_cap :
    ∃ s, Reaches (watchStep Casing.ascii samplePrice F64.mulExact) (fun _ a => FromConfig 1 a)
        .init s ∧ ¬ HeartbeatsBounded 1 s := by
  have hrun : (runOk (watchStep Casing.ascii samplePrice F64.mulExact) (fun _ a => FromConfig 1 a)
      .init rearmedByHeartbeat).map (fun s => s.log.countP (isHeartbeatFor "thread_1")) =
        some 2 := by
    decide +kernel
  obtain ⟨s, hs, hcount⟩ := Option.map_eq_some_iff.mp hrun
  refine ⟨s, .of_runOk hs, fun hbounded => ?_⟩
  have := hbounded "thread_1"
  omega

end AiTrader.Watch
