import AiTrader.Library.Transition
import AiTrader.Library.WriteLock
import AiTrader.Session.Transcript

/-! # Concurrent appends to one transcript

Any number of calls of `append_run_events` on one run, each with a batch that is not empty.
Each statement of a call is one step: the read of `last_seq`, the `INSERT OR IGNORE` of the
batch, the two updates and the `COMMIT`.  The read takes no lock; the `INSERT` opens the write
transaction.

* `Tiled`: the calls that have written so far tile the transcript, in some order.
* `appends_tile_iff`: after all calls have returned their batches tile the transcript exactly
  when every `INSERT` met unchanged the `last_seq` that its call had read. -/

namespace AiTrader.Session

open Text Transition

/-- One call: its batch, and its clock reading. -/
structure AppendCall where
  events : List StoredFrame
  stamp : Stamp
  events_ne : events ≠ []

/-- Where a call stands. -/
inductive AppendPhase where
  | start
  | seqRead (session : Id) (seq : ℕ)
  | inserted (session : Id) (seq : ℕ)
  | updated (session : Id) (seq : ℕ)
  | touched (seq : ℕ)
  | returned (seq : ℕ)
  | raised
deriving DecidableEq, Repr

namespace AppendPhase

/-- The call holds the write lock. -/
def holds : AppendPhase → Bool
  | inserted .. | updated .. | touched _ => true
  | _ => false

/-- The call has returned. -/
def isReturned : AppendPhase → Bool
  | returned _ => true
  | _ => false

/-- The call's batch has gone in, as far as it did. -/
def written (p : AppendPhase) : Bool := p.holds || p.isReturned

end AppendPhase

structure AppendState (ω : Type*) where
  db : WriteLock ω Store
  phase : ω → AppendPhase

inductive AppendStatement (ω : Type*) where
  | selectSeq (i : ω)
  | insert (i : ω)
  | updateSeq (i : ω)
  | touch (i : ω)
  | commit (i : ω)

namespace AppendState

section
variable {ω : Type*} [DecidableEq ω] (rid : Id) (calls : ω → AppendCall)

/-- The call `i` moves on. -/
def goto (s : AppendState ω) (i : ω) (p : AppendPhase) : AppendState ω :=
  { s with phase := Function.update s.phase i p }

/-- One statement of one call.  A batch with a nameless frame raises before the `INSERT`. -/
def step (s : AppendState ω) : AppendStatement ω → Option (AppendState ω)
  | .selectSeq i =>
      match s.phase i with
      | .start =>
          match (s.db.view i).runs.find? rid with
          | none => some (s.goto i (.returned 0))
          | some r =>
              if (calls i).events.any (fun e => (text e.1).isNone) then some (s.goto i .raised)
              else some (s.goto i (.seqRead r.sessionId r.lastSeq))
      | _ => none
  | .insert i =>
      match s.phase i, s.db.working with
      | .seqRead sid seq, none =>
          (s.db.write i fun st => st.insertEvents rid (calls i).stamp seq (calls i).events).map
            fun db => { s.goto i (.inserted sid (seq + (calls i).events.length)) with db := db }
      | _, _ => none
  | .updateSeq i =>
      match s.phase i with
      | .inserted sid seq =>
          (s.db.write i fun st => st.setLastSeq rid seq (calls i).stamp).map
            fun db => { s.goto i (.updated sid seq) with db := db }
      | _ => none
  | .touch i =>
      match s.phase i with
      | .updated sid seq =>
          (s.db.write i fun st => st.touch sid (calls i).stamp).map
            fun db => { s.goto i (.touched seq) with db := db }
      | _ => none
  | .commit i =>
      match s.phase i with
      | .touched seq =>
          (s.db.commit i).map fun db => { s.goto i (.returned seq) with db := db }
      | _ => none

/-- No call has begun and no transaction is open. -/
def Starts (s : AppendState ω) : Prop := s.db.working = none ∧ ∀ i, s.phase i = .start

/-- Every call has returned. -/
def Done (s : AppendState ω) : Prop := ∀ i, (s.phase i).isReturned = true

/-- If the statement inserts a batch, the run's `last_seq` is still the one the call has read. -/
def SeqCurrent (s : AppendState ω) : AppendStatement ω → Prop
  | .insert i => ∀ sid seq, s.phase i = .seqRead sid seq → s.db.committed.lastSeq? rid = some seq
  | _ => True

/-- The frames of the calls, one batch after the other. -/
def frames (order : List ω) : List StoredFrame := order.flatMap fun i => (calls i).events

/-! ### One statement -/

variable {rid calls} {s s' : AppendState ω} {a : AppendStatement ω}

@[simp] theorem goto_db (s : AppendState ω) (i : ω) (p : AppendPhase) : (s.goto i p).db = s.db :=
  rfl

@[simp] theorem goto_phase (s : AppendState ω) (i : ω) (p : AppendPhase) :
    (s.goto i p).phase = Function.update s.phase i p := rfl

theorem step_cases (h : s.step rid calls a = some s') :
    (∃ i p, s' = s.goto i p ∧ s.phase i = .start ∧ p.holds = false ∧
      (p.isReturned = true → (s.db.view i).runs.find? rid = none) ∧
      (∀ sid seq, p = .seqRead sid seq → (s.db.view i).lastSeq? rid = some seq) ∧
      s.SeqCurrent rid a) ∨
    (∃ i sid seq, a = .insert i ∧ s.phase i = .seqRead sid seq ∧ s.db.working = none ∧
      s' = { s.goto i (.inserted sid (seq + (calls i).events.length)) with
        db := ⟨s.db.committed,
          some (i, s.db.committed.insertEvents rid (calls i).stamp seq (calls i).events)⟩ }) ∨
    (∃ i sid seq, s.phase i = .inserted sid seq ∧ s.SeqCurrent rid a ∧
      s' = { s.goto i (.updated sid seq) with
        db := ⟨s.db.committed, some (i, s.db.latest.setLastSeq rid seq (calls i).stamp)⟩ }) ∨
    (∃ i sid seq, s.phase i = .updated sid seq ∧ s.SeqCurrent rid a ∧
      s' = { s.goto i (.touched seq) with
        db := ⟨s.db.committed, some (i, s.db.latest.touch sid (calls i).stamp)⟩ }) ∨
    (∃ i seq, s.phase i = .touched seq ∧ s.SeqCurrent rid a ∧
      s' = { s.goto i (.returned seq) with db := .idle s.db.latest }) := by
  cases a with
  | selectSeq i =>
      left
      simp only [step] at h
      split at h
      · rename_i hphase
        split at h
        · rename_i hnone
          cases h
          exact ⟨i, _, rfl, hphase, rfl, fun _ => hnone, by simp, trivial⟩
        · rename_i r hr
          split at h <;> cases h
          · exact ⟨i, _, rfl, hphase, rfl, by simp [AppendPhase.isReturned], by simp, trivial⟩
          · refine ⟨i, _, rfl, hphase, rfl, by simp [AppendPhase.isReturned], ?_, trivial⟩
            rintro sid seq heq
            cases heq
            rw [Store.lastSeq?, hr, Option.map_some]
      · cases h
  | insert i =>
      simp only [step] at h
      split at h
      · rename_i sid seq hphase hidle
        obtain ⟨db, hdb, rfl⟩ := Option.map_eq_some_iff.mp h
        obtain ⟨-, rfl⟩ := WriteLock.write_eq hdb
        refine .inr (.inl ⟨i, sid, seq, rfl, hphase, hidle, ?_⟩)
        rw [WriteLock.latest_of_idle hidle]
      · cases h
  | updateSeq i =>
      simp only [step] at h
      split at h
      · rename_i sid seq hphase
        obtain ⟨db, hdb, rfl⟩ := Option.map_eq_some_iff.mp h
        obtain ⟨-, rfl⟩ := WriteLock.write_eq hdb
        exact .inr (.inr (.inl ⟨i, sid, seq, hphase, trivial, rfl⟩))
      · cases h
  | touch i =>
      simp only [step] at h
      split at h
      · rename_i sid seq hphase
        obtain ⟨db, hdb, rfl⟩ := Option.map_eq_some_iff.mp h
        obtain ⟨-, rfl⟩ := WriteLock.write_eq hdb
        exact .inr (.inr (.inr (.inl ⟨i, sid, seq, hphase, trivial, rfl⟩)))
      · cases h
  | commit i =>
      simp only [step] at h
      split at h
      · rename_i seq hphase
        obtain ⟨db, hdb, rfl⟩ := Option.map_eq_some_iff.mp h
        rw [WriteLock.commit_eq hdb]
        exact .inr (.inr (.inr (.inr ⟨i, seq, hphase, trivial, rfl⟩)))
      · cases h

/-! ### Every reachable state -/

/-- The call that writes is the one with the open transaction, and the run stays stored. -/
structure Appending (rid : Id) (s : AppendState ω) : Prop where
  holder : ∀ i, (s.phase i).holds = true ↔ ∃ st, s.db.working = some (i, st)
  run : (s.db.committed.lastSeq? rid).isSome
  run_latest : (s.db.latest.lastSeq? rid).isSome

theorem Appending.view_eq (hs : Appending rid s) {i : ω} (h : (s.phase i).holds = false) :
    s.db.view i = s.db.committed := by
  apply WriteLock.view_eq_committed
  intro st hw
  rw [(hs.holder i).mpr ⟨st, hw⟩] at h
  cases h

omit [DecidableEq ω] in
/-- The run stays stored, so no call returns without having written. -/
theorem Appending.not_returned (hs : Appending rid s) {p : AppendPhase}
    (h : p.isReturned = true → s.db.committed.runs.find? rid = none) : p.isReturned = false := by
  rw [Bool.eq_false_iff]
  intro hreturned
  have hrun := hs.run
  rw [Store.lastSeq?, h hreturned] at hrun
  cases hrun

theorem Appending.holder_update (hs : Appending rid s) {i : ω} {p : AppendPhase} {st : Store}
    (hi : s.db.working = none ∨ (s.phase i).holds = true) (hp : p.holds = true) (j : ω) :
    (Function.update s.phase i p j).holds = true ↔ ∃ st', some (i, st) = some (j, st') := by
  by_cases hji : j = i
  · subst hji
    simp [hp]
  · rw [Function.update_of_ne hji, hs.holder]
    refine iff_of_false ?_ (by simp [Ne.symm hji])
    rintro ⟨st', hw⟩
    rcases hi with hidle | hheld
    · rw [hidle] at hw
      cases hw
    · obtain ⟨st'', hw'⟩ := (hs.holder i).mp hheld
      rw [hw] at hw'
      exact hji (Prod.mk.inj (Option.some.inj hw')).1

theorem Appending.step (hs : Appending rid s) (h : s.step rid calls a = some s') :
    Appending rid s' := by
  obtain ⟨i, p, rfl, hstart, hp, -⟩ | ⟨i, sid, seq, -, -, hidle, rfl⟩ |
    ⟨i, sid, seq, hphase, -, rfl⟩ | ⟨i, sid, seq, hphase, -, rfl⟩ | ⟨i, seq, hphase, -, rfl⟩ :=
    step_cases h
  · refine ⟨fun j => ?_, hs.run, hs.run_latest⟩
    by_cases hji : j = i
    · subst hji
      rw [goto_phase, Function.update_self, hp, goto_db, ← hs.holder, hstart]
      rfl
    · rw [goto_phase, Function.update_of_ne hji, goto_db, hs.holder]
  · exact ⟨hs.holder_update (.inl hidle) rfl, hs.run, hs.run⟩
  · refine ⟨hs.holder_update (.inr (by rw [hphase]; rfl)) rfl, hs.run, ?_⟩
    show ((s.db.latest.setLastSeq rid seq (calls i).stamp).lastSeq? rid).isSome
    rw [Store.lastSeq?_setLastSeq hs.run_latest]
    rfl
  · exact ⟨hs.holder_update (.inr (by rw [hphase]; rfl)) rfl, hs.run, hs.run_latest⟩
  · refine ⟨fun j => ?_, hs.run_latest, hs.run_latest⟩
    obtain ⟨st, hw⟩ := (hs.holder i).mp (by rw [hphase]; rfl)
    by_cases hji : j = i
    · subst hji
      simp [AppendPhase.holds, WriteLock.idle]
    · simp only [goto_phase, Function.update_of_ne hji]
      rw [hs.holder, hw]
      simp [WriteLock.idle, Ne.symm hji]

/-! ### The calls that have written -/

/-- `order` lists the calls whose batch has gone in. -/
structure Wrote (order : List ω) (phase : ω → AppendPhase) : Prop where
  nodup : order.Nodup
  mem : ∀ i, i ∈ order ↔ (phase i).written = true

theorem Wrote.keep {order : List ω} {phase : ω → AppendPhase} {i : ω} {p : AppendPhase}
    (h : Wrote order phase) (hp : p.written = (phase i).written) :
    Wrote order (Function.update phase i p) := by
  refine ⟨h.nodup, fun j => ?_⟩
  by_cases hji : j = i
  · subst hji
    rw [Function.update_self, hp, h.mem]
  · rw [Function.update_of_ne hji, h.mem]

theorem Wrote.extend {order : List ω} {phase : ω → AppendPhase} {i : ω} {p : AppendPhase}
    (h : Wrote order phase) (hi : (phase i).written = false) (hp : p.written = true) :
    Wrote (order ++ [i]) (Function.update phase i p) := by
  have hnew : i ∉ order := by rw [h.mem, hi]; exact Bool.false_ne_true
  refine ⟨by simpa [List.nodup_append] using ⟨h.nodup, fun a ha hai => hnew (hai ▸ ha)⟩,
    fun j => ?_⟩
  by_cases hji : j = i
  · subst hji
    simp [hp]
  · rw [Function.update_of_ne hji, ← h.mem]
    simp [hji]

/-- With `n` frames stored, the number that a call is to go on with: what it has read is not
beyond them, what it has inserted up to is their end. -/
def Fits (n : ℕ) : AppendPhase → Prop
  | .seqRead _ seq => seq ≤ n
  | .inserted _ seq => seq = n
  | _ => True

theorem Fits.grow {n n' : ℕ} {p : AppendPhase} (h : Fits n p) (hp : p.holds = false)
    (hle : n ≤ n') : Fits n' p := by
  cases p with
  | seqRead sid seq => exact le_trans h hle
  | inserted sid seq => cases hp
  | _ => trivial

/-- The batch has gone in, and `last_seq` does not tell yet. -/
def unsettled : AppendPhase → Bool
  | .inserted .. => true
  | _ => false

/-- The calls that have written tile the transcript, in the order `order`, after the frames
`old` that the run began with. -/
structure Tiled (rid : Id) (calls : ω → AppendCall) (old : List StoredFrame) (order : List ω)
    (s : AppendState ω) : Prop where
  wrote : Wrote order s.phase
  zero : s.db.latest.frameAt rid 0 = none
  succ : ∀ k, s.db.latest.frameAt rid (k + 1) = (old ++ frames calls order)[k]?
  fits : ∀ i, Fits (old ++ frames calls order).length (s.phase i)
  settled : (∀ i, unsettled (s.phase i) = false) →
    s.db.latest.lastSeq? rid = some (old ++ frames calls order).length
  committed_le : ∀ m, s.db.committed.lastSeq? rid = some m → m ≤ (old ++ frames calls order).length

/-- Frames are missing that the calls in `order` have written. -/
structure Lossy (rid : Id) (calls : ω → AppendCall) (old : List StoredFrame) (order : List ω)
    (s : AppendState ω) : Prop where
  wrote : Wrote order s.phase
  missing : (s.db.latest.eventsOf rid).length < (old ++ frames calls order).length

section
variable {old : List StoredFrame} {order : List ω}

omit [DecidableEq ω] in
/-- While no transaction is open, no call is between its insert and its commit. -/
theorem Appending.not_holds (hs : Appending rid s) (hidle : s.db.working = none) (i : ω) :
    (s.phase i).holds = false := by
  rw [Bool.eq_false_iff, ne_eq, hs.holder, hidle]
  rintro ⟨st, hw⟩
  cases hw

omit [DecidableEq ω] in
/-- Then `last_seq` is the number of frames stored. -/
theorem Tiled.lastSeq_of_idle (hs : Appending rid s) (ht : Tiled rid calls old order s)
    (hidle : s.db.working = none) :
    s.db.committed.lastSeq? rid = some (old ++ frames calls order).length := by
  rw [← WriteLock.latest_of_idle hidle]
  apply ht.settled
  intro i
  have hi := hs.not_holds hidle i
  cases hphase : s.phase i <;> rw [hphase] at hi <;> first | rfl | cases hi

omit [DecidableEq ω] in
theorem Tiled.frameAt_eq_none (ht : Tiled rid calls old order s) {q : ℕ}
    (hq : (old ++ frames calls order).length < q) : s.db.latest.frameAt rid q = none := by
  obtain ⟨k, rfl⟩ := Nat.exists_eq_add_of_lt hq
  rw [ht.succ, List.getElem?_eq_none (by omega)]

omit [DecidableEq ω] in
theorem frames_concat (old : List StoredFrame) (order : List ω) (i : ω) :
    old ++ frames calls (order ++ [i]) = (old ++ frames calls order) ++ (calls i).events := by
  simp [frames]

/-- A batch numbered from the end of the transcript prolongs the tiling. -/
theorem Tiled.insert (hs : Appending rid s) (ht : Tiled rid calls old order s) {i : ω} {sid : Id}
    {seq : ℕ} (hphase : s.phase i = .seqRead sid seq) (hidle : s.db.working = none)
    (hcur : s.db.committed.lastSeq? rid = some seq) :
    Tiled rid calls old (order ++ [i])
      { s.goto i (.inserted sid (seq + (calls i).events.length)) with
        db := ⟨s.db.committed,
          some (i, s.db.committed.insertEvents rid (calls i).stamp seq (calls i).events)⟩ } := by
  have hseq : seq = (old ++ frames calls order).length :=
    Option.some.inj (hcur.symm.trans (ht.lastSeq_of_idle hs hidle))
  have hcommitted : s.db.committed = s.db.latest := (WriteLock.latest_of_idle hidle).symm
  have hframes : ∀ q,
      (s.db.committed.insertEvents rid (calls i).stamp seq (calls i).events).frameAt rid q =
        if seq < q then (calls i).events[q - seq - 1]? else s.db.committed.frameAt rid q :=
    Store.frameAt_insertEvents fun q hq => by
      rw [hcommitted]
      exact ht.frameAt_eq_none (hseq ▸ hq)
  have hlen : (old ++ frames calls (order ++ [i])).length = seq + (calls i).events.length := by
    rw [frames_concat, List.length_append, hseq]
  refine ⟨ht.wrote.extend (by rw [hphase]; rfl) rfl, ?_, fun k => ?_, ?_, fun hall => ?_,
    fun m hm => ?_⟩
  · exact (hframes 0).trans (by rw [if_neg (by omega), hcommitted, ht.zero])
  · refine (hframes (k + 1)).trans ?_
    rw [frames_concat, hcommitted, ht.succ]
    by_cases hk : seq < k + 1
    · rw [if_pos hk, List.getElem?_append_right (by omega), ← hseq]
      congr 1
      omega
    · have hk' : k < (old ++ frames calls order).length := by omega
      rw [if_neg hk, List.getElem?_append_left hk']
  · rw [hlen]
    refine (Function.forall_update_iff _ fun _ p => Fits _ p).mpr ⟨rfl, fun j _ => ?_⟩
    exact (ht.fits j).grow (hs.not_holds hidle j) (by omega)
  · have hself := hall i
    rw [goto_phase, Function.update_self] at hself
    cases hself
  · have hle := ht.committed_le m hm
    omega

/-- **Step.** A statement that finds `last_seq` current keeps the tiling. -/
theorem Tiled.step (hs : Appending rid s) (ht : Tiled rid calls old order s)
    (h : s.step rid calls a = some s') (hcur : s.SeqCurrent rid a) :
    ∃ order', Tiled rid calls old order' s' := by
  obtain ⟨i, p, rfl, hstart, hp, hret, hread, -⟩ | ⟨i, sid, seq, rfl, hphase, hidle, rfl⟩ |
    ⟨i, sid, seq, hphase, -, rfl⟩ | ⟨i, sid, seq, hphase, -, rfl⟩ | ⟨i, seq, hphase, -, rfl⟩ :=
    step_cases h
  · -- a read, of what is committed
    rw [hs.view_eq (by rw [hstart]; rfl)] at hret hread
    have hnot := hs.not_returned hret
    have hfits : Fits (old ++ frames calls order).length p := by
      cases p with
      | seqRead sid seq => exact ht.committed_le seq (hread sid seq rfl)
      | inserted sid seq => cases hp
      | _ => trivial
    refine ⟨order, ht.wrote.keep ?_, ht.zero, ht.succ, ?_, fun hall => ht.settled ?_,
      ht.committed_le⟩
    · rw [hstart, AppendPhase.written, hp, hnot]
      rfl
    · exact (Function.forall_update_iff _ fun _ p => Fits _ p).mpr
        ⟨hfits, fun j _ => ht.fits j⟩
    · intro j
      by_cases hji : j = i
      · rw [hji, hstart]
        rfl
      · exact ((Function.forall_update_iff _ fun _ p => unsettled p = false).mp hall).2 j hji
  · exact ⟨order ++ [i], ht.insert hs hphase hidle (hcur sid seq hphase)⟩
  · -- the update settles `last_seq`
    have hseq : seq = _ := hphase ▸ ht.fits i
    refine ⟨order, ht.wrote.keep (by rw [hphase]; rfl), ht.zero, ht.succ, ?_, fun _ => ?_,
      ht.committed_le⟩
    · exact (Function.forall_update_iff _ fun _ p => Fits _ p).mpr
        ⟨trivial, fun j _ => ht.fits j⟩
    · rw [← hseq]
      exact Store.lastSeq?_setLastSeq hs.run_latest
  · refine ⟨order, ht.wrote.keep (by rw [hphase]; rfl), ht.zero, ht.succ, ?_, fun hall => ?_,
      ht.committed_le⟩
    · exact (Function.forall_update_iff _ fun _ p => Fits _ p).mpr
        ⟨trivial, fun j _ => ht.fits j⟩
    · apply ht.settled
      intro j
      by_cases hji : j = i
      · rw [hji, hphase]
        rfl
      · exact ((Function.forall_update_iff _ fun _ p => unsettled p = false).mp hall).2 j hji
  · have hsettled : ∀ j, unsettled (s.phase j) = false := by
      intro j
      cases hj : s.phase j with
      | inserted sid seq' =>
          -- two calls would hold the lock
          obtain ⟨st, hw⟩ := (hs.holder i).mp (by rw [hphase]; rfl)
          obtain ⟨st', hw'⟩ := (hs.holder j).mp (by rw [hj]; rfl)
          rw [hw] at hw'
          obtain ⟨rfl, -⟩ := Prod.mk.inj (Option.some.inj hw')
          rw [hphase] at hj
          cases hj
      | _ => rfl
    have hlast := ht.settled hsettled
    refine ⟨order, ht.wrote.keep (by rw [hphase]; rfl), ht.zero, ht.succ, ?_, fun _ => hlast,
      fun m hm => ?_⟩
    · exact (Function.forall_update_iff _ fun _ p => Fits _ p).mpr
        ⟨trivial, fun j _ => ht.fits j⟩
    · have hm' : s.db.latest.lastSeq? rid = some m := hm
      rw [hlast] at hm'
      exact (Option.some.inj hm').symm.le

/-- A batch numbered from a stale `last_seq` collides with a stored frame, and loses it. -/
theorem Tiled.lossy (hs : Appending rid s) (ht : Tiled rid calls old order s)
    (h : s.step rid calls a = some s') (hstale : ¬ s.SeqCurrent rid a) :
    ∃ order', Lossy rid calls old order' s' := by
  obtain ⟨i, p, rfl, -, -, -, -, hcur⟩ | ⟨i, sid, seq, rfl, hphase, hidle, rfl⟩ |
    ⟨i, sid, seq, -, hcur, -⟩ | ⟨i, sid, seq, -, hcur, -⟩ | ⟨i, seq, -, hcur, -⟩ := step_cases h
  · exact absurd hcur hstale
  · have hfits := ht.fits i
    rw [hphase] at hfits
    have hle : seq ≤ (old ++ frames calls order).length := hfits
    have hne : seq ≠ (old ++ frames calls order).length := by
      rintro rfl
      apply hstale
      intro sid' seq' hphase'
      rw [hphase] at hphase'
      cases hphase'
      exact ht.lastSeq_of_idle hs hidle
    have hcommitted : s.db.committed = s.db.latest := (WriteLock.latest_of_idle hidle).symm
    have hstored : s.db.committed.Transcript rid (old ++ frames calls order) :=
      ⟨ht.lastSeq_of_idle hs hidle, hcommitted ▸ ht.zero, hcommitted ▸ ht.succ⟩
    have htaken : (s.db.committed.frameAt rid (seq + 1)).isSome := by
      rw [hstored.succ, List.getElem?_eq_getElem (by omega)]
      rfl
    have hcount := Store.count_insertEvents_lt (calls i).stamp (calls i).events_ne htaken
    refine ⟨order ++ [i], ht.wrote.extend (by rw [hphase]; rfl) rfl, ?_⟩
    rw [frames_concat, List.length_append, ← hstored.count]
    exact hcount
  · exact absurd hcur hstale
  · exact absurd hcur hstale
  · exact absurd hcur hstale

theorem Lossy.step (hs : Appending rid s) (hl : Lossy rid calls old order s)
    (h : s.step rid calls a = some s') : ∃ order', Lossy rid calls old order' s' := by
  obtain ⟨i, p, rfl, hstart, hp, hret, -⟩ | ⟨i, sid, seq, -, hphase, hidle, rfl⟩ |
    ⟨i, sid, seq, hphase, -, rfl⟩ | ⟨i, sid, seq, hphase, -, rfl⟩ | ⟨i, seq, hphase, -, rfl⟩ :=
    step_cases h
  · rw [hs.view_eq (by rw [hstart]; rfl)] at hret
    refine ⟨order, hl.wrote.keep ?_, hl.missing⟩
    rw [hstart, AppendPhase.written, hp, hs.not_returned hret]
    rfl
  · refine ⟨order ++ [i], hl.wrote.extend (by rw [hphase]; rfl) rfl, ?_⟩
    have hmissing := hl.missing
    rw [WriteLock.latest_of_idle hidle] at hmissing
    have hcount := s.db.committed.count_insertEvents_le rid (calls i).stamp seq (calls i).events
    rw [frames_concat, List.length_append]
    exact lt_of_le_of_lt hcount (by omega)
  · exact ⟨order, hl.wrote.keep (by rw [hphase]; rfl), hl.missing⟩
  · exact ⟨order, hl.wrote.keep (by rw [hphase]; rfl), hl.missing⟩
  · exact ⟨order, hl.wrote.keep (by rw [hphase]; rfl), hl.missing⟩

omit [DecidableEq ω] in
/-- Once all calls have returned, no transaction is open. -/
theorem Appending.idle_of_done (hs : Appending rid s) (hdone : s.Done) : s.db.working = none := by
  cases hw : s.db.working with
  | none => rfl
  | some held =>
      have hholds := (hs.holder held.1).mpr ⟨held.2, hw⟩
      have hreturned := hdone held.1
      cases hphase : s.phase held.1 <;>
        simp [hphase, AppendPhase.holds, AppendPhase.isReturned] at hholds hreturned

omit [DecidableEq ω] in
theorem Wrote.mem_of_done {phase : ω → AppendPhase} (h : Wrote order phase)
    (hdone : ∀ i, (phase i).isReturned = true) (i : ω) : i ∈ order := by
  rw [h.mem, AppendPhase.written, hdone i, Bool.or_true]

/-- **Run.** On a run whose transcript is `old`, and after every call has returned, the transcript
is `old` followed by all batches, whole and one after the other in some order, exactly when every
`INSERT` met unchanged the `last_seq` that its call had read. -/
theorem appends_tile_iff {t : AppendState ω} {tr : List (AppendState ω × AppendStatement ω)}
    (hstart : s.Starts) (hold : s.db.committed.Transcript rid old)
    (hrun : Path (step rid calls) s tr t) (hdone : t.Done) :
    (∃ order : List ω, order.Nodup ∧ (∀ i, i ∈ order) ∧
        t.db.committed.Transcript rid (old ++ frames calls order)) ↔
      ∀ x ∈ tr, x.1.SeqCurrent rid x.2 := by
  have hsome : (s.db.committed.lastSeq? rid).isSome := by rw [hold.lastSeq]; rfl
  have happ0 : Appending rid s := by
    refine ⟨fun i => ?_, hsome, ?_⟩
    · rw [hstart.1, hstart.2]
      simp [AppendPhase.holds]
    · rw [WriteLock.latest_of_idle hstart.1]
      exact hsome
  have htiled0 : Tiled rid calls old [] s := by
    have hlatest := WriteLock.latest_of_idle hstart.1
    have hnil : old ++ frames calls [] = old := List.append_nil old
    refine ⟨⟨List.nodup_nil, fun i => ?_⟩, ?_, fun k => ?_, fun i => ?_, fun _ => ?_,
      fun m hm => ?_⟩
    · rw [hstart.2]
      simp [AppendPhase.written, AppendPhase.holds, AppendPhase.isReturned]
    · rw [hlatest, hold.zero]
    · rw [hlatest, hold.succ, hnil]
    · rw [hstart.2]
      trivial
    · rw [hlatest, hold.lastSeq, hnil]
    · rw [hold.lastSeq] at hm
      exact (hnil ▸ Option.some.inj hm).symm.le
  have hends := hrun.dichotomy
    (I := fun x => Appending rid x ∧ ∃ order, Tiled rid calls old order x)
    (B := fun x => Appending rid x ∧ ∃ order, Lossy rid calls old order x)
    (J := fun x a => x.SeqCurrent rid a)
    (fun _ _ _ hx h hj => ⟨hx.1.step h, hx.2.elim fun _ ht => ht.step hx.1 h hj⟩)
    (fun _ _ _ hx h hj => ⟨hx.1.step h, hx.2.elim fun _ ht => ht.lossy hx.1 h hj⟩)
    (fun _ _ _ hx h => ⟨hx.1.step h, hx.2.elim fun _ hl => hl.step hx.1 h⟩)
    ⟨happ0, [], htiled0⟩
  rcases hends with ⟨⟨happ, order, ht⟩, hall⟩ | ⟨⟨happ, order, hl⟩, hnot⟩
  · have hidle := happ.idle_of_done hdone
    refine iff_of_true ⟨order, ht.wrote.nodup, ht.wrote.mem_of_done hdone,
      ht.lastSeq_of_idle happ hidle, ?_, ?_⟩ hall
    · rw [← WriteLock.latest_of_idle hidle]
      exact ht.zero
    · rw [← WriteLock.latest_of_idle hidle]
      exact ht.succ
  · refine iff_of_false ?_ hnot
    rintro ⟨order', hnd, hmem, htr⟩
    -- both orders list all calls, so they announce equally many frames
    have hperm : order'.Perm order := (List.perm_ext_iff_of_nodup hnd hl.wrote.nodup).mpr
      fun i => iff_of_true (hmem i) (hl.wrote.mem_of_done hdone i)
    have hlen : (frames calls order').length = (frames calls order).length :=
      (hperm.flatMap_right _).length_eq
    have hmissing := hl.missing
    rw [WriteLock.latest_of_idle (happ.idle_of_done hdone), htr.count, List.length_append,
      List.length_append, hlen] at hmissing
    exact lt_irrefl _ hmissing

end

end

/-! ### Two calls at once -/

/-- Two batches for run `1`. -/
def twoBatches : Bool → AppendCall := fun second =>
  { events := if second then [("REASONING", .dict [("content", .str "b")])]
      else [("REASONING", .dict [("content", .str "a")])]
    stamp := 2
    events_ne := by cases second <;> exact List.cons_ne_nil _ _ }

/-- The states of a schedule of the two calls. -/
def runBatches (schedule : List (AppendStatement Bool)) :
    Option (List (AppendState Bool × AppendStatement Bool) × AppendState Bool) :=
  trace (step 1 twoBatches) { db := .idle sampleStore, phase := fun _ => .start } schedule

/-- The second call starts once the first has committed. -/
def oneAfterTheOther : List (AppendStatement Bool) :=
  [.selectSeq false, .insert false, .updateSeq false, .touch false, .commit false,
   .selectSeq true, .insert true, .updateSeq true, .touch true, .commit true]

/-- Both calls read `last_seq` before either inserts. -/
def bothReadFirst : List (AppendStatement Bool) :=
  [.selectSeq false, .selectSeq true, .insert false, .updateSeq false, .touch false,
   .commit false, .insert true, .updateSeq true, .touch true, .commit true]

theorem oneAfterTheOther_done : (runBatches oneAfterTheOther).any (fun r =>
    (r.2.phase false).isReturned && (r.2.phase true).isReturned) = true := by
  decide +kernel

theorem appends_tile_oneAfterTheOther :
    ∃ tr t, runBatches oneAfterTheOther = some (tr, t) ∧
      ((∃ order : List Bool, order.Nodup ∧ (∀ i, i ∈ order) ∧
          t.db.committed.Transcript 1 ([] ++ frames twoBatches order)) ↔
        ∀ x ∈ tr, x.1.SeqCurrent 1 x.2) := by
  obtain ⟨⟨tr, t⟩, hrun, hdone⟩ := (Option.any_eq_true _ _).mp oneAfterTheOther_done
  obtain ⟨hfirst, hsecond⟩ := (Bool.and_eq_true _ _).mp hdone
  refine ⟨tr, t, hrun, appends_tile_iff ⟨rfl, fun _ => rfl⟩ sampleStore_transcript
    (Path.of_trace hrun) fun i => ?_⟩
  cases i with
  | false => exact hfirst
  | true => exact hsecond

theorem bothReadFirst_done : (runBatches bothReadFirst).any (fun r =>
    ((r.2.phase false).isReturned && (r.2.phase true).isReturned) &&
      decide ((r.2.db.committed.eventsOf 1).length = 1)) = true := by
  decide +kernel

/-- Two calls that read one `last_seq` lose a frame: both return, and one row is stored. -/
theorem bothReadFirst_loses : sampleStore.Transcript 1 [] ∧
    ∃ tr t, runBatches bothReadFirst = some (tr, t) ∧ t.Done ∧
      ¬ ∃ order : List Bool, order.Nodup ∧ (∀ i, i ∈ order) ∧
        t.db.committed.Transcript 1 ([] ++ frames twoBatches order) := by
  obtain ⟨⟨tr, t⟩, hrun, hends⟩ := (Option.any_eq_true _ _).mp bothReadFirst_done
  obtain ⟨hdone, hone⟩ := (Bool.and_eq_true _ _).mp hends
  obtain ⟨hfirst, hsecond⟩ := (Bool.and_eq_true _ _).mp hdone
  refine ⟨sampleStore_transcript, tr, t, hrun, fun i => ?_, ?_⟩
  · cases i with
    | false => exact hfirst
    | true => exact hsecond
  · rintro ⟨order, hnd, hmem, htr⟩
    have hperm : order.Perm [false, true] :=
      (List.perm_ext_iff_of_nodup hnd (by decide)).mpr fun i =>
        iff_of_true (hmem i) (by cases i <;> simp)
    have hlen : (frames twoBatches order).length = 2 := (hperm.flatMap_right _).length_eq
    have hcount := htr.count
    rw [of_decide_eq_true hone, List.nil_append, hlen] at hcount
    exact absurd hcount (by decide)

end AppendState

end AiTrader.Session
