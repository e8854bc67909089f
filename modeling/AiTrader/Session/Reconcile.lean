import AiTrader.Session.Access

/-! # Reconciliation at the start of the service

What `reconcile_stale_runs` makes of any store, also of one that a dying process left half
written.  The checkpointer answers for each thread whether it has a pending step.

* `find?_reconcile_runs`: the row of every run after the pass.
* `CutShort`: what the pass may do to the messages.
* `reconcile_leaves_no_false_claim`: what is live afterwards is resumable, what had ended is as
  it was, and a second pass finds nothing to do. -/

namespace AiTrader.Session

/-- The row of a run after the pass. -/
def RunRow.reconciled (now : Stamp) (pending : Id → Bool) (r : RunRow) : RunRow :=
  if r.status.live then
    if pending r.threadId then { r with status := .watching, lastEventAt := now }
    else
      { r with
        status := .truncated, terminalStatus := r.terminalStatus.or (some .truncated),
        endedAt := r.endedAt.or (some now), lastEventAt := now }
  else r

/-- The row of a message whose stream has no producer any more. -/
def MessageRow.cutShort (now : Stamp) (m : MessageRow) : MessageRow :=
  { m with status := .truncated, updatedAt := now }

section
variable {now : Stamp} {pending : Id → Bool} {r : RunRow}

theorem RunRow.reconciled_of_ended (h : r.status.live = false) : r.reconciled now pending = r := by
  rw [RunRow.reconciled, if_neg (by simp [h])]

/-- A terminal state once recorded stays. -/
theorem RunRow.reconciled_terminalStatus {st : RunStatus} (h : r.terminalStatus = some st) :
    (r.reconciled now pending).terminalStatus = some st := by
  unfold RunRow.reconciled
  split
  · split
    · exact h
    · simp [h]
  · exact h

theorem RunRow.reconciled_live (h : (r.reconciled now pending).status.live = true) :
    pending (r.reconciled now pending).threadId = true ∧
      (r.reconciled now pending).status = .watching := by
  unfold RunRow.reconciled at h ⊢
  split
  · rename_i hlive
    rw [if_pos hlive] at h
    split
    · rename_i hpending
      exact ⟨hpending, rfl⟩
    · rename_i hpending
      rw [if_neg hpending] at h
      cases h
  · rename_i hlive
    rw [if_neg hlive] at h
    exact absurd h hlive

end

namespace Store

variable {s s' : Store} {now : Stamp} {pending : Id → Bool} {k : Id}

/-! ### The runs -/

theorem find?_reconcileRun (r : RunRow) :
    (reconcileRun now pending s r).runs.find? k = (s.runs.find? k).map fun x =>
      if x.runId = r.runId then
        if pending r.threadId then { x with status := .watching, lastEventAt := now }
        else
          { x with
            status := .truncated, terminalStatus := x.terminalStatus.or (some .truncated),
            endedAt := x.endedAt.or (some now), lastEventAt := now }
      else x := by
  unfold reconcileRun
  split
  · rw [updateRuns, Table.find?_updateWhere]
    simp only [decide_eq_true_eq]
  · rw [updateMessages, updateRuns, Table.find?_updateWhere]
    simp only [decide_eq_true_eq]

theorem find?_foldl_reconcileRun (now : Stamp) (pending : Id → Bool) {live : List RunRow}
    (hnd : (live.map RunRow.runId).Nodup)
    (hstored : ∀ r ∈ live, s.runs.find? r.runId = some r ∧ r.status.live = true) (k : Id) :
    (live.foldl (reconcileRun now pending) s).runs.find? k =
      (s.runs.find? k).map fun x =>
        if x.runId ∈ live.map RunRow.runId then x.reconciled now pending else x := by
  induction live generalizing s with
  | nil => simp
  | cons r live ih =>
      rw [List.map_cons, List.nodup_cons] at hnd
      obtain ⟨⟨hr, hlive⟩, hrest⟩ := List.forall_mem_cons.mp hstored
      have hother : ∀ x ∈ live, x.runId ≠ r.runId := fun x hx hxr =>
        hnd.1 (hxr ▸ List.mem_map_of_mem hx)
      have hstored' : ∀ x ∈ live, (reconcileRun now pending s r).runs.find? x.runId = some x ∧
          x.status.live = true := by
        intro x hx
        rw [find?_reconcileRun, (hrest x hx).1, Option.map_some, if_neg (hother x hx)]
        exact ⟨rfl, (hrest x hx).2⟩
      rw [List.foldl_cons, ih hnd.2 hstored', find?_reconcileRun, Option.map_map]
      cases hx : s.runs.find? k with
      | none => rfl
      | some x =>
          rw [Option.map_some, Option.map_some, Option.some.injEq, Function.comp_apply]
          by_cases hxr : x.runId = r.runId
          · -- the row of this turn, which no later turn meets again
            have hkey : x.runId = k := Table.find?_key hx
            have hsame : x = r := by
              rw [← hkey, hxr, hr] at hx
              exact (Option.some.inj hx).symm
            subst hsame
            have hnot : ∀ y : RunRow, y.runId = x.runId → y.runId ∉ live.map RunRow.runId :=
              fun y hy hmem => hnd.1 (hy ▸ hmem)
            rw [if_pos rfl, if_neg (hnot _ (by split <;> rfl)), List.map_cons,
              if_pos List.mem_cons_self, RunRow.reconciled, if_pos hlive]
          · rw [if_neg hxr]
            simp only [List.map_cons, List.mem_cons, hxr, false_or]

/-- **The runs.** Every run after the pass. -/
theorem find?_reconcile_runs (k : Id) :
    (s.reconcileStaleRuns now pending).2.runs.find? k =
      (s.runs.find? k).map (RunRow.reconciled now pending) := by
  have hsub : (s.runs.rows.filter fun r => r.status.live).Sublist s.runs.rows :=
    List.filter_sublist
  have hloop := find?_foldl_reconcileRun now pending
    (s.runs.nodup.sublist (hsub.map RunRow.runId)) (fun r hr => by
      obtain ⟨hmem, hlive⟩ := List.mem_filter.mp hr
      exact ⟨Table.find?_of_mem hmem rfl, hlive⟩) k
  refine hloop.trans ?_
  cases hx : s.runs.find? k with
  | none => rfl
  | some x =>
      have hmem := Table.mem_of_find? hx
      rw [Option.map_some, Option.map_some, Option.some.injEq]
      cases hlive : x.status.live with
      | true => exact if_pos (List.mem_map_of_mem (List.mem_filter.mpr ⟨hmem, hlive⟩))
      | false =>
          rw [RunRow.reconciled_of_ended hlive, if_neg]
          intro hin
          obtain ⟨y, hy, hyx⟩ := List.mem_map.mp hin
          obtain ⟨hymem, hylive⟩ := List.mem_filter.mp hy
          have hsame : y = x := List.inj_on_of_nodup_map s.runs.nodup hymem hmem hyx
          rw [hsame, hlive] at hylive
          cases hylive

/-! ### The messages -/

/-- Every message is as it was, or was streaming and is truncated. -/
def CutShort (now : Stamp) (s s' : Store) : Prop :=
  ∀ k, s'.messages.find? k = s.messages.find? k ∨
    ∃ m, s.messages.find? k = some m ∧ m.status = .streaming ∧
      s'.messages.find? k = some (m.cutShort now)

theorem CutShort.of_messages (h : s'.messages = s.messages) : CutShort now s s' :=
  fun _ => .inl (by rw [h])

theorem CutShort.trans {u : Store} (h : CutShort now s s') (h' : CutShort now s' u) :
    CutShort now s u := by
  intro k
  rcases h' k with hsame | ⟨m, hm, hstreaming, hcut⟩
  · rw [hsame]
    exact h k
  · rcases h k with hsame | ⟨m', -, -, hcut'⟩
    · exact .inr ⟨m, hsame ▸ hm, hstreaming, hcut⟩
    · -- a truncated message is not streaming, so nothing cuts it again
      rw [hm, Option.some.injEq] at hcut'
      rw [hcut'] at hstreaming
      cases hstreaming

theorem CutShort.updateMessages {p : MessageRow → Bool}
    (hp : ∀ m, p m = true → m.status = .streaming) :
    CutShort now s (s.updateMessages p (MessageRow.cutShort now) (fun _ => rfl)) := by
  intro k
  have hfind : (s.updateMessages p (MessageRow.cutShort now) fun _ => rfl).messages.find? k =
      (s.messages.find? k).map fun m => if p m then m.cutShort now else m :=
    Table.find?_updateWhere s.messages p (MessageRow.cutShort now) (fun _ => rfl) k
  rw [hfind]
  cases hm : s.messages.find? k with
  | none => exact .inl rfl
  | some m =>
      rw [Option.map_some]
      split
      · rename_i hit
        exact .inr ⟨m, rfl, hp m hit, rfl⟩
      · exact .inl rfl

theorem CutShort.reconcileRun (r : RunRow) : CutShort now s (reconcileRun now pending s r) := by
  unfold Store.reconcileRun
  split
  · exact .of_messages rfl
  · refine .trans (.of_messages rfl) (.updateMessages fun m hm => ?_)
    simp only [Bool.and_eq_true, decide_eq_true_eq] at hm
    exact hm.2

theorem CutShort.foldl (rows : List RunRow) :
    CutShort now s (rows.foldl (Store.reconcileRun now pending) s) := by
  induction rows generalizing s with
  | nil => exact .of_messages rfl
  | cons r rows ih => exact .trans (.reconcileRun r) ih

theorem streaming_of_orphaned {m : MessageRow} (h : s.orphaned m = true) :
    m.status = .streaming := by
  simp only [orphaned, Bool.and_eq_true, decide_eq_true_eq] at h
  exact h.1

/-- **The messages.** Every message after the pass. -/
theorem cutShort_reconcile : CutShort now s (s.reconcileStaleRuns now pending).2 :=
  .trans (.foldl _) (.updateMessages fun _ => streaming_of_orphaned)

theorem not_orphaned_reconcile {m : MessageRow}
    (hm : m ∈ (s.reconcileStaleRuns now pending).2.messages.rows) :
    (s.reconcileStaleRuns now pending).2.orphaned m = false := by
  obtain ⟨x, -, rfl⟩ := List.mem_map.mp hm
  split
  · rfl
  · rename_i hkept
    exact eq_false_of_ne_true hkept

theorem any_live_iff {rid : Id} :
    (s.runs.rows.any fun r => decide (r.runId = rid) && r.status.live) = true ↔
      ∃ r, s.runs.find? rid = some r ∧ r.status.live = true := by
  rw [List.any_eq_true]
  constructor
  · rintro ⟨r, hr, hlive⟩
    rw [Bool.and_eq_true, decide_eq_true_eq] at hlive
    exact ⟨r, Table.find?_of_mem hr hlive.1, hlive.2⟩
  · rintro ⟨r, hr, hlive⟩
    exact ⟨r, Table.mem_of_find? hr, by simp [Table.find?_key hr, hlive]⟩

/-- A message that still streams for a run streams for one that is live. -/
theorem live_of_not_orphaned {m : MessageRow} (h : s.orphaned m = false)
    (hm : m.status = .streaming) {rid : Id} (hrid : m.runId = some rid) :
    ∃ r, s.runs.find? rid = some r ∧ r.status.live = true := by
  rw [orphaned, hrid, decide_eq_true hm, Bool.true_and, Option.any_some, Bool.not_eq_false'] at h
  exact any_live_iff.mp h

/-! ### A second pass -/

/-- Two stores in which the same runs are live have the same orphans. -/
theorem orphaned_congr (h : ∀ rid, (∃ r, s'.runs.find? rid = some r ∧ r.status.live = true) ↔
    ∃ r, s.runs.find? rid = some r ∧ r.status.live = true) : s'.orphaned = s.orphaned := by
  funext m
  unfold orphaned
  congr 2
  funext rid
  rw [Bool.eq_iff_iff.mpr (any_live_iff.trans ((h rid).trans any_live_iff.symm))]

theorem foldl_reconcileRun_messages {rows : List RunRow}
    (h : ∀ r ∈ rows, pending r.threadId = true) :
    (rows.foldl (reconcileRun now pending) s).messages = s.messages := by
  induction rows generalizing s with
  | nil => rfl
  | cons r rows ih =>
      obtain ⟨hr, hrest⟩ := List.forall_mem_cons.mp h
      rw [List.foldl_cons, ih hrest, reconcileRun, if_pos hr]
      rfl

/-- Where every live run is resumable and no message is an orphan, a pass finds nothing. -/
theorem reconcile_again (now : Stamp)
    (hlive : ∀ r ∈ s.runs.rows, r.status.live = true → pending r.threadId = true)
    (horphan : ∀ m ∈ s.messages.rows, s.orphaned m = false) :
    (s.reconcileStaleRuns now pending).1 = 0 ∧
      (s.reconcileStaleRuns now pending).2.messages = s.messages := by
  have hpending : ∀ r ∈ s.runs.rows.filter fun r => r.status.live, pending r.threadId = true :=
    fun r hr => hlive r (List.mem_of_mem_filter hr) (List.mem_filter.mp hr).2
  set loop := (s.runs.rows.filter fun r => r.status.live).foldl (reconcileRun now pending) s
    with hloop
  have hmessages : loop.messages = s.messages := foldl_reconcileRun_messages hpending
  have horphaned : loop.orphaned = s.orphaned := by
    refine orphaned_congr fun rid => ?_
    have hrid : loop.runs.find? rid = (s.runs.find? rid).map (RunRow.reconciled now pending) :=
      find?_reconcile_runs rid
    rw [hrid]
    cases hr : s.runs.find? rid with
    | none => simp
    | some r =>
        simp only [Option.map_some, Option.some.injEq, exists_eq_left']
        cases hended : r.status.live with
        | false => rw [RunRow.reconciled_of_ended hended, hended]
        | true =>
            have hwaits := hlive r (Table.mem_of_find? hr) hended
            rw [RunRow.reconciled, if_pos hended, if_pos hwaits]
            rfl
  have hnone : ∀ m ∈ loop.messages.rows, loop.orphaned m = false := by
    rw [hmessages, horphaned]
    exact horphan
  constructor
  · show (List.filter _ _).length + (loop.messages.rows.filter loop.orphaned).length = 0
    rw [List.filter_eq_nil_iff.mpr fun r hr => by simp [hpending r hr],
      List.filter_eq_nil_iff.mpr fun m hm => by simp [hnone m hm]]
    rfl
  · refine Table.ext ?_
    show loop.messages.rows.map _ = s.messages.rows
    rw [← hmessages]
    refine (List.map_congr_left fun m hm => ?_).trans (List.map_id _)
    exact if_neg (ne_true_of_eq_false (hnone m hm))

end Store

/-! ### No false claim of liveness -/

open Store in
/-- **Reconciliation.** After the pass over any store, with any answers of the checkpointer:
every live run is `watching` and its thread has a pending step; every streaming message of a run
belongs to such a run; what had ended has the status it had, a terminal state once recorded
stays, and every content is as it was; a second pass with the same answers returns 0 and changes
no status. -/
theorem reconcile_leaves_no_false_claim (s : Store) (now later : Stamp) (pending : Id → Bool) :
    let s' := (s.reconcileStaleRuns now pending).2
    let s'' := (s'.reconcileStaleRuns later pending).2
    (∀ r ∈ s'.runs.rows, r.status.live = true →
        pending r.threadId = true ∧ r.status = .watching) ∧
      (∀ m ∈ s'.messages.rows, m.status = .streaming → ∀ rid ∈ m.runId,
        ∃ r ∈ s'.runs.rows, r.runId = rid ∧ pending r.threadId = true ∧ r.status = .watching) ∧
      (∀ rid r, s.runs.find? rid = some r → r.status.live = false →
        s'.runs.find? rid = some r) ∧
      (∀ rid r st, s.runs.find? rid = some r → r.terminalStatus = some st →
        ∃ r', s'.runs.find? rid = some r' ∧ r'.terminalStatus = some st) ∧
      (∀ mid m, s.messages.find? mid = some m → ∃ m', s'.messages.find? mid = some m' ∧
        m'.content = m.content ∧ (m.status ≠ .streaming → m'.status = m.status)) ∧
      (s'.reconcileStaleRuns later pending).1 = 0 ∧
      (∀ rid, (s''.runs.find? rid).map RunRow.status = (s'.runs.find? rid).map RunRow.status) ∧
      s''.messages = s'.messages := by
  intro s' s''
  have hlive : ∀ r ∈ s'.runs.rows, r.status.live = true →
      pending r.threadId = true ∧ r.status = .watching := by
    intro r hr hlive
    have hfind : s'.runs.find? r.runId = _ := find?_reconcile_runs r.runId
    rw [Table.find?_of_mem hr rfl] at hfind
    obtain ⟨x, -, hx⟩ := Option.map_eq_some_iff.mp hfind.symm
    rw [← hx] at hlive ⊢
    exact RunRow.reconciled_live hlive
  have horphan : ∀ m ∈ s'.messages.rows, s'.orphaned m = false := fun m hm =>
    not_orphaned_reconcile hm
  have hagain := reconcile_again later (fun r hr h => (hlive r hr h).1) horphan
  refine ⟨hlive, ?_, ?_, ?_, ?_, hagain.1, ?_, hagain.2⟩
  · intro m hm hstreaming rid hrid
    obtain ⟨r, hr, hrlive⟩ := live_of_not_orphaned (horphan m hm) hstreaming hrid
    have hmem := Table.mem_of_find? hr
    exact ⟨r, hmem, Table.find?_key hr, hlive r hmem hrlive⟩
  · intro rid r hr hended
    rw [show s'.runs.find? rid = _ from find?_reconcile_runs rid, hr, Option.map_some,
      RunRow.reconciled_of_ended hended]
  · intro rid r st hr hst
    exact ⟨_, (find?_reconcile_runs rid).trans (congrArg _ hr), RunRow.reconciled_terminalStatus hst⟩
  · intro mid m hm
    have hshort : CutShort now s s' := cutShort_reconcile
    rcases hshort mid with hsame | ⟨x, hx, hstreaming, hcut⟩
    · exact ⟨m, hsame.trans hm, rfl, fun _ => rfl⟩
    · rw [hm, Option.some.injEq] at hx
      subst hx
      exact ⟨m.cutShort now, hcut, rfl, fun hne => absurd hstreaming hne⟩
  · intro rid
    rw [show s''.runs.find? rid = _ from find?_reconcile_runs rid, Option.map_map]
    cases hr : s'.runs.find? rid with
    | none => rfl
    | some r =>
        rw [Option.map_some, Option.map_some, Option.some.injEq, Function.comp_apply]
        cases hrlive : r.status.live with
        | false => rw [RunRow.reconciled_of_ended hrlive]
        | true =>
            obtain ⟨hpending, hwatching⟩ := hlive r (Table.mem_of_find? hr) hrlive
            rw [RunRow.reconciled, if_pos hrlive, if_pos hpending, hwatching]

end AiTrader.Session
