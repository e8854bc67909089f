import AiTrader.Library.Transition
import AiTrader.Session.Service

/-! # Deleted sessions

After a `DELETE` of a session has succeeded, its row says so for good (`Deleted`): a store write
does not look at it, and a patch is refused before it writes.  Every route that reads the session
first is then silent about it (`Silent`).  The transcript of a run is guarded by the run alone.

* `deleted_silent_iff`: after the `DELETE`, the answers of a whole run of the service are silent
  exactly when nobody asks for the transcript of a run of the session that is still stored.
* `hard_deleted_silent`: a hard delete leaves no such run. -/

namespace AiTrader.Session

open Transition

namespace Store

/-- The session is marked as deleted. -/
def Deleted (s : Store) (sid : Id) : Prop := ∃ uid, s.standing sid = some (uid, .deleted)

section
variable {C : Text.Casing} {s s' : Store} {now : Stamp} {userId : String} {sid : Id}

theorem Deleted.row (h : s.Deleted sid) :
    ∃ row, s.sessions.find? sid = some row ∧ row.status = .deleted := by
  obtain ⟨uid, h⟩ := h
  obtain ⟨row, hrow, heq⟩ := Option.map_eq_some_iff.mp h
  exact ⟨row, hrow, (Prod.ext_iff.mp heq).2⟩

theorem deleted_of_row {r : SessionRow} (h : s.sessions.find? sid = some r)
    (hst : r.status = .deleted) : s.Deleted sid :=
  ⟨r.userId, by rw [standing, h, Option.map_some, hst]⟩

theorem Edit.deleted (h : Edit now userId s s') (hd : s.Deleted sid) : s'.Deleted sid := by
  obtain ⟨row, hrow, hst⟩ := hd.row
  cases h with
  | none => exact hd
  | create new huser hid hsessions =>
      refine deleted_of_row ?_ hst
      rw [hsessions]
      exact Table.find?_insertIgnore_of_some hrow
  | patch k uid live p huser howned hlive hstatus =>
      have hk : sid ≠ k := by
        rintro rfl
        rw [ownedSession_eq_some, hrow] at howned
        exact hlive (Option.some.inj howned.1 ▸ hst)
      refine deleted_of_row ?_ hst
      rw [find?_editSession, if_neg hk]
      exact hrow
  | softDelete k uid timeframe huser howned =>
      by_cases hk : sid = k
      · refine deleted_of_row (r := if row.userId = uid then
          SessionPatch.apply { status := some .deleted, timeframe } now row else row) ?_ ?_
        · rw [find?_editSession, if_pos hk, hrow]
          rfl
        · split
          · rfl
          · exact hst
      · refine deleted_of_row ?_ hst
        rw [find?_editSession, if_neg hk]
        exact hrow
  | hardDelete k uid huser howned =>
      have hrow' : (s.dropContent k).sessions.find? sid = some row := hrow
      by_cases hk : sid = k
      · refine deleted_of_row (r := if row.userId = uid then tombstone now row else row) ?_ ?_
        · rw [find?_editSession, if_pos hk, hrow']
          rfl
        · split
          · rfl
          · exact hst
      · refine deleted_of_row ?_ hst
        rw [find?_editSession, if_neg hk]
        exact hrow'

theorem deleted_deleteRoute {hard : Bool} {r : Response}
    (h : s.deleteRoute now userId sid hard = (.ok r, s')) : s'.Deleted sid := by
  unfold deleteRoute at h
  split at h
  · cases h
  · cases h
  · rename_i row s₁ hdel
    cases h
    obtain ⟨-, hnone⟩ | ⟨uid, -, howned, hr, hcase⟩ := deleteSession_cases hdel
    · cases hnone
    · obtain ⟨own, hown⟩ := Option.isSome_iff_exists.mp howned
      obtain ⟨hfind, huid⟩ := ownedSession_eq_some.mp hown
      have hfind' : (s.dropContent sid).sessions.find? sid = some own := hfind
      obtain ⟨-, rfl⟩ | ⟨-, timeframe, rfl⟩ := hcase
      · refine deleted_of_row (r := tombstone now own) ?_ rfl
        rw [find?_editSession, if_pos rfl, hfind', Option.map_some, if_pos huid]
      · refine deleted_of_row
          (r := SessionPatch.apply { status := some .deleted, timeframe } now own) ?_ rfl
        rw [find?_editSession, if_pos rfl, hfind, Option.map_some, if_pos huid]

theorem visibleSession_deleted (hd : s.Deleted sid) {uid : String}
    (huid : required userId "user_id" = .ok uid) :
    s.visibleSession sid userId = .error notFound := by
  obtain ⟨row, hrow, hst⟩ := hd.row
  rw [visibleSession_eq huid]
  cases howned : s.ownedSession sid uid with
  | none => rfl
  | some own =>
      rw [ownedSession_eq_some, hrow] at howned
      obtain ⟨hown, -⟩ := howned
      cases hown
      exact if_pos hst

theorem visibleSession_unknown {e : StoreError} (he : required userId "user_id" = .error e) :
    s.visibleSession sid userId = .error (serverError e) := by
  rw [visibleSession, getSessionForUser, he]
  rfl

end

end Store

/-! ### Silence -/

/-- What a caller is told about a thing that is not there. -/
def refusal (user : Option VerifiedUser) (e : HttpError) : HttpError :=
  match user with
  | none => ⟨401, "authentication required"⟩
  | some u =>
      match required u.id "user_id" with
      | .error err => serverError err
      | .ok _ => e

theorem refusal_of_ok {u : VerifiedUser} {uid : String} (h : required u.id "user_id" = .ok uid)
    (e : HttpError) : refusal (some u) e = e := by
  rw [refusal, h]

theorem refusal_of_error {u : VerifiedUser} {err : StoreError}
    (h : required u.id "user_id" = .error err) (e : HttpError) :
    refusal (some u) e = serverError err := by
  rw [refusal, h]

/-- The answer tells nothing about the session, of which `runs` are the runs. -/
def Silent (C : Text.Casing) (sid : Id) (runs : List Id) (s : Store) (c : ApiCall) : Prop :=
  match c.request with
  | .patchSession id _ | .read (.getSession id) | .read (.listMessages id _ _)
  | .read (.listRuns id) => id = sid → c.answer C s = .error (refusal c.user notFound)
  | .read (.listRunEvents rid _ _) =>
      rid ∈ runs → c.answer C s = .error (refusal c.user runNotFound)
  | .read (.listSessions ..) =>
      ∀ items next, c.answer C s = .ok (.sessions items next) →
        (∀ x ∈ items, x.sessionId ≠ sid) ∧ ∀ cursor ∈ next, cursor.sessionId ≠ sid
  | _ => True

/-- Its user asks for the transcript of one of the runs, which is still stored. -/
def AsksTranscript (runs : List Id) (s : Store) (c : ApiCall) : Prop :=
  ∃ rid afterSeq limit u r, c.request = .read (.listRunEvents rid afterSeq limit) ∧ rid ∈ runs ∧
    c.user = some u ∧ s.runs.find? rid = some r ∧ required u.id "user_id" = .ok r.userId

section
variable {C : Text.Casing} {s s' t : Store} {sid : Id} {runs : List Id} {c : ApiCall}

theorem answer_deleted (hd : s.Deleted sid)
    (hread : c.request = .read (.getSession sid) ∨
      (∃ after limit, c.request = .read (.listMessages sid after limit)) ∨
      c.request = .read (.listRuns sid) ∨ ∃ p, c.request = .patchSession sid p) :
    c.answer C s = .error (refusal c.user notFound) := by
  unfold ApiCall.answer Store.handle refusal
  cases c.user with
  | none => rfl
  | some u =>
      have hvis : s.visibleSession sid u.id = .error (match required u.id "user_id" with
          | .error err => serverError err
          | .ok _ => notFound) := by
        cases huid : required u.id "user_id" with
        | error e => exact Store.visibleSession_unknown huid
        | ok uid => exact Store.visibleSession_deleted hd huid
      obtain h | ⟨after, limit, h⟩ | h | ⟨p, h⟩ := hread
      · rw [h]
        show s.answer C u.id (.getSession sid) = _
        rw [Store.answer, hvis]
        rfl
      · rw [h]
        show s.answer C u.id (.listMessages sid after limit) = _
        rw [Store.answer, hvis]
        rfl
      · rw [h]
        show s.answer C u.id (.listRuns sid) = _
        rw [Store.answer, hvis]
        rfl
      · rw [h]
        show (s.patchSession c.now u.id sid p).1 = _
        rw [Store.patchSession, Store.patchOf, hvis]
        rfl

theorem answer_listSessions (hd : s.Deleted sid) {status : Option String}
    {cursor : Option Store.Cursor} {limit : PageLimit 100} {query : Option String}
    (hread : c.request = .read (.listSessions status cursor limit query))
    {items : List SessionSummary} {next : Option Store.Cursor}
    (h : c.answer C s = .ok (.sessions items next)) :
    (∀ x ∈ items, x.sessionId ≠ sid) ∧ ∀ cursor ∈ next, cursor.sessionId ≠ sid := by
  unfold ApiCall.answer Store.handle at h
  cases hu : c.user with
  | none =>
      rw [hu] at h
      cases h
  | some u =>
      rw [hu, hread] at h
      replace h : s.answer C u.id (.listSessions status cursor limit query) =
          .ok (.sessions items next) := h
      rw [Store.answer] at h
      cases hst : listableStatus status with
      | none =>
          rw [hst] at h
          cases h
      | some st =>
        rw [hst] at h
        obtain ⟨⟨page, cur⟩, hpage, h⟩ := Fallible.bind_eq_ok.mp h
        obtain ⟨shown, hshown, h⟩ := Fallible.bind_eq_ok.mp h
        cases h
        obtain ⟨uid, -, hmem, hcur⟩ := Store.listSessions_eq_ok (Fallible.mapError_eq_ok.mp hpage)
        obtain ⟨row, hrow, hdel⟩ := hd.row
        have hne : ∀ r ∈ page, r.sessionId ≠ sid := by
          intro r hr hsid
          obtain ⟨hstored, hmatch⟩ := Store.mem_matchingSessions.mp (hmem r hr)
          rw [Table.find?_of_mem hstored hsid, Option.some.injEq] at hrow
          simp only [Store.sessionMatches, Store.statusMatches, Bool.and_eq_true,
            decide_eq_true_eq] at hmatch
          exact Store.listableStatus_ne_deleted hst (hmatch.1.1.2 ▸ hrow ▸ hdel)
        refine ⟨fun x hx => ?_, fun k hk => ?_⟩
        · obtain ⟨r, hr, hsum⟩ := Fallible.mem_of_mapM_eq_ok hshown x hx
          rw [Store.summarise_sessionId hsum]
          exact hne r hr
        · obtain ⟨r, hr, rfl⟩ := hcur k hk
          exact hne r hr

/-- The transcript route is silent about a run exactly when its user does not ask for it. -/
theorem answer_listRunEvents {rid : Id} {afterSeq : ℕ} {limit : PageLimit 5000}
    (hread : c.request = .read (.listRunEvents rid afterSeq limit)) (hmem : rid ∈ runs) :
    c.answer C s = .error (refusal c.user runNotFound) ↔ ¬ AsksTranscript runs s c := by
  have hasks : AsksTranscript runs s c ↔
      ∃ u r, c.user = some u ∧ s.runs.find? rid = some r ∧
        required u.id "user_id" = .ok r.userId := by
    constructor
    · rintro ⟨rid', after', limit', u, r, hreq, -, hu, hr, huid⟩
      rw [hread] at hreq
      cases hreq
      exact ⟨u, r, hu, hr, huid⟩
    · rintro ⟨u, r, hu, hr, huid⟩
      exact ⟨rid, afterSeq, limit, u, r, hread, hmem, hu, hr, huid⟩
  rw [hasks]
  cases hu : c.user with
  | none =>
      refine iff_of_true ?_ (by simp)
      rw [ApiCall.answer, Store.handle, hu]
      rfl
  | some u =>
      have hanswer : c.answer C s = s.answer C u.id (.listRunEvents rid afterSeq limit) := by
        rw [ApiCall.answer, Store.handle, hu, hread]
        rfl
      rw [hanswer]
      cases huid : required u.id "user_id" with
      | error e =>
          rw [refusal_of_error huid, Store.answer_transcript_unknown huid]
          refine iff_of_true rfl ?_
          rintro ⟨v, r, hv, -, hok⟩
          cases hv
          rw [huid] at hok
          cases hok
      | ok uid =>
          rw [refusal_of_ok huid, Store.answer_transcript huid]
          cases hfound : (s.runs.find? rid).filter fun r => decide (r.userId = uid) with
          | none =>
              refine iff_of_true rfl ?_
              rintro ⟨v, r, hv, hr, hok⟩
              cases hv
              rw [huid] at hok
              cases hok
              rw [hr] at hfound
              simp [Option.filter] at hfound
          | some r =>
              rw [Option.filter_eq_some_iff, decide_eq_true_eq] at hfound
              obtain ⟨hr, rfl⟩ := hfound
              exact iff_of_false (fun herr => by cases herr) fun hnot => hnot ⟨u, r, rfl, hr, huid⟩

/-- Once a session is deleted, the answer to a request is silent about it unless the request asks
for the transcript of a stored run of the session. -/
theorem silent_iff (hd : s.Deleted sid) : Silent C sid runs s c ↔ ¬ AsksTranscript runs s c := by
  have hother : (∀ rid after limit, c.request ≠ .read (.listRunEvents rid after limit)) →
      ¬ AsksTranscript runs s c := by
    rintro hne ⟨rid, after, limit, u, r, hreq, -⟩
    exact hne rid after limit hreq
  unfold Silent
  cases hreq : c.request with
  | createSession p => exact iff_of_true trivial (hother fun _ _ _ => by rw [hreq]; nofun)
  | deleteSession id hard => exact iff_of_true trivial (hother fun _ _ _ => by rw [hreq]; nofun)
  | patchSession id p =>
      refine iff_of_true ?_ (hother fun _ _ _ => by rw [hreq]; nofun)
      rintro rfl
      exact answer_deleted hd (.inr (.inr (.inr ⟨p, hreq⟩)))
  | read r =>
      cases r with
      | listSessions status cursor limit query =>
          refine iff_of_true ?_ (hother fun _ _ _ => by rw [hreq]; nofun)
          exact fun items next h => answer_listSessions hd hreq h
      | getSession id =>
          refine iff_of_true ?_ (hother fun _ _ _ => by rw [hreq]; nofun)
          rintro rfl
          exact answer_deleted hd (.inl hreq)
      | listMessages id after limit =>
          refine iff_of_true ?_ (hother fun _ _ _ => by rw [hreq]; nofun)
          rintro rfl
          exact answer_deleted hd (.inr (.inl ⟨after, limit, hreq⟩))
      | listRuns id =>
          refine iff_of_true ?_ (hother fun _ _ _ => by rw [hreq]; nofun)
          rintro rfl
          exact answer_deleted hd (.inr (.inr (.inl hreq)))
      | listRunEvents rid after limit =>
          by_cases hmem : rid ∈ runs
          · rw [← answer_listRunEvents hreq hmem]
            exact ⟨fun h => h hmem, fun h _ => h⟩
          · refine iff_of_true (fun h => absurd h hmem) ?_
            rintro ⟨rid', after', limit', u, r, hreq', hmem', -⟩
            rw [hreq] at hreq'
            cases hreq'
            exact hmem hmem'

/-! ### Runs of the service -/

variable {a : Action} {tr : List (Store × Action)} {now : Stamp} {user : Option VerifiedUser}
  {hard : Bool} {r : Response}

theorem Action.deleted (h : a.step C s = some s') (hd : s.Deleted sid) : s'.Deleted sid := by
  cases a with
  | request c =>
      cases h
      obtain hsame | ⟨u, -, hedit⟩ := c.edit C s
      · rw [hsame]
        exact hd
      · exact hedit.deleted hd
  | write now w =>
      cases h
      obtain ⟨uid, huid⟩ := hd
      exact ⟨uid, (w.standing_exec C s now sid).trans huid⟩

/-- The runs of a session. -/
def Store.runIds (s : Store) (sid : Id) : List Id :=
  (s.runs.rows.filter fun r => decide (r.sessionId = sid)).map RunRow.runId

/-- **Deleted sessions.** After a `DELETE` of a session that succeeded, whatever the service does,
every answer is silent about the session exactly when no request asks, for its own user, for the
transcript of a run of the session that is still stored. -/
theorem deleted_silent_iff
    (hdel : s.handle C now user (.deleteSession sid hard) = (.ok r, s'))
    (hrun : Path (Action.step C) s' tr t) :
    (∀ x ∈ tr, ∀ c, x.2 = .request c → Silent C sid (s.runIds sid) x.1 c) ↔
      ∀ x ∈ tr, ∀ c, x.2 = .request c → ¬ AsksTranscript (s.runIds sid) x.1 c := by
  have hd : s'.Deleted sid := by
    unfold Store.handle at hdel
    cases user with
    | none => cases hdel
    | some u => exact Store.deleted_deleteRoute hdel
  have hall := (hrun.invariant (I := fun x => x.Deleted sid)
    (fun _ _ _ _ hx h => Action.deleted h hx) hd).1
  exact forall₂_congr fun x hx => forall₂_congr fun c _ => silent_iff (hall x hx)

/-! ### Hard deletes -/

/-- The runs were stored once and are stored no more. -/
def RunsGone (runs : List Id) (s : Store) : Prop :=
  ∀ rid ∈ runs, s.runs.find? rid = none ∧ rid < s.nextId

theorem runLink_eq_none {rid : Id} : s.runLink rid = none ↔ s.runs.find? rid = none :=
  Option.map_eq_none_iff

theorem Store.Edit.runsGone {userId : String} (h : Store.Edit now userId s s')
    (hg : RunsGone runs s) : RunsGone runs s' := by
  intro rid hrid
  obtain ⟨hnone, hlt⟩ := hg rid hrid
  cases h with
  | none => exact ⟨hnone, hlt⟩
  | create row huser hid hsessions hruns hmessages hevents hnext =>
      rw [hruns, hnext]
      exact ⟨hnone, Nat.lt_succ_of_lt hlt⟩
  | patch => exact ⟨hnone, hlt⟩
  | softDelete => exact ⟨hnone, hlt⟩
  | hardDelete k uid =>
      refine ⟨Table.find?_eq_none.mpr fun r hr => ?_, hlt⟩
      exact Table.find?_eq_none.mp hnone r (List.mem_of_mem_filter hr)

theorem Action.runsGone (h : a.step C s = some s') (hg : RunsGone runs s) : RunsGone runs s' := by
  cases a with
  | request c =>
      cases h
      obtain hsame | ⟨u, -, hedit⟩ := c.edit C s
      · rw [hsame]
        exact hg
      · exact hedit.runsGone hg
  | write now w =>
      cases h
      intro rid hrid
      obtain ⟨hnone, hlt⟩ := hg rid hrid
      obtain ⟨hlink, hnext⟩ := w.runLink_exec C s now hlt
      rw [← runLink_eq_none, hlink, runLink_eq_none]
      exact ⟨hnone, hlt.trans_le hnext⟩

/-- After a hard delete all answers are silent. -/
theorem hard_deleted_silent
    (hdel : s.handle C now user (.deleteSession sid true) = (.ok r, s'))
    (hrun : Path (Action.step C) s' tr t) :
    ∀ x ∈ tr, ∀ c, x.2 = .request c → Silent C sid (s.runIds sid) x.1 c := by
  have hgone : RunsGone (s.runIds sid) s' := by
    intro rid hrid
    obtain ⟨run, hmem, rfl⟩ := List.mem_map.mp hrid
    obtain ⟨hstored, hsid⟩ := List.mem_filter.mp hmem
    unfold Store.handle at hdel
    cases user with
    | none => cases hdel
    | some u =>
        replace hdel : s.deleteRoute now u.id sid true = (.ok r, s') := hdel
        unfold Store.deleteRoute at hdel
        split at hdel
        · cases hdel
        · cases hdel
        · rename_i row s₁ hcall
          cases hdel
          obtain ⟨-, hnone⟩ | ⟨uid, -, -, -, ⟨-, rfl⟩ | ⟨hsoft, -⟩⟩ :=
            Store.deleteSession_cases hcall
          · cases hnone
          · refine ⟨Table.find?_eq_none.mpr fun x hx hkey => ?_, s.runs_minted run hstored⟩
            -- the run that would be left is the dropped one
            obtain ⟨hx, hkept⟩ := List.mem_filter.mp hx
            have hsame : x = run := List.inj_on_of_nodup_map s.runs.nodup hx hstored hkey
            subst hsame
            simp [hsid] at hkept
          · cases hsoft
  have hall := (hrun.invariant (I := RunsGone (s.runIds sid))
    (fun _ _ _ _ hx h => Action.runsGone h hx) hgone).1
  rw [deleted_silent_iff hdel hrun]
  rintro x hx c - ⟨rid, after, limit, u, run, -, hmem, -, hrun', -⟩
  rw [(hall x hx rid hmem).1] at hrun'
  cases hrun'

end

/-! ### The owner reads on -/

/-- The sample run with one recorded frame. -/
def recordedStore : Store :=
  sampleStore.after
    (sampleStore.appendRunEvents 2 1 [("REASONING", .dict [("content", .str "a")])])

/-- Its session after a soft delete. -/
def softDeleted : Store :=
  (recordedStore.handle Text.Casing.ascii 3 (some sampleUser) (.deleteSession 0 false)).2

/-- A request for the transcript of the run. -/
def readTranscript : ApiCall :=
  { now := 4, user := some sampleUser,
    request := .read (.listRunEvents 1 0 ⟨1000, by decide, by decide⟩) }

theorem recordedStore_softDelete :
    (recordedStore.handle Text.Casing.ascii 3 (some sampleUser) (.deleteSession 0 false)).1 =
      .ok (.deleted 0 .deleted false) := by
  rfl

theorem deleted_silent_readTranscript :
    (∀ x ∈ [(softDeleted, Action.request readTranscript)], ∀ c, x.2 = .request c →
        Silent Text.Casing.ascii 0 (recordedStore.runIds 0) x.1 c) ↔
      ∀ x ∈ [(softDeleted, Action.request readTranscript)], ∀ c, x.2 = .request c →
        ¬ AsksTranscript (recordedStore.runIds 0) x.1 c :=
  deleted_silent_iff (Prod.ext recordedStore_softDelete rfl) (.snoc .nil rfl)

/-- The transcript of a run of a deleted session is served. -/
theorem deleted_session_serves_transcript :
    (recordedStore.handle Text.Casing.ascii 3 (some sampleUser) (.deleteSession 0 false)).1 =
        .ok (.deleted 0 .deleted false) ∧
      1 ∈ recordedStore.runIds 0 ∧
      readTranscript.answer Text.Casing.ascii softDeleted =
        .ok (.events [(1, ("REASONING", .dict [("content", .str "a")]))] 1) := by
  refine ⟨recordedStore_softDelete, ?_, ?_⟩
  · decide +kernel
  · rfl

end AiTrader.Session
