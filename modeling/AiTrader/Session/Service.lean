import AiTrader.Session.Api

/-! # The store under the whole service

Besides the routes of the session surface, the store is written by the analysis routes, by the
persister of each leg and by the pass at startup (`StoreWrite`).  An `Action` is one of those
writes or one request.

What an action does is followed through the columns that the other modules need: who owns
a session and whether it is deleted (`standing`), which session and user a run belongs to
(`runLink`), and where a message stands (`messageLink`).  A store write moves none of them; it
adds runs under a live session of their user and messages behind the last one. -/

namespace AiTrader.Session

open Text

/-! ### Actions -/

/-- The writes of the rest of the service. -/
inductive StoreWrite where
  | createRun (q : Store.RunRequest)
  | updateRunStatus (rid : Id) (status : RunStatus)
  | finalizeRun (rid : Id) (terminal : RunStatus)
  | appendRunEvents (rid : Id) (events : List (String × PyVal))
  | createMessage (q : Store.MessageRequest)
  | appendMessageDelta (mid : Id) (delta : String)
  | finalizeMessage (mid : Id) (status : MessageStatus) (content errorDetail : Option String)
  | reconcileStaleRuns (pending : Id → Bool)
  | pruneRunEvents (window : Stamp)

/-- A request with its caller and the time it is handled at. -/
structure ApiCall where
  now : Stamp
  user : Option VerifiedUser
  request : Request

inductive Action where
  | request (c : ApiCall)
  | write (now : Stamp) (w : StoreWrite)

namespace Store

/-- The store after a call; an error has rolled back. -/
def after {α : Type} (s : Store) (x : Except StoreError (α × Store)) : Store :=
  match x with
  | .ok (_, s') => s'
  | .error _ => s

end Store

section
variable (C : Casing)

def StoreWrite.exec (s : Store) (now : Stamp) : StoreWrite → Store
  | createRun q => s.after (s.createRun C now q)
  | updateRunStatus rid status => s.after (s.updateRunStatus now rid status)
  | finalizeRun rid terminal => s.after (s.finalizeRun now rid terminal)
  | appendRunEvents rid events => s.after (s.appendRunEvents now rid events)
  | createMessage q => s.after (s.createMessage now q)
  | appendMessageDelta mid delta => s.after (s.appendMessageDelta now mid delta)
  | finalizeMessage mid status content detail =>
      s.after (s.finalizeMessage now mid status content detail)
  | reconcileStaleRuns pending => (s.reconcileStaleRuns now pending).2
  | pruneRunEvents window => s.pruneRunEvents now window

/-- The answer to a request. -/
def ApiCall.answer (c : ApiCall) (s : Store) : Except HttpError Response :=
  (s.handle C c.now c.user c.request).1

/-- The store a request leaves. -/
def ApiCall.exec (c : ApiCall) (s : Store) : Store := (s.handle C c.now c.user c.request).2

/-- One action; it can always be taken. -/
def Action.step (s : Store) : Action → Option Store
  | request c => some (c.exec C s)
  | write now w => some (w.exec C s now)

end

namespace Store

/-! ### What is followed -/

/-- Owner and status of a session. -/
def standing (s : Store) (sid : Id) : Option (String × SessionStatus) :=
  (s.sessions.find? sid).map fun r => (r.userId, r.status)

/-- Session and user of a run. -/
def runLink (s : Store) (rid : Id) : Option (Id × String) :=
  (s.runs.find? rid).map fun r => (r.sessionId, r.userId)

/-- Session, run and number of a message. -/
def messageLink (s : Store) (mid : Id) : Option (Id × Option Id × ℕ) :=
  (s.messages.find? mid).map fun m => (m.sessionId, m.runId, m.seq)

/-- Two stores that agree on all of it. -/
structure SameLinks (s s' : Store) : Prop where
  standing : ∀ sid, s'.standing sid = s.standing sid
  runLink : ∀ rid, s'.runLink rid = s.runLink rid
  messageLink : ∀ mid, s'.messageLink mid = s.messageLink mid
  nextId : s'.nextId = s.nextId

section
variable {s s' s'' : Store} {now : Stamp} {rid sid mid : Id}

theorem SameLinks.refl (s : Store) : SameLinks s s :=
  ⟨fun _ => rfl, fun _ => rfl, fun _ => rfl, rfl⟩

theorem SameLinks.trans (h : SameLinks s s') (h' : SameLinks s' s'') : SameLinks s s'' :=
  ⟨fun k => (h'.standing k).trans (h.standing k), fun k => (h'.runLink k).trans (h.runLink k),
    fun k => (h'.messageLink k).trans (h.messageLink k), h'.nextId.trans h.nextId⟩

theorem sameLinks_updateSessions {p : SessionRow → Bool} {f : SessionRow → SessionRow}
    (hf : ∀ r, (f r).sessionId = r.sessionId)
    (h : ∀ r, (f r).userId = r.userId ∧ (f r).status = r.status) :
    SameLinks s (s.updateSessions p f hf) :=
  ⟨fun sid => Table.map_find?_updateWhere s.sessions p hf
      (fun r => Prod.ext (h r).1 (h r).2) sid, fun _ => rfl, fun _ => rfl, rfl⟩

theorem sameLinks_touch (s : Store) (sid : Id) (now : Stamp) : SameLinks s (s.touch sid now) := by
  show SameLinks s (s.updateSessions (fun r => r.sessionId = sid)
    (fun r => { r with updatedAt := now }) (fun _ => rfl))
  exact sameLinks_updateSessions _ fun _ => ⟨rfl, rfl⟩

theorem sameLinks_updateRuns {p : RunRow → Bool} {f : RunRow → RunRow}
    (hf : ∀ r, (f r).runId = r.runId)
    (h : ∀ r, (f r).sessionId = r.sessionId ∧ (f r).userId = r.userId) :
    SameLinks s (s.updateRuns p f hf) :=
  ⟨fun _ => rfl, fun rid => Table.map_find?_updateWhere s.runs p hf
      (fun r => Prod.ext (h r).1 (h r).2) rid, fun _ => rfl, rfl⟩

theorem sameLinks_updateMessages {p : MessageRow → Bool} {f : MessageRow → MessageRow}
    (hf : ∀ r, (f r).messageId = r.messageId)
    (h : ∀ m, (f m).sessionId = m.sessionId ∧ (f m).runId = m.runId ∧ (f m).seq = m.seq) :
    SameLinks s (s.updateMessages p f hf) :=
  ⟨fun _ => rfl, fun _ => rfl, fun mid => Table.map_find?_updateWhere s.messages p hf
      (fun m => Prod.ext (h m).1 (Prod.ext (h m).2.1 (h m).2.2)) mid, rfl⟩

theorem sameLinks_runEvents (s : Store) (events : Table EventRow.key) :
    SameLinks s { s with runEvents := events } :=
  ⟨fun _ => rfl, fun _ => rfl, fun _ => rfl, rfl⟩

/-! ### Writes that only change rows in place -/

theorem sameLinks_after {α : Type} {x : Except StoreError (α × Store)}
    (h : ∀ a s', x = .ok (a, s') → SameLinks s s') : SameLinks s (s.after x) := by
  cases hx : x with
  | error e => exact .refl s
  | ok r => exact h r.1 r.2 hx

theorem sameLinks_updateRunStatus (status : RunStatus) :
    SameLinks s (s.after (s.updateRunStatus now rid status)) := by
  refine sameLinks_after fun b s' h => ?_
  unfold updateRunStatus at h
  split_ifs at h
  cases h
  exact sameLinks_updateRuns _ fun _ => ⟨rfl, rfl⟩

theorem sameLinks_finalizeRun (terminal : RunStatus) :
    SameLinks s (s.after (s.finalizeRun now rid terminal)) := by
  refine sameLinks_after fun b s' h => ?_
  have hup : SameLinks s (s.updateRuns (fun r => decide (r.runId = rid) && r.terminalStatus.isNone)
      (fun r => { r with
        status := terminal, terminalStatus := some terminal,
        endedAt := some now, lastEventAt := now }) (fun _ => rfl)) :=
    sameLinks_updateRuns _ fun _ => ⟨rfl, rfl⟩
  unfold finalizeRun at h
  split_ifs at h
  dsimp only at h
  split at h
  · split_ifs at h
    · cases h
      exact hup.trans (sameLinks_touch _ _ _)
    · cases h
      exact hup
  · cases h
    exact hup

theorem sameLinks_appendRunEvents (events : List (String × PyVal)) :
    SameLinks s (s.after (s.appendRunEvents now rid events)) := by
  refine sameLinks_after fun n s' h => ?_
  unfold appendRunEvents at h
  split at h
  · cases h
    exact .refl s
  · split_ifs at h
    · cases h
      exact .refl s
    · cases h
      refine SameLinks.trans ?_ (sameLinks_touch _ _ _)
      refine SameLinks.trans ?_ (sameLinks_updateRuns _ fun _ => ⟨rfl, rfl⟩)
      exact sameLinks_runEvents s _

theorem sameLinks_touchMessage (s : Store) (now : Stamp) (mid : Id) :
    SameLinks s (s.touchMessage now mid) := by
  unfold touchMessage
  split
  · exact sameLinks_touch _ _ _
  · exact .refl s

theorem sameLinks_appendMessageDelta (delta : String) :
    SameLinks s (s.after (s.appendMessageDelta now mid delta)) := by
  refine sameLinks_after fun b s' h => ?_
  have hup : SameLinks s (s.updateMessages (streamingIs mid)
      (fun m => { m with content := capContent (m.content ++ dropNul delta), updatedAt := now })
      (fun _ => rfl)) := sameLinks_updateMessages _ fun _ => ⟨rfl, rfl, rfl⟩
  simp only [appendMessageDelta, Except.ok.injEq, Prod.mk.injEq] at h
  obtain ⟨-, rfl⟩ := h
  split
  · exact hup.trans (sameLinks_touchMessage _ _ _)
  · exact hup

theorem sameLinks_finalizeMessage (status : MessageStatus) (content detail : Option String) :
    SameLinks s (s.after (s.finalizeMessage now mid status content detail)) := by
  refine sameLinks_after fun b s' h => ?_
  unfold finalizeMessage at h
  split_ifs at h
  simp only [Except.ok.injEq, Prod.mk.injEq] at h
  obtain ⟨-, rfl⟩ := h
  have hup := sameLinks_updateMessages (s := s) (p := streamingIs mid)
    (f := fun m => { m with
      status := status, content := (content.map (capContent ∘ dropNul)).getD m.content,
      errorDetail := (detail.bind (text ·)).or m.errorDetail, updatedAt := now })
    (fun _ => rfl) fun _ => ⟨rfl, rfl, rfl⟩
  split
  · exact hup.trans (sameLinks_touchMessage _ _ _)
  · exact hup

theorem sameLinks_reconcileRun (now : Stamp) (pending : Id → Bool) (r : RunRow) :
    SameLinks s (reconcileRun now pending s r) := by
  unfold reconcileRun
  split
  · exact sameLinks_updateRuns _ fun _ => ⟨rfl, rfl⟩
  · refine SameLinks.trans ?_ (sameLinks_updateMessages _ fun _ => ⟨rfl, rfl, rfl⟩)
    exact sameLinks_updateRuns _ fun _ => ⟨rfl, rfl⟩

theorem sameLinks_reconcileStaleRuns (pending : Id → Bool) :
    SameLinks s (s.reconcileStaleRuns now pending).2 := by
  have hfold : ∀ (rows : List RunRow) (s : Store),
      SameLinks s (rows.foldl (reconcileRun now pending) s) := by
    intro rows
    induction rows with
    | nil => exact fun s => .refl s
    | cons r rows ih => exact fun s => (sameLinks_reconcileRun now pending r).trans (ih _)
  refine SameLinks.trans ?_ (sameLinks_updateMessages _ fun _ => ⟨rfl, rfl, rfl⟩)
  exact hfold _ s

theorem sameLinks_pruneRunEvents (window : Stamp) :
    SameLinks s (s.pruneRunEvents now window) := by
  unfold pruneRunEvents
  split
  · exact .refl s
  · exact sameLinks_runEvents s _

/-! ### Writes that add rows -/

theorem links_createRun (C : Casing) (s : Store) (now : Stamp) (q : RunRequest) :
    SameLinks s (s.after (s.createRun C now q)) ∨
      ∃ uid status, s.standing q.sessionId = some (uid, status) ∧ status ≠ .deleted ∧
        (∀ sid, (s.after (s.createRun C now q)).standing sid = s.standing sid) ∧
        (∀ rid, (s.after (s.createRun C now q)).runLink rid =
          if rid = s.nextId then some (q.sessionId, uid) else s.runLink rid) ∧
        (∀ mid, (s.after (s.createRun C now q)).messageLink mid = s.messageLink mid) ∧
        (s.after (s.createRun C now q)).nextId = s.nextId + 2 := by
  cases h : s.createRun C now q with
  | error e => exact .inl (.refl s)
  | ok r =>
      obtain ⟨-, hs'⟩ | ⟨uid, sess, sym, tf, prof, hsess, rfl, hlive, -, hs'⟩ :=
        createRun_cases (show s.createRun C now q = .ok (r.1, r.2) from h)
      · rw [after, hs']
        exact .inl (.refl s)
      · rw [after, hs']
        refine .inr ⟨sess.userId, sess.status, ?_, hlive, fun sid => ?_, fun rid => ?_,
          fun _ => rfl, rfl⟩
        · rw [standing, hsess]
          rfl
        · exact Table.map_find?_updateWhere s.sessions
            (fun x => decide (x.sessionId = q.sessionId))
            (f := fun x => { x with activeRunId := some s.nextId, updatedAt := now })
            (fun _ => rfl) (fun _ => rfl) sid
        · show ((s.runs.insertIgnore _).find? rid).map _ = _
          split
          · rename_i hrid
            subst hrid
            have hfree : s.runs.find? s.nextId = none :=
              Table.find?_eq_none.mpr fun r hr => (s.runs_minted r hr).ne
            exact congrArg (Option.map _) (Table.find?_insertIgnore_self (t := s.runs)
              (r := newRun C s.nextId (s.nextId + 1) now q sess.userId sym tf prof) hfree)
          · rename_i hrid
            have hne : (newRun C s.nextId (s.nextId + 1) now q sess.userId sym tf prof).runId ≠
                rid := Ne.symm hrid
            exact congrArg (Option.map _) (Table.find?_insertIgnore_of_ne hne)

theorem links_createMessage (s : Store) (now : Stamp) (q : MessageRequest) :
    SameLinks s (s.after (s.createMessage now q)) ∨
      ((∀ sid, (s.after (s.createMessage now q)).standing sid = s.standing sid) ∧
        (∀ rid, (s.after (s.createMessage now q)).runLink rid = s.runLink rid) ∧
        (∀ mid, (s.after (s.createMessage now q)).messageLink mid =
          if mid = s.nextId then some (q.sessionId, q.runId, s.nextSeq q.sessionId)
          else s.messageLink mid) ∧
        (s.after (s.createMessage now q)).nextId = s.nextId + 1) := by
  cases h : s.createMessage now q with
  | error e => exact .inl (.refl s)
  | ok r =>
      obtain hs' | ⟨row, hrow, hsid, hrun, hseq, hs'⟩ := createMessage_cases
        (show s.createMessage now q = .ok (r.1, r.2) from h)
      · rw [after, hs']
        exact .inl (.refl s)
      · rw [after, hs']
        have htouch := sameLinks_touch (s.insertMessage row hrow) q.sessionId now
        refine .inr ⟨fun sid => htouch.standing sid, fun rid => htouch.runLink rid, fun mid => ?_,
          htouch.nextId⟩
        rw [htouch.messageLink]
        show ((s.messages.insertIgnore row).find? mid).map _ = _
        split
        · rename_i hmid
          rw [hmid, ← hrow, Table.find?_insertIgnore_self, Option.map_some, hsid, hrun, hseq]
          exact Table.find?_eq_none.mpr fun m hm => (hrow ▸ s.messages_minted m hm).ne
        · rename_i hmid
          rw [Table.find?_insertIgnore_of_ne (hrow ▸ Ne.symm hmid)]
          rfl

end

end Store

/-- A write of the rest of the service that adds no row moves no link. -/
theorem StoreWrite.exec_cases (C : Casing) (s : Store) (now : Stamp) (w : StoreWrite) :
    (∃ q, w = createRun q) ∨ (∃ q, w = createMessage q) ∨ Store.SameLinks s (w.exec C s now) := by
  cases w with
  | createRun q => exact .inl ⟨q, rfl⟩
  | createMessage q => exact .inr (.inl ⟨q, rfl⟩)
  | updateRunStatus rid status => exact .inr (.inr (Store.sameLinks_updateRunStatus status))
  | finalizeRun rid terminal => exact .inr (.inr (Store.sameLinks_finalizeRun terminal))
  | appendRunEvents rid events => exact .inr (.inr (Store.sameLinks_appendRunEvents events))
  | appendMessageDelta mid delta => exact .inr (.inr (Store.sameLinks_appendMessageDelta delta))
  | finalizeMessage mid status content detail =>
      exact .inr (.inr (Store.sameLinks_finalizeMessage status content detail))
  | reconcileStaleRuns pending => exact .inr (.inr (Store.sameLinks_reconcileStaleRuns pending))
  | pruneRunEvents window => exact .inr (.inr (Store.sameLinks_pruneRunEvents window))

theorem StoreWrite.standing_exec (C : Casing) (s : Store) (now : Stamp) (w : StoreWrite) (sid : Id) :
    (w.exec C s now).standing sid = s.standing sid := by
  obtain ⟨q, rfl⟩ | ⟨q, rfl⟩ | hsame := w.exec_cases C s now
  · obtain hsame | ⟨_, _, -, -, hstanding, -⟩ := Store.links_createRun C s now q
    · exact hsame.standing sid
    · exact hstanding sid
  · obtain hsame | ⟨hstanding, -⟩ := Store.links_createMessage s now q
    · exact hsame.standing sid
    · exact hstanding sid
  · exact hsame.standing sid

theorem StoreWrite.runLink_exec (C : Casing) (s : Store) (now : Stamp) (w : StoreWrite) {rid : Id}
    (hlt : rid < s.nextId) :
    (w.exec C s now).runLink rid = s.runLink rid ∧ s.nextId ≤ (w.exec C s now).nextId := by
  obtain ⟨q, rfl⟩ | ⟨q, rfl⟩ | hsame := w.exec_cases C s now
  · obtain hsame | ⟨_, _, -, -, -, hrun, -, hnext⟩ := Store.links_createRun C s now q
    · exact ⟨hsame.runLink rid, hsame.nextId.ge⟩
    · exact ⟨(hrun rid).trans (if_neg hlt.ne), (Nat.le_add_right _ 2).trans hnext.ge⟩
  · obtain hsame | ⟨-, hrun, -, hnext⟩ := Store.links_createMessage s now q
    · exact ⟨hsame.runLink rid, hsame.nextId.ge⟩
    · exact ⟨hrun rid, (Nat.le_add_right _ 1).trans hnext.ge⟩
  · exact ⟨hsame.runLink rid, hsame.nextId.ge⟩

namespace Store

/-! ### What a request writes -/

section
variable {C : Casing} {s : Store} {now : Stamp} {userId : String} {sid : Id} {row : SessionRow}

theorem visibleSession_eq {uid : String} (huid : required userId "user_id" = .ok uid) :
    s.visibleSession sid userId = ((match s.ownedSession sid uid with
      | none => .error notFound
      | some row => if row.status = .deleted then .error notFound else .ok row) :
        Except HttpError SessionRow) := by
  have hget : s.getSessionForUser sid userId = .ok (s.ownedSession sid uid) := by
    rw [getSessionForUser, huid]
    rfl
  unfold visibleSession
  rw [hget]
  rfl

theorem visibleSession_eq_ok (h : s.visibleSession sid userId = .ok row) :
    ∃ uid, required userId "user_id" = .ok uid ∧ s.ownedSession sid uid = some row ∧
      row.status ≠ .deleted := by
  obtain ⟨found, hfound, h⟩ := Fallible.bind_eq_ok.mp h
  obtain ⟨uid, huid, hrow⟩ := Fallible.bind_eq_ok.mp (Fallible.mapError_eq_ok.mp hfound)
  cases hrow
  split at h
  · cases h
  · rename_i row' howned
    split at h
    · cases h
    · rename_i hstatus
      cases h
      exact ⟨uid, huid, howned, hstatus⟩

theorem answer_transcript {uid : String} (huid : required userId "user_id" = .ok uid) {rid : Id}
    {afterSeq : ℕ} {limit : PageLimit 5000} :
    s.answer C userId (.listRunEvents rid afterSeq limit) =
      ((match (s.runs.find? rid).filter fun r => decide (r.userId = uid) with
        | none => .error runNotFound
        | some _ => .ok (.events (s.listRunEvents rid afterSeq limit.1).1
            (s.listRunEvents rid afterSeq limit.1).2)) : Except HttpError Response) := by
  have hget : s.getRunForUser rid userId =
      .ok ((s.runs.find? rid).filter fun r => decide (r.userId = uid)) := by
    rw [getRunForUser, huid]
    rfl
  rw [answer, hget]
  rfl

theorem answer_transcript_unknown {e : StoreError} (he : required userId "user_id" = .error e)
    {rid : Id} {afterSeq : ℕ} {limit : PageLimit 5000} :
    s.answer C userId (.listRunEvents rid afterSeq limit) = .error (serverError e) := by
  rw [answer, getRunForUser, he]
  rfl

theorem summarise_sessionId {x : SessionSummary} (h : s.summarise row userId = .ok x) :
    x.sessionId = row.sessionId := by
  obtain ⟨runs, -, h⟩ := Fallible.bind_eq_ok.mp h
  obtain ⟨messages, -, h⟩ := Fallible.bind_eq_ok.mp h
  cases h
  rfl

theorem listableStatus_ne_deleted {st : Option String} {x : SessionStatus}
    (h : listableStatus st = some x) : x ≠ .deleted := by
  unfold listableStatus at h
  split at h
  · cases h
    nofun
  · cases h
    nofun
  · cases h

theorem patchedStatus_ne_deleted {st : Option (Option String)} {x : Option SessionStatus}
    (h : patchedStatus st = .ok x) : x ≠ some .deleted := by
  unfold patchedStatus at h
  split at h
  · split at h
    · rename_i y hy
      cases h
      exact fun hx => listableStatus_ne_deleted hy (Option.some.inj hx)
    · cases h
  · cases h
    nofun

theorem patchOf_eq_ok {p : PatchSessionRequest} {patch : SessionPatch}
    (h : s.patchOf sid userId p = .ok patch) :
    (∃ row, s.visibleSession sid userId = .ok row) ∧ patch.status ≠ some .deleted := by
  obtain ⟨row, hrow, h⟩ := Fallible.bind_eq_ok.mp h
  refine ⟨⟨row, hrow⟩, ?_⟩
  obtain ⟨-, -, h⟩ := Fallible.bind_eq_ok.mp h
  obtain ⟨title, -, h⟩ := Fallible.bind_eq_ok.mp h
  obtain ⟨timeframe, -, h⟩ := Fallible.bind_eq_ok.mp h
  obtain ⟨activeRunId, -, h⟩ := Fallible.bind_eq_ok.mp h
  obtain ⟨status, hstatus, h⟩ := Fallible.bind_eq_ok.mp h
  cases h
  exact patchedStatus_ne_deleted hstatus

theorem createSession_eq_ok {symbol profile timeframe : String} {title : Option String}
    {s' : Store} (h : s.createSession C now userId symbol profile timeframe title = .ok (row, s')) :
    required userId "user_id" = .ok row.userId ∧ row.sessionId = s.nextId ∧
      s'.sessions = s.sessions.insertIgnore row ∧ s'.runs = s.runs ∧ s'.messages = s.messages ∧
      s'.runEvents = s.runEvents ∧ s'.nextId = s.nextId + 1 := by
  obtain ⟨uid, huid, h⟩ := Fallible.bind_eq_ok.mp h
  obtain ⟨sym, -, h⟩ := Fallible.bind_eq_ok.mp h
  obtain ⟨prof, -, h⟩ := Fallible.bind_eq_ok.mp h
  obtain ⟨tf, -, h⟩ := Fallible.bind_eq_ok.mp h
  cases h
  exact ⟨huid, rfl, rfl, rfl, rfl, rfl, rfl⟩

/-- What a request of the user `userId` may do to the store. -/
inductive Edit (now : Stamp) (userId : String) (s : Store) : Store → Prop
  | none : Edit now userId s s
  | create {s' : Store} (row : SessionRow) (huser : ActsAs userId row.userId)
      (hid : row.sessionId = s.nextId) (hsessions : s'.sessions = s.sessions.insertIgnore row)
      (hruns : s'.runs = s.runs) (hmessages : s'.messages = s.messages)
      (hevents : s'.runEvents = s.runEvents) (hnext : s'.nextId = s.nextId + 1) :
      Edit now userId s s'
  | patch (sid : Id) (uid : String) (row : SessionRow) (p : SessionPatch)
      (huser : ActsAs userId uid) (howned : s.ownedSession sid uid = some row)
      (hlive : row.status ≠ .deleted) (hstatus : p.status ≠ some .deleted) :
      Edit now userId s (s.updateSessions (isSession sid uid) (p.apply now)
        (p.apply_sessionId now))
  | softDelete (sid : Id) (uid : String) (timeframe : Option String) (huser : ActsAs userId uid)
      (howned : (s.ownedSession sid uid).isSome = true) :
      Edit now userId s (s.updateSessions (isSession sid uid)
        (SessionPatch.apply { status := some .deleted, timeframe } now)
        (SessionPatch.apply_sessionId _ now))
  | hardDelete (sid : Id) (uid : String) (huser : ActsAs userId uid)
      (howned : (s.ownedSession sid uid).isSome = true) :
      Edit now userId s ((s.dropContent sid).updateSessions (isSession sid uid) (tombstone now)
        (tombstone_sessionId now))

theorem edit_postSession (p : CreateSessionRequest) :
    Edit now userId s (s.postSession C now userId p).2 := by
  unfold postSession
  split
  · exact .none
  · split
    · exact .none
    · rename_i hcreate
      obtain ⟨huid, hid, hsessions, hruns, hmessages, hevents, hnext⟩ := createSession_eq_ok hcreate
      exact .create _ (.inl huid) hid hsessions hruns hmessages hevents hnext

theorem edit_patchSession (sid : Id) (p : PatchSessionRequest) :
    Edit now userId s (s.patchSession now userId sid p).2 := by
  unfold patchSession
  split
  · exact .none
  · rename_i patch hpatch
    obtain ⟨⟨row, hrow⟩, hstatus⟩ := patchOf_eq_ok hpatch
    obtain ⟨uid, huid, howned, hlive⟩ := visibleSession_eq_ok hrow
    have hedit : ∀ {r s'}, s.updateSession now sid userId patch = .ok (r, s') →
        Edit now userId s s' := by
      intro r s' h
      obtain ⟨uid', huid', ⟨rfl, -⟩ | ⟨timeframe, -, -, rfl⟩⟩ := updateSession_cases h
      · exact .none
      · rw [huid] at huid'
        cases huid'
        exact .patch sid uid row _ (.inl huid) howned hlive hstatus
    split
    · exact .none
    · exact .none
    · rename_i h
      exact hedit h
    · rename_i h
      exact hedit h

theorem edit_deleteRoute (sid : Id) (hard : Bool) :
    Edit now userId s (s.deleteRoute now userId sid hard).2 := by
  have hedit : ∀ {r s'}, s.deleteSession now sid userId hard = .ok (r, s') →
      Edit now userId s s' := by
    intro r s' h
    obtain ⟨rfl, -⟩ | ⟨uid, huser, howned, -, ⟨-, rfl⟩ | ⟨-, timeframe, rfl⟩⟩ :=
      deleteSession_cases h
    · exact .none
    · exact .hardDelete sid uid huser howned
    · exact .softDelete sid uid timeframe huser howned
  unfold deleteRoute
  split
  · exact .none
  · rename_i h
    exact hedit h
  · rename_i h
    exact hedit h

end

end Store

/-- A request leaves the store alone or edits it for its caller. -/
theorem ApiCall.edit (C : Casing) (c : ApiCall) (s : Store) :
    c.exec C s = s ∨ ∃ u, c.user = some u ∧ Store.Edit c.now u.id s (c.exec C s) := by
  unfold ApiCall.exec Store.handle
  cases hu : c.user with
  | none => exact .inl rfl
  | some u =>
      cases c.request with
      | createSession p => exact .inr ⟨u, rfl, Store.edit_postSession p⟩
      | patchSession sid p => exact .inr ⟨u, rfl, Store.edit_patchSession sid p⟩
      | deleteSession sid hard => exact .inr ⟨u, rfl, Store.edit_deleteRoute sid hard⟩
      | read r => exact .inl rfl

end AiTrader.Session
