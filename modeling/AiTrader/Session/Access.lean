import AiTrader.Session.Transcript
import Mathlib.Data.Prod.Lex

/-! # Owner-scoped access to the session store

The reads and edits of `session_store.py` that take the user they are made for.  A row of
another user and a missing row give the same answer.

* `ownedSession`, `getRunForUser`: one row.
* `listSessions`, `listRuns`, `listMessages`: pages.
* `updateSession`, `deleteSession`: edits.  A soft delete marks the session row; a hard one also
  drops its runs, messages and transcripts.
* `reconcileStaleRuns`, `pruneRunEvents`: what the service does to the store when it starts. -/

namespace AiTrader.Session

open Text

namespace Store

/-! ### One row -/

/-- The session, if `uid` owns it. -/
def ownedSession (s : Store) (sid : Id) (uid : String) : Option SessionRow :=
  (s.sessions.find? sid).filter fun row => decide (row.userId = uid)

/-- `get_session_for_user`. -/
def getSessionForUser (s : Store) (sid : Id) (userId : String) :
    Except StoreError (Option SessionRow) := do
  let uid ← required userId "user_id"
  return s.ownedSession sid uid

/-- `get_run_for_user`. -/
def getRunForUser (s : Store) (rid : Id) (userId : String) :
    Except StoreError (Option RunRow) := do
  let uid ← required userId "user_id"
  return (s.runs.find? rid).filter fun r => decide (r.userId = uid)

/-- `get_run_by_thread`. -/
def getRunByThread (s : Store) (threadId : Id) : Option RunRow :=
  s.runs.rows.find? fun r => decide (r.threadId = threadId)

/-! ### Pages -/

/-- SQLite's `LIKE`: `%` and `_` are wildcards, ASCII letters match in either case. -/
def like : List Char → List Char → Bool
  | [], t => t.isEmpty
  | c :: p, t =>
      if c = '%' then t.tails.any (fun u => like p u)
      else
        match t with
        | [] => false
        | d :: u => (decide (c = '_') || decide (asciiLowerChar c = asciiLowerChar d)) && like p u

/-- `(updated_at, session_id)` of the last row of a page. -/
structure Cursor where
  updatedAt : Stamp
  sessionId : Id
deriving DecidableEq, Repr

def cursorOf (r : SessionRow) : Cursor := ⟨r.updatedAt, r.sessionId⟩

/-- What `list_sessions` is asked for.  A cursor that cannot be read counts as none. -/
structure SessionQuery where
  status : Option SessionStatus
  cursor : Option Cursor
  limit : ℕ
  query : Option String

section
variable (C : Casing)

/-- `symbol LIKE ? OR UPPER(COALESCE(title, '')) LIKE ?`. -/
def textMatches (query : Option String) (r : SessionRow) : Bool :=
  match query with
  | none => true
  | some q =>
      if (strip q).isEmpty then true
      else
        let pattern := '%' :: (C.upper (strip q)).toList ++ ['%']
        like pattern r.symbol.toList || like pattern (toAsciiUppercase (r.title.getD "")).toList

/-- The row lies behind the cursor. -/
def afterCursor (cursor : Option Cursor) (r : SessionRow) : Bool :=
  match cursor with
  | none => true
  | some c =>
      decide (r.updatedAt < c.updatedAt) ||
        (decide (r.updatedAt = c.updatedAt) && decide (r.sessionId < c.sessionId))

/-- Without a status filter a deleted session is still not listed. -/
def statusMatches (status : Option SessionStatus) (r : SessionRow) : Bool :=
  match status with
  | some st => decide (r.status = st)
  | none => decide (r.status ≠ .deleted)

/-- The `WHERE` clause of `list_sessions`. -/
def sessionMatches (uid : String) (q : SessionQuery) (r : SessionRow) : Bool :=
  decide (r.userId = uid) && statusMatches q.status r && textMatches C q.query r &&
    afterCursor q.cursor r

/-- `ORDER BY updated_at DESC, session_id DESC`. -/
def newerFirst (a b : SessionRow) : Prop :=
  b.updatedAt < a.updatedAt ∨ (a.updatedAt = b.updatedAt ∧ b.sessionId ≤ a.sessionId)

instance : DecidableRel newerFirst := fun _ _ => inferInstanceAs (Decidable (_ ∨ _))

/-- What `ORDER BY` compares. -/
def sortKey (r : SessionRow) : Stamp ×ₗ Id := toLex (r.updatedAt, r.sessionId)

theorem newerFirst_iff {a b : SessionRow} : newerFirst a b ↔ sortKey b ≤ sortKey a := by
  rw [newerFirst, sortKey, sortKey, Prod.Lex.toLex_le_toLex]
  exact or_congr_right (and_congr_left fun _ => eq_comm)

theorem sessionId_eq_of_sortKey {a b : SessionRow} (h : sortKey a = sortKey b) :
    a.sessionId = b.sessionId :=
  (Prod.mk.inj (toLex.injective h)).2

instance : Std.Total newerFirst :=
  ⟨fun a b => by rw [newerFirst_iff, newerFirst_iff]; exact le_total _ _⟩

instance : IsTrans SessionRow newerFirst :=
  ⟨fun a b c hab hbc => by rw [newerFirst_iff] at hab hbc ⊢; exact hbc.trans hab⟩

/-- The matching rows, newest activity first. -/
def matchingSessions (s : Store) (uid : String) (q : SessionQuery) : List SessionRow :=
  (s.sessions.rows.filter (sessionMatches C uid q)).insertionSort newerFirst

section
variable {C} {s : Store} {uid : String} {q : SessionQuery} {r : SessionRow}

theorem mem_matchingSessions :
    r ∈ s.matchingSessions C uid q ↔ r ∈ s.sessions.rows ∧ sessionMatches C uid q r = true := by
  rw [matchingSessions, List.mem_insertionSort, List.mem_filter]

end

/-- `list_sessions`: one row more than the page is read to know whether there is another. -/
def listSessions (s : Store) (userId : String) (q : SessionQuery) :
    Except StoreError (List SessionRow × Option Cursor) := do
  let uid ← required userId "user_id"
  let limit := max 1 (min q.limit 100)
  let rows := (s.matchingSessions C uid q).take (limit + 1)
  let page := rows.take limit
  return (page, if limit < rows.length then page.getLast?.map cursorOf else none)

theorem listSessions_eq_ok {C} {s : Store} {userId : String} {q : SessionQuery}
    {page : List SessionRow} {next : Option Cursor}
    (h : s.listSessions C userId q = .ok (page, next)) :
    ∃ uid, required userId "user_id" = .ok uid ∧ (∀ r ∈ page, r ∈ s.matchingSessions C uid q) ∧
      ∀ c ∈ next, ∃ r ∈ page, c = cursorOf r := by
  obtain ⟨uid, huid, h⟩ := Fallible.bind_eq_ok.mp h
  cases h
  refine ⟨uid, huid, fun r hr => List.mem_of_mem_take (List.mem_of_mem_take hr), fun c hc => ?_⟩
  rw [Option.mem_def] at hc
  split at hc
  · obtain ⟨r, hr, rfl⟩ := Option.map_eq_some_iff.mp hc
    exact ⟨r, List.mem_of_getLast? hr, rfl⟩
  · cases hc

end

/-- `ORDER BY started_at ASC, run_id ASC`. -/
def startedFirst (a b : RunRow) : Prop :=
  a.startedAt < b.startedAt ∨ (a.startedAt = b.startedAt ∧ a.runId ≤ b.runId)

instance : DecidableRel startedFirst := fun _ _ => inferInstanceAs (Decidable (_ ∨ _))

/-- The runs of a session, oldest first. -/
def runsOf (s : Store) (sid : Id) : List RunRow :=
  (s.runs.rows.filter fun r => decide (r.sessionId = sid)).insertionSort startedFirst

/-- `list_runs`: the runs join their session, which has to be the caller's. -/
def listRuns (s : Store) (sid : Id) (userId : String) : Except StoreError (List RunRow) := do
  let uid ← required userId "user_id"
  return if (s.ownedSession sid uid).isSome then s.runsOf sid else []

/-- The messages of a session in the order of `seq`. -/
def messagesOf (s : Store) (sid : Id) : List MessageRow :=
  (s.messages.rows.filter fun m => decide (m.sessionId = sid)).insertionSort
    fun a b => a.seq ≤ b.seq

/-- `COALESCE(MAX(seq), 0)`. -/
def lastMessageSeq (s : Store) (sid : Id) : ℕ :=
  ((s.messages.rows.filter fun m => decide (m.sessionId = sid)).map MessageRow.seq).foldl max 0

/-- `list_messages`. -/
def listMessages (s : Store) (sid : Id) (userId : String) (afterSeq limit : ℕ) :
    Except StoreError (List MessageRow × ℕ) := do
  let uid ← required userId "user_id"
  return if (s.ownedSession sid uid).isSome then
    (((s.messagesOf sid).filter fun m => decide (afterSeq < m.seq)).take
      (max 1 (min limit 1000)), s.lastMessageSeq sid)
  else ([], 0)

/-! ### Edits -/

/-- Rewrite session rows in place. -/
def updateSessions (s : Store) (p : SessionRow → Bool) (f : SessionRow → SessionRow)
    (hf : ∀ r, (f r).sessionId = r.sessionId) : Store :=
  { s with sessions := s.sessions.updateWhere p f hf }

/-- The fields `update_session` is given; the outer `none` is a field that is not supplied. -/
structure SessionPatch where
  title : Option (Option String) := none
  timeframe : Option String := none
  activeRunId : Option (Option Id) := none
  status : Option SessionStatus := none

def SessionPatch.isEmpty (p : SessionPatch) : Bool :=
  p.title.isNone && p.timeframe.isNone && p.activeRunId.isNone && p.status.isNone

/-- The assignments.  `archived_at` follows the status. -/
def SessionPatch.apply (p : SessionPatch) (now : Stamp) (r : SessionRow) : SessionRow :=
  { r with
    title := (p.title.map fun t => t.bind (text · 200)).getD r.title
    timeframe := p.timeframe.getD r.timeframe
    activeRunId := p.activeRunId.getD r.activeRunId
    status := p.status.getD r.status
    archivedAt := (p.status.map fun st => if st = .active then none else some now).getD r.archivedAt
    updatedAt := now }

theorem SessionPatch.apply_sessionId (p : SessionPatch) (now : Stamp) (r : SessionRow) :
    (p.apply now r).sessionId = r.sessionId := rfl

/-- The `WHERE` clause of both edits. -/
def isSession (sid : Id) (uid : String) (r : SessionRow) : Bool :=
  decide (r.sessionId = sid) && decide (r.userId = uid)

/-- `update_session`: `none` when the session is missing or another user's. -/
def updateSession (s : Store) (now : Stamp) (sid : Id) (userId : String) (patch : SessionPatch) :
    Except StoreError (Option SessionRow × Store) := do
  let uid ← required userId "user_id"
  let timeframe ← patch.timeframe.mapM fun t => required t "timeframe"
  if patch.isEmpty then
    let row ← s.getSessionForUser sid uid
    return (row, s)
  if s.sessions.rows.any (isSession sid uid) then
    let s' := s.updateSessions (isSession sid uid) ({ patch with timeframe }.apply now)
      (SessionPatch.apply_sessionId _ now)
    return (s'.sessions.find? sid, s')
  else return (none, s)

/-- The runs of a session. -/
def hasRun (s : Store) (sid rid : Id) : Bool :=
  s.runs.rows.any fun r => decide (r.sessionId = sid) && decide (r.runId = rid)

/-- The deletes of a hard delete, with `ON DELETE SET NULL` on the messages of other sessions. -/
def dropContent (s : Store) (sid : Id) : Store :=
  { s with
    runEvents := s.runEvents.deleteWhere fun e => s.hasRun sid e.runId
    messages := (s.messages.deleteWhere fun m => decide (m.sessionId = sid)).updateWhere
      (fun m => m.runId.any (s.hasRun sid)) (fun m => { m with runId := none }) (fun _ => rfl)
    runs := s.runs.deleteWhere fun r => decide (r.sessionId = sid)
    runs_minted := fun r hr => s.runs_minted r (List.mem_of_mem_filter hr)
    messages_minted := fun m hm => by
      obtain ⟨x, hx, hxm⟩ := Table.mem_updateWhere hm
      rw [hxm]
      exact s.messages_minted x (List.mem_of_mem_filter hx) }

/-- What is left of a hard-deleted session row. -/
def tombstone (now : Stamp) (r : SessionRow) : SessionRow :=
  { r with
    status := .deleted, title := none, activeRunId := none, archivedAt := some now,
    updatedAt := now }

theorem tombstone_sessionId (now : Stamp) (r : SessionRow) :
    (tombstone now r).sessionId = r.sessionId := rfl

/-- `delete_session`. -/
def deleteSession (s : Store) (now : Stamp) (sid : Id) (userId : String) (hard : Bool) :
    Except StoreError (Option SessionRow × Store) := do
  let uid ← required userId "user_id"
  if hard then
    if (s.ownedSession sid uid).isSome then
      let s' := (s.dropContent sid).updateSessions (isSession sid uid) (tombstone now)
        (tombstone_sessionId now)
      return (s'.sessions.find? sid, s')
    else return (none, s)
  else s.updateSession now sid uid { status := some .deleted }

section
variable {s s' : Store} {now : Stamp} {sid : Id} {uid userId : String} {patch : SessionPatch}
  {hard : Bool} {r : Option SessionRow}

theorem find?_editSession {f : SessionRow → SessionRow}
    {hf : ∀ r, (f r).sessionId = r.sessionId} (k : Id) :
    (s.updateSessions (isSession sid uid) f hf).sessions.find? k =
      if k = sid then (s.sessions.find? k).map (fun r => if r.userId = uid then f r else r)
      else s.sessions.find? k := by
  rw [updateSessions, Table.find?_updateWhere]
  cases hk : s.sessions.find? k with
  | none => simp
  | some row =>
      have hid : row.sessionId = k := Table.find?_key hk
      by_cases hsid : k = sid
      · simp [isSession, hid, hsid]
      · simp [isSession, hid, hsid]

theorem ownedSession_eq_some {row : SessionRow} :
    s.ownedSession sid uid = some row ↔ s.sessions.find? sid = some row ∧ row.userId = uid := by
  rw [ownedSession, Option.filter_eq_some_iff, decide_eq_true_eq]

theorem ownedSession_of_any (h : s.sessions.rows.any (isSession sid uid) = true) :
    (s.ownedSession sid uid).isSome = true := by
  obtain ⟨row, hrow, his⟩ := List.any_eq_true.mp h
  simp only [isSession, Bool.and_eq_true, decide_eq_true_eq] at his
  rw [Option.isSome_iff_exists]
  exact ⟨row, ownedSession_eq_some.mpr ⟨Table.find?_of_mem hrow his.1, his.2⟩⟩

theorem updateSession_cases (h : s.updateSession now sid userId patch = .ok (r, s')) :
    ∃ uid, required userId "user_id" = .ok uid ∧
      ((s' = s ∧ (patch.isEmpty = false → r = none)) ∨
        ∃ timeframe, (s.ownedSession sid uid).isSome = true ∧ r = s'.sessions.find? sid ∧
          s' = s.updateSessions (isSession sid uid) ({ patch with timeframe }.apply now)
            (SessionPatch.apply_sessionId _ now)) := by
  obtain ⟨uid, huid, h⟩ := Fallible.bind_eq_ok.mp h
  refine ⟨uid, huid, ?_⟩
  obtain ⟨timeframe, -, h⟩ := Fallible.bind_eq_ok.mp h
  split at h
  · rename_i hempty
    obtain ⟨row, -, h⟩ := Fallible.bind_eq_ok.mp h
    cases h
    exact .inl ⟨rfl, fun hne => absurd hempty (by simp [hne])⟩
  · split at h
    · rename_i hany
      cases h
      exact .inr ⟨timeframe, ownedSession_of_any hany, rfl, rfl⟩
    · cases h
      exact .inl ⟨rfl, fun _ => rfl⟩

/-- The identifier a call uses for its user, which is coerced once or twice. -/
def ActsAs (userId uid : String) : Prop :=
  required userId "user_id" = .ok uid ∨
    ∃ v, required userId "user_id" = .ok v ∧ required v "user_id" = .ok uid

/-- `delete_session` leaves the store alone, or marks the session of its user as deleted; a hard
delete drops its content first. -/
theorem deleteSession_cases (h : s.deleteSession now sid userId hard = .ok (r, s')) :
    (s' = s ∧ r = none) ∨
      ∃ uid, ActsAs userId uid ∧ (s.ownedSession sid uid).isSome = true ∧
        r = s'.sessions.find? sid ∧
        ((hard = true ∧ s' = (s.dropContent sid).updateSessions (isSession sid uid) (tombstone now)
            (tombstone_sessionId now)) ∨
          (hard = false ∧ ∃ timeframe, s' = s.updateSessions (isSession sid uid)
            (SessionPatch.apply { status := some .deleted, timeframe } now)
            (SessionPatch.apply_sessionId _ now))) := by
  obtain ⟨uid, huid, h⟩ := Fallible.bind_eq_ok.mp h
  cases hard with
  | true =>
      rw [if_pos rfl] at h
      split at h
      · rename_i howned
        cases h
        exact .inr ⟨uid, .inl huid, howned, rfl, .inl ⟨rfl, rfl⟩⟩
      · cases h
        exact .inl ⟨rfl, rfl⟩
  | false =>
      rw [if_neg Bool.false_ne_true] at h
      obtain ⟨uid', huid', ⟨rfl, hnone⟩ | ⟨timeframe, howned, hr, hs'⟩⟩ := updateSession_cases h
      · exact .inl ⟨rfl, hnone rfl⟩
      · exact .inr ⟨uid', .inr ⟨uid, huid, huid'⟩, howned, hr, .inr ⟨rfl, timeframe, hs'⟩⟩

end

/-! ### Start of the service -/

/-- `reconcile_stale_runs` for one live run: back to `watching` when its thread has a pending
step, otherwise truncated with its streaming message. -/
def reconcileRun (now : Stamp) (pending : Id → Bool) (s : Store) (r : RunRow) : Store :=
  if pending r.threadId then
    s.updateRuns (fun x => decide (x.runId = r.runId))
      (fun x => { x with status := .watching, lastEventAt := now }) (fun _ => rfl)
  else
    (s.updateRuns (fun x => decide (x.runId = r.runId))
      (fun x => { x with
        status := .truncated, terminalStatus := x.terminalStatus.or (some .truncated),
        endedAt := x.endedAt.or (some now), lastEventAt := now }) (fun _ => rfl)).updateMessages
      (fun m => decide (m.runId = some r.runId) && decide (m.status = .streaming))
      (fun m => { m with status := .truncated, updatedAt := now }) (fun _ => rfl)

/-- A streaming message of a run that is not live. -/
def orphaned (s : Store) (m : MessageRow) : Bool :=
  decide (m.status = .streaming) &&
    m.runId.any fun rid => !s.runs.rows.any fun r => decide (r.runId = rid) && r.status.live

/-- `reconcile_stale_runs`, with the number of rows it resolved. -/
def reconcileStaleRuns (s : Store) (now : Stamp) (pending : Id → Bool) : ℕ × Store :=
  let live := s.runs.rows.filter fun r => r.status.live
  let s₁ := live.foldl (reconcileRun now pending) s
  ((live.filter fun r => !pending r.threadId).length + (s₁.messages.rows.filter s₁.orphaned).length,
    s₁.updateMessages s₁.orphaned (fun m => { m with status := .truncated, updatedAt := now })
      (fun _ => rfl))

/-- `prune_run_events`: transcripts of runs that ended more than `window` seconds ago. -/
def pruneRunEvents (s : Store) (now window : Stamp) : Store :=
  if window ≤ 0 then s
  else
    { s with
      runEvents := s.runEvents.deleteWhere fun e => s.runs.rows.any fun r =>
        decide (r.runId = e.runId) && !r.status.live &&
          decide (r.endedAt.getD r.lastEventAt < now - window) }

end Store

end AiTrader.Session
