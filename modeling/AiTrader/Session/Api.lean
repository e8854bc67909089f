import AiTrader.Session.Access

/-! # The session surface

The routes of `session_api.py`.  A request comes with the verified user of the caller, if there
is one, and with the reading of the clock; it is answered with a response or an error, and
leaves a store.  No route waits inside, so a request is one step.

The bounds that the router checks before a handler runs are carried by the type of the
parameter (`PageLimit`). -/

namespace AiTrader.Session

open Text

/-- `HTTPException`. -/
structure HttpError where
  status : ℕ
  detail : String
deriving DecidableEq, Repr

/-- One answer for a missing session and for another user's. -/
def notFound : HttpError := ⟨404, "session not found"⟩

def runNotFound : HttpError := ⟨404, "run not found"⟩

/-- An exception that no handler catches. -/
def serverError (_ : StoreError) : HttpError := ⟨500, "Internal Server Error"⟩

/-- The subject of a verified assertion.  `verify_identity_token` refuses a blank subject, and
reads no token longer than 4096 characters. -/
structure VerifiedUser where
  id : String
  nonempty : id ≠ ""
  short : id.length ≤ 4096

def sampleUser : VerifiedUser := ⟨"u1", by decide, by decide⟩

/-- `_caller`. -/
def caller (user : Option VerifiedUser) : Except HttpError VerifiedUser :=
  match user with
  | some u => .ok u
  | none => .error ⟨401, "authentication required"⟩

/-! ### Validation -/

def maxSymbolChars : ℕ := 64
def maxTimeframeChars : ℕ := 16
def maxTitleChars : ℕ := 200

/-- `_clean`. -/
def clean (value field : String) (cap : ℕ) : Except HttpError String :=
  let t := strip value
  if t.isEmpty then .error ⟨422, field ++ " is required"⟩
  else if cap < t.length then
    .error ⟨422, field ++ " must be at most " ++ toString cap ++ " characters"⟩
  else if t.toList.any (fun ch => decide (ch.toNat < 32) || decide (ch.toNat = 127)) then
    .error ⟨422, field ++ " contains control characters"⟩
  else .ok t

def validProfiles : List String := ["INTRADAY", "SWING", "INVESTOR", "FNO"]

/-- `_clean_profile`. -/
def cleanProfile (C : Casing) (value : String) : Except HttpError String := do
  let t ← clean value "profile" 32
  let profile := C.upper t
  if validProfiles.contains profile then return profile
  else throw ⟨422, "profile must be one of " ++ ", ".intercalate validProfiles⟩

/-- `_clean(…) if payload.title else None`. -/
def cleanTitle (title : Option String) : Except HttpError (Option String) :=
  match title with
  | none => .ok none
  | some t => if t.isEmpty then .ok none else (clean t "title" maxTitleChars).map some

/-- The statuses a client may name. -/
def listableStatus : Option String → Option SessionStatus
  | some "active" => some .active
  | some "archived" => some .archived
  | _ => none

/-! ### Requests and responses -/

/-- A page size within the bounds of its route. -/
abbrev PageLimit (cap : ℕ) := {n : ℕ // 1 ≤ n ∧ n ≤ cap}

structure CreateSessionRequest where
  symbol : String
  profile : String := "INTRADAY"
  timeframe : String
  title : Option String := none

/-- The outer `none` is a field that is not supplied. -/
structure PatchSessionRequest where
  title : Option (Option String) := none
  timeframe : Option (Option String) := none
  status : Option (Option String) := none
  activeRunId : Option (Option Id) := none
  symbol : Option (Option String) := none
  profile : Option (Option String) := none

/-- The requests that only read. -/
inductive Read where
  | listSessions (status : Option String) (cursor : Option Store.Cursor) (limit : PageLimit 100)
      (query : Option String)
  | getSession (sid : Id)
  | listMessages (sid : Id) (afterSeq : ℕ) (limit : PageLimit 1000)
  | listRuns (sid : Id)
  | listRunEvents (rid : Id) (afterSeq : ℕ) (limit : PageLimit 5000)

inductive Request where
  | createSession (payload : CreateSessionRequest)
  | patchSession (sid : Id) (payload : PatchSessionRequest)
  | deleteSession (sid : Id) (hard : Bool)
  | read (r : Read)

structure LastRun where
  runId : Id
  kind : RunKind
  status : RunStatus
  startedAt : Stamp
  endedAt : Option Stamp

structure SessionSummary where
  sessionId : Id
  title : Option String
  symbol : String
  timeframe : String
  profile : String
  status : SessionStatus
  createdAt : Stamp
  updatedAt : Stamp
  archivedAt : Option Stamp
  activeRunId : Option Id
  messageCount : ℕ
  lastRun : Option LastRun

inductive Response where
  | summary (session : SessionSummary)
  | sessions (items : List SessionSummary) (nextCursor : Option Store.Cursor)
  | deleted (sid : Id) (status : SessionStatus) (hard : Bool)
  | messages (items : List MessageRow) (lastSeq : ℕ)
  | runs (items : List RunRow)
  | events (items : List (ℕ × StoredFrame)) (lastSeq : ℕ)

/-! ### Routes -/

namespace Store

/-- A store call outside any `try`. -/
def uncaught {α : Type} (x : Except StoreError α) : Except HttpError α := x.mapError serverError

/-- `_summarise`. -/
def summarise (s : Store) (row : SessionRow) (userId : String) :
    Except HttpError SessionSummary := do
  let runs ← uncaught (s.listRuns row.sessionId userId)
  let (_, lastSeq) ← uncaught (s.listMessages row.sessionId userId 0 1)
  return {
    sessionId := row.sessionId, title := row.title, symbol := row.symbol,
    timeframe := row.timeframe, profile := row.profile, status := row.status,
    createdAt := row.createdAt, updatedAt := row.updatedAt, archivedAt := row.archivedAt,
    activeRunId := row.activeRunId, messageCount := lastSeq,
    lastRun := runs.getLast?.map fun r => ⟨r.runId, r.kind, r.status, r.startedAt, r.endedAt⟩ }

/-- The read that four routes start with. -/
def visibleSession (s : Store) (sid : Id) (userId : String) : Except HttpError SessionRow := do
  match ← uncaught (s.getSessionForUser sid userId) with
  | none => throw notFound
  | some row => if row.status = .deleted then throw notFound else return row

/-- `_validated_run_target`. -/
def validatedRunTarget (s : Store) (sid : Id) (userId : String) (rid : Option Id) :
    Except HttpError (Option Id) := do
  match rid with
  | none => return none
  | some r =>
      match ← uncaught (s.getRunForUser r userId) with
      | none => throw ⟨422, "active_run_id is not a run of this session"⟩
      | some run =>
          if run.sessionId ≠ sid then throw ⟨422, "active_run_id is not a run of this session"⟩
          else return some r

/-- The refusal of a change of identity. -/
def immutable (field : String) : HttpError :=
  ⟨409, field ++ " is immutable on a session. It defines the session's identity; " ++
    "create a new session instead."⟩

/-- A client may not name the fields that define the session. -/
def checkImmutable (p : PatchSessionRequest) : Except HttpError Unit :=
  if p.symbol.isSome then .error (immutable "symbol")
  else if p.profile.isSome then .error (immutable "profile")
  else .ok ()

/-- The status a patch asks for; `null` counts as not supplied. -/
def patchedStatus (status : Option (Option String)) :
    Except HttpError (Option SessionStatus) :=
  match status with
  | some (some st) =>
      match listableStatus (some st) with
      | some x => .ok (some x)
      | none => .error
          ⟨422, "status must be active or archived; use DELETE to remove a session"⟩
  | _ => .ok none

/-- What `patch_session` checks before it writes: the session, then each supplied field. -/
def patchOf (s : Store) (sid : Id) (userId : String) (p : PatchSessionRequest) :
    Except HttpError SessionPatch := do
  let _ ← s.visibleSession sid userId
  let _ ← checkImmutable p
  let title ← p.title.mapM cleanTitle
  let timeframe ← p.timeframe.join.mapM fun t => clean t "timeframe" maxTimeframeChars
  let activeRunId ← p.activeRunId.mapM (s.validatedRunTarget sid userId)
  let status ← patchedStatus p.status
  return { title, timeframe, activeRunId, status }

/-- The fields `create_session` cleans before it writes. -/
def createInput (C : Casing) (p : CreateSessionRequest) :
    Except HttpError (String × String × String × Option String) := do
  let symbol ← clean p.symbol "symbol" maxSymbolChars
  let profile ← cleanProfile C p.profile
  let timeframe ← clean p.timeframe "timeframe" maxTimeframeChars
  let title ← cleanTitle p.title
  return (symbol, profile, timeframe, title)

section
variable (C : Casing) (s : Store) (now : Stamp) (userId : String)

/-- `create_session`. -/
def postSession (p : CreateSessionRequest) : Except HttpError Response × Store :=
  match createInput C p with
  | .error e => (.error e, s)
  | .ok (symbol, profile, timeframe, title) =>
      match s.createSession C now userId symbol profile timeframe title with
      | .error e => (.error (serverError e), s)
      | .ok (row, s') => ((s'.summarise row userId).map .summary, s')

/-- `patch_session`.  The session is read before it is written, so a deleted one stays deleted. -/
def patchSession (sid : Id) (p : PatchSessionRequest) : Except HttpError Response × Store :=
  match s.patchOf sid userId p with
  | .error e => (.error e, s)
  | .ok patch =>
      match s.updateSession now sid userId patch with
      | .error (.required field) => (.error ⟨422, field ++ " is required"⟩, s)
      | .error e => (.error (serverError e), s)
      | .ok (none, s') => (.error notFound, s')
      | .ok (some row, s') =>
          (if row.status = .deleted then .error notFound
            else (s'.summarise row userId).map .summary, s')

/-- `delete_session`. -/
def deleteRoute (sid : Id) (hard : Bool) : Except HttpError Response × Store :=
  match s.deleteSession now sid userId hard with
  | .error e => (.error (serverError e), s)
  | .ok (none, s') => (.error notFound, s')
  | .ok (some row, s') => (.ok (.deleted sid row.status hard), s')

/-- The five `GET` routes. -/
def answer : Read → Except HttpError Response
  | .listSessions status cursor limit query => do
      match listableStatus status with
      | none => throw ⟨422, "status must be active or archived"⟩
      | some st =>
          let (rows, next) ← uncaught
            (s.listSessions C userId { status := some st, cursor, limit := limit.1, query })
          let items ← rows.mapM fun row => s.summarise row userId
          return .sessions items next
  | .getSession sid => do
      let row ← s.visibleSession sid userId
      return .summary (← s.summarise row userId)
  | .listMessages sid afterSeq limit => do
      let _ ← s.visibleSession sid userId
      let (items, last) ← uncaught (s.listMessages sid userId afterSeq limit.1)
      return .messages items last
  | .listRuns sid => do
      let _ ← s.visibleSession sid userId
      return .runs (← uncaught (s.listRuns sid userId))
  | .listRunEvents rid afterSeq limit => do
      -- ownership is checked on the run, not on its session
      match ← uncaught (s.getRunForUser rid userId) with
      | none => throw runNotFound
      | some _ =>
          let (items, last) := s.listRunEvents rid afterSeq limit.1
          return .events items last

end

/-- A request of the given caller. -/
def handle (C : Casing) (s : Store) (now : Stamp) (user : Option VerifiedUser) (r : Request) :
    Except HttpError Response × Store :=
  match caller user with
  | .error e => (.error e, s)
  | .ok u =>
      match r with
      | .createSession p => s.postSession C now u.id p
      | .patchSession sid p => s.patchSession now u.id sid p
      | .deleteSession sid hard => s.deleteRoute now u.id sid hard
      | .read r => (s.answer C u.id r, s)

end Store

end AiTrader.Session
