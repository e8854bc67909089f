import AiTrader.Session.Persist

/-! # One leg of a run

`event_generator` opens a persister, streams `_run_events` and in its `finally` records a
disconnect.  As far as the session store sees it, a leg is the list of persister calls its
body makes, with a *yield* after each frame: a client that hangs up closes the generator at a
yield, which skips the rest of the body and runs the `finally`. -/

namespace AiTrader.Session

open Text

/-- How the LLM credentials of a leg resolve. -/
inductive KeyResolution where
  | usable
  | missingUser
  | failed (reason : String)

/-- How the graph stream of a leg ends. -/
inductive Finish where
  | completed
  | paused
  | cancelled
  | raised (detail : String)

/-- One frame of the graph stream, with the environment of its `add`. -/
structure Frame where
  event : String
  payload : PyVal
  io : Io

/-- A leg: what it was started with, what the graph emits, and what the environment does.
`hangUpAt` is the number of the frame whose delivery the client does not survive; `none` for
a client that reads to the end. -/
structure Leg where
  threadId : String
  kind : LegKind
  runId : Option Id
  sessionId : Option Id
  enabled : Bool
  openIo : Io
  startIo : Io
  key : KeyResolution
  frames : List Frame
  finish : Finish
  lastIo : Io
  closeIo : Io
  hangUpAt : Option ℕ
  finallyIo : Io

/-! ### Frames -/

def LegKind.name : LegKind → String
  | run => "run"
  | resume => "resume"
  | qa => "qa"

/-- Fill a key that is absent. -/
def setDefault (kvs : Kwargs) (k : String) (v : PyVal) : Kwargs :=
  if (List.lookup k kvs).isSome then kvs else kvs ++ [(k, v)]

/-- `_stamp`: every frame says which thread and which kind of turn it belongs to. -/
def stampFrame (l : Leg) : PyVal → PyVal
  | .dict kvs =>
      .dict (setDefault (setDefault kvs "thread_id" (.str l.threadId)) "turn" (.str l.kind.name))
  | v => v

/-- `build_run_started_event`, with the two keys that bind the frame to its session. -/
def runStarted (l : Leg) : PyVal :=
  let base : Kwargs := [("thread_id", .str l.threadId)]
  stampFrame l (.dict (match l.runId with
    | none => base
    | some r => base ++ [("run_id", .int r), ("session_id",
        match l.sessionId with
        | none => .none
        | some sid => .int sid)]))

/-- `build_run_finished_event`. -/
def runFinished (l : Leg) (status : String) : PyVal :=
  stampFrame l (.dict [("thread_id", .str l.threadId), ("status", .str status)])

/-- The text of `build_error_event`. -/
def errorText (detail : String) : String := "AI analysis unavailable: " ++ detail

/-- `build_error_event`. -/
def errorFrame (l : Leg) (detail : String) : PyVal :=
  stampFrame l (.dict [("error", .str (errorText detail))])

/-! ### The body -/

/-- A persister call of the body, or a frame handed to the client. -/
inductive Effect where
  | add (io : Io) (event : String) (payload : PyVal)
  | finalize (io : Io) (word : TerminalWord) (detail : Option String)
  | markWatching (io : Io)
  | deliver

/-- The frames of the graph stream, each recorded before it is delivered. -/
def streamed (l : Leg) : List Effect :=
  l.frames.flatMap fun f => [.add f.io f.event (stampFrame l f.payload), .deliver]

/-- The end of a leg that failed before or inside the graph stream. -/
def failedEnd (l : Leg) (shown : String) (recorded : String) : List Effect :=
  [.add l.lastIo "ERROR" (errorFrame l shown), .finalize l.closeIo .error (some recorded), .deliver]

/-- The end of the graph stream.  A paused run is marked, not finalized. -/
def streamEnd (l : Leg) : List Effect :=
  match l.finish with
  | .completed =>
      [.add l.lastIo "RUN_FINISHED" (runFinished l "completed"),
        .finalize l.closeIo .completed none, .deliver]
  | .paused =>
      [.add l.lastIo "RUN_FINISHED" (runFinished l "paused"), .markWatching l.closeIo, .deliver]
  | .cancelled =>
      [.add l.lastIo "RUN_FINISHED" (runFinished l "cancelled"),
        .finalize l.closeIo .cancelled none, .deliver]
  | .raised detail => failedEnd l detail detail

/-- What follows the first frame. -/
def afterStart (l : Leg) : List Effect :=
  match l.key with
  | .missingUser =>
      let why := "authentication required: no user_id supplied for LLM access"
      failedEnd l why (errorText why)
  | .failed reason =>
      let why := "LLM key unavailable: " ++ reason
      failedEnd l why (errorText why)
  | .usable => streamed l ++ streamEnd l

/-- `_run_events`. -/
def runEvents (l : Leg) : List Effect :=
  .add l.startIo "RUN_STARTED" (runStarted l) :: .deliver :: afterStart l

/-- The effects up to and including delivery number `n`. -/
def upToDelivery : ℕ → List Effect → List Effect
  | _, [] => []
  | 0, .deliver :: _ => [.deliver]
  | n + 1, .deliver :: es => .deliver :: upToDelivery n es
  | n, e :: es => e :: upToDelivery n es

/-- The part of the body a leg executes. -/
def executed (l : Leg) : List Effect :=
  match l.hangUpAt with
  | none => runEvents l
  | some n => upToDelivery n (runEvents l)

def Effect.exec : Effect → Persister × Store → Persister × Store
  | add io event payload, (p, s) => p.add io event payload s
  | finalize io word detail, (p, s) => p.finalize io word detail s
  | markWatching io, (p, s) => p.markWatching io s
  | deliver, ps => ps

def execAll (es : List Effect) (ps : Persister × Store) : Persister × Store :=
  es.foldl (fun x e => e.exec x) ps

/-- The persister a leg starts from, after `open`. -/
def opened (l : Leg) (s : Store) : Persister × Store :=
  (Persister.init l.openIo l.runId l.sessionId l.kind l.enabled).openMessage l.openIo s

/-- `event_generator`. -/
def eventGenerator (l : Leg) (s : Store) : Persister × Store :=
  let (p, s') := execAll (executed l) (opened l s)
  p.recordDisconnect l.finallyIo s'

end AiTrader.Session
