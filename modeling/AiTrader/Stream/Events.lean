import AiTrader.Agent.Graph
import AiTrader.Agent.ReasoningMarkup
import AiTrader.Session.Generator

/-! # The events of a run

`stream_events.py` expands the updates of the graph into named events, and `assemble_run_events`
says in which order a run shows them; `_run_events` of `main.py` streams them live.  Two things that
the model of the graph does not record are given: the role of a message, and the verification steps
of a decision.

* `live_order_iff`: the live stream has the order that is assembled, unless the run fails after it
  has shown a decision. -/

namespace AiTrader.Stream

open Agent Text

structure StreamEvent where
  name : String
  payload : Kwargs

/-- What a node of the graph returns, of what is shown. -/
structure NodeUpdate where
  messages : List Message
  decision : Option Decision
  bestCurrentRead : PyVal

/-- What is shown of a message and of a decision beside what the graph records. -/
structure Shown where
  role : Message → Option String
  verificationSteps : Decision → List Kwargs

def resultSummaryMaxChars : ℕ := 4000

def firstChars (n : ℕ) (s : String) : String := String.ofList (s.toList.take n)

section
variable (h : Host)

/-! ### Tool calls -/

/-- `_parse_tool_content`. -/
def parseToolContent (content : String) : Option PyVal :=
  if strip content = "" then none
  else
    match h.parse (strip content) with
    | some .none => none
    | parsed => parsed

/-- `_summarize_result`. -/
def summarizeResult : PyVal → Kwargs
  | .dict kvs =>
      [("summary_keys", .list (((kvs.map Prod.fst).insertionSort (· ≤ ·)).map .str)),
        ("field_count", .int kvs.length), ("truncated", .bool true)]
  | .list xs =>
      [("summary_type", .str "list"), ("length", .int xs.length), ("truncated", .bool true)]
  | v => [("summary", .str (firstChars resultSummaryMaxChars (h.str v))), ("truncated", .bool true)]

/-- `_result_payload`. -/
def resultPayload (content : String) : PyVal × Bool :=
  match parseToolContent h content with
  | none =>
      if resultSummaryMaxChars < content.length then
        (.dict [("summary", .str (firstChars resultSummaryMaxChars content)),
          ("truncated", .bool true), ("original_length", .int content.length)], true)
      else (.str content, false)
  | some parsed =>
      if (h.dumps parsed).length ≤ resultSummaryMaxChars then (parsed, false)
      else (.dict (summarizeResult h parsed), true)

/-- `build_tool_call_start_event`. -/
def buildToolCallStartEvent (tool : String) (args : Kwargs) : Kwargs :=
  [("tool", .str tool), ("args", .dict args)]

/-- `build_tool_call_result_event`. -/
def buildToolCallResultEvent (tool content : String) : Kwargs :=
  [("tool", .str tool), ("result", (resultPayload h content).1)] ++
    if (resultPayload h content).2 then [("summarized", .bool true)] else []

/-- The first of the keys of a reason that has one. -/
def reasonOf (parsed : Kwargs) : List String → Option String
  | [] => none
  | key :: keys =>
      match Kwargs.get parsed key with
      | .none | .dict _ | .list _ => reasonOf parsed keys
      | .str s => some (if strip s = "" then s else strip s)
      | v => some (h.str v)

/-- `_extract_error_reason`. -/
def extractErrorReason (content : String) : String :=
  let fallback := if strip content = "" then "unknown error" else firstChars 500 (strip content)
  match parseToolContent h content with
  | some (.dict parsed) =>
      (reasonOf h parsed ["error", "error_reason", "message", "detail", "reason"]).getD fallback
  | _ => fallback

/-- `build_tool_call_end_event`, of what `tool_result_status` says. -/
def buildToolCallEndEvent (tool content : String) : Kwargs :=
  if toolResultIsError h content then
    [("tool", .str tool), ("status", .str "failure")] ++
      if extractErrorReason h content = "" then []
      else [("error_reason", .str (extractErrorReason h content))]
  else [("tool", .str tool), ("status", .str "success")]

/-! ### Messages and decisions -/

/-- `build_reasoning_event`. -/
def buildReasoningEvent (content : String) (role : Option String) : Option Kwargs :=
  if stripToolCallMarkup content = "" then none
  else some ([("content", .str (stripToolCallMarkup content))] ++
    match role with
    | none => []
    | some tag => if strip tag = "" then [] else [("role", .str (strip tag))])

/-- `message_events`. -/
def messageEvents (role : Message → Option String) (m : Message) : List StreamEvent :=
  match m with
  | .tool content _ name =>
      let tool := if name = "" then "tool" else name
      [⟨"TOOL_CALL_RESULT", buildToolCallResultEvent h tool content⟩,
        ⟨"TOOL_CALL_END", buildToolCallEndEvent h tool content⟩]
  | .ai content calls _ _ =>
      ((buildReasoningEvent content (role m)).map (StreamEvent.mk "REASONING")).toList ++
        calls.map fun tc => ⟨"TOOL_CALL_START", buildToolCallStartEvent tc.name tc.args⟩
  | _ => []

/-- `build_best_current_read_event`. -/
def buildBestCurrentReadEvent : PyVal → Option Kwargs
  | .dict read => some [("bias", Kwargs.get read "bias"),
      ("levels", match Kwargs.get read "levels" with
        | .dict levels => .dict levels
        | _ => .dict []),
      ("why_standing_aside", Kwargs.get read "why_standing_aside")]
  | _ => none

/-- The prices of a directional decision, if they are finite. -/
def executionLevels (d : Decision) : Kwargs :=
  if h.casing.upper (strip d.action) ∈ ["BUY", "SELL"] then
    match d.entry, d.stopLoss, d.takeProfit with
    | some entry, some stopLoss, some takeProfit =>
        if entry.isFinite && stopLoss.isFinite && takeProfit.isFinite then
          [("execution_levels", .dict [("entry", .float entry), ("stop_loss", .float stopLoss),
            ("take_profit", .float takeProfit)])]
        else []
    | _, _, _ => []
  else []

/-- `build_decision_event`. -/
def buildDecisionEvent (d : Decision) : Kwargs :=
  [("action", .str d.action), ("conviction_score", d.convictionScore),
    ("rationale", if d.setupValidation.truthy then d.setupValidation
      else match d.reason with
        | some reason => .str reason
        | none => .none),
    ("execution_plan", d.executionPlan)] ++
    (match d.opportunityTier with
      | some tier => if tier = "" then [] else [("opportunity_tier", .str tier)]
      | none => []) ++
    executionLevels h d

/-- `decision_events`. -/
def decisionEvents (verificationSteps : Decision → List Kwargs) (d : Decision) :
    List StreamEvent :=
  (verificationSteps d).map (StreamEvent.mk "VERIFICATION_STEP") ++
    ((buildBestCurrentReadEvent d.bestCurrentRead).map (StreamEvent.mk "BEST_CURRENT_READ")).toList ++
    [⟨"DECISION", buildDecisionEvent h d⟩]

/-- `node_update_events`. -/
def nodeUpdateEvents (shown : Shown) (u : NodeUpdate) : List StreamEvent :=
  u.messages.flatMap (messageEvents h shown.role) ++
    match u.decision with
    | none =>
        if u.bestCurrentRead.truthy then
          ((buildBestCurrentReadEvent u.bestCurrentRead).map
            (StreamEvent.mk "BEST_CURRENT_READ")).toList
        else []
    | some d => decisionEvents h shown.verificationSteps d

/-! ### A run -/

/-- `build_run_finished_event`. -/
def buildRunFinishedEvent (threadId status : String) : Kwargs :=
  [("thread_id", .str threadId),
    ("status", .str (if status ∈ ["completed", "paused", "cancelled"] then status else "completed"))]

/-- `assemble_run_events`. -/
def assembleRunEvents (shown : Shown) (threadId : String) (updates : List NodeUpdate)
    (outcome errorDetail : String) : List StreamEvent :=
  let isError := decide (outcome = "error")
  [⟨"RUN_STARTED", [("thread_id", .str threadId)]⟩] ++
    (updates.flatMap fun u => (nodeUpdateEvents h shown u).filter fun e =>
      !(isError && decide (e.name = "DECISION"))) ++
    [if isError then ⟨"ERROR", [("error", .str (Session.errorText errorDetail))]⟩
      else ⟨"RUN_FINISHED", buildRunFinishedEvent threadId outcome⟩]

end

/-! ### The names of the events -/

variable {h : Host} {shown : Shown} {u : NodeUpdate} {updates : List NodeUpdate} {e : StreamEvent}
  {m : Message}

theorem messageEvents_name {role : Message → Option String} (he : e ∈ messageEvents h role m) :
    e.name ∈ ["REASONING", "TOOL_CALL_START", "TOOL_CALL_RESULT", "TOOL_CALL_END"] := by
  cases m with
  | system content => cases he
  | human content => cases he
  | tool content i name =>
      rcases List.mem_cons.mp he with rfl | he
      · simp
      · rw [List.mem_singleton.mp he]
        simp
  | ai content calls statuses synthetic =>
      rcases List.mem_append.mp he with he | he
      · obtain ⟨payload, -, rfl⟩ := Option.map_eq_some_iff.mp (Option.mem_toList.mp he)
        simp
      · obtain ⟨tc, -, rfl⟩ := List.mem_map.mp he
        simp

theorem read_name {read : PyVal}
    (he : e ∈ ((buildBestCurrentReadEvent read).map (StreamEvent.mk "BEST_CURRENT_READ")).toList) :
    e.name = "BEST_CURRENT_READ" := by
  obtain ⟨payload, -, rfl⟩ := Option.map_eq_some_iff.mp (Option.mem_toList.mp he)
  rfl

theorem nodeUpdateEvents_cases (h : Host) (shown : Shown) (u : NodeUpdate) :
    ∃ events, (∀ e ∈ events, e.name ∉ ["RUN_STARTED", "RUN_FINISHED", "ERROR", "DECISION"]) ∧
      nodeUpdateEvents h shown u = events ++
        match u.decision with
        | none => []
        | some d => [⟨"DECISION", buildDecisionEvent h d⟩] := by
  have hmessages : ∀ e ∈ u.messages.flatMap (messageEvents h shown.role),
      e.name ∉ ["RUN_STARTED", "RUN_FINISHED", "ERROR", "DECISION"] := by
    intro e he
    obtain ⟨m, -, hm⟩ := List.mem_flatMap.mp he
    have hname := messageEvents_name hm
    simp only [List.mem_cons, List.not_mem_nil, or_false] at hname
    rcases hname with hname | hname | hname | hname <;> rw [hname] <;> decide
  cases hd : u.decision with
  | none =>
      refine ⟨nodeUpdateEvents h shown u, fun e he => ?_, by rw [List.append_nil]⟩
      rw [nodeUpdateEvents, hd] at he
      rcases List.mem_append.mp he with he | he
      · exact hmessages e he
      · dsimp only at he
        split at he
        · rw [read_name he]
          decide
        · cases he
  | some d =>
      refine ⟨u.messages.flatMap (messageEvents h shown.role) ++
        ((shown.verificationSteps d).map (StreamEvent.mk "VERIFICATION_STEP") ++
          ((buildBestCurrentReadEvent d.bestCurrentRead).map
            (StreamEvent.mk "BEST_CURRENT_READ")).toList), fun e he => ?_, ?_⟩
      · rcases List.mem_append.mp he with he | he
        · exact hmessages e he
        · rcases List.mem_append.mp he with he | he
          · obtain ⟨step, -, rfl⟩ := List.mem_map.mp he
            simp
          · rw [read_name he]
            decide
      · rw [nodeUpdateEvents, hd, List.append_assoc]
        rfl

/-- No decision is shown exactly if no update has one. -/
theorem forall_name_ne_decision (h : Host) (shown : Shown) (updates : List NodeUpdate) :
    (∀ e ∈ updates.flatMap (nodeUpdateEvents h shown), e.name ≠ "DECISION") ↔
      ∀ u ∈ updates, u.decision = none := by
  rw [List.forall_mem_flatMap]
  refine forall₂_congr fun u _ => ?_
  obtain ⟨events, hnames, heq⟩ := nodeUpdateEvents_cases h shown u
  rw [heq]
  cases u.decision with
  | none =>
      refine ⟨fun _ => rfl, fun _ e he => ?_⟩
      have hname := hnames e (by simpa using he)
      simp only [List.mem_cons, not_or] at hname
      exact hname.2.2.2.1
  | some d =>
      refine ⟨fun hall => ?_, fun hnone => by cases hnone⟩
      exact absurd rfl (hall ⟨"DECISION", buildDecisionEvent h d⟩ (by simp))

/-! ### The live stream -/

open Session

/-- The frames among the effects of a leg. -/
def framesOf (effects : List Effect) : List (String × PyVal) :=
  effects.filterMap fun
    | .add _ event payload => some (event, payload)
    | _ => none

/-- The frame of an event, stamped with the thread and the kind of turn. -/
def frameOf (l : Session.Leg) (e : StreamEvent) : String × PyVal :=
  (e.name, stampFrame l (.dict e.payload))

/-- The outcome of a leg, and what is said of its failure. -/
def outcomeOf : Finish → String × String
  | .completed => ("completed", "")
  | .paused => ("paused", "")
  | .cancelled => ("cancelled", "")
  | .raised detail => ("error", detail)

/-- The graph of a leg made these updates. -/
def Streams (h : Host) (shown : Shown) (l : Session.Leg) (updates : List NodeUpdate) : Prop :=
  l.frames.map (fun f => (f.event, f.payload)) =
    (updates.flatMap (nodeUpdateEvents h shown)).map fun e => (e.name, .dict e.payload)

theorem framesOf_streamed {l : Session.Leg} (hl : Streams h shown l updates) :
    framesOf (streamed l) = (updates.flatMap (nodeUpdateEvents h shown)).map (frameOf l) := by
  have hmap : framesOf (streamed l) =
      (l.frames.map fun f => (f.event, f.payload)).map fun x => (x.1, stampFrame l x.2) := by
    rw [streamed, framesOf]
    induction l.frames with
    | nil => rfl
    | cons f frames ih => simpa using ih
  rw [hmap, hl, List.map_map]
  rfl

theorem framesOf_runEvents {l : Session.Leg} (hkey : l.key = .usable) :
    (framesOf (runEvents l)).tail = framesOf (streamed l) ++ framesOf (streamEnd l) := by
  rw [runEvents, afterStart, hkey]
  simp [framesOf]

theorem framesOf_streamEnd (l : Session.Leg) :
    framesOf (streamEnd l) = [frameOf l (if (outcomeOf l.finish).1 = "error" then
      ⟨"ERROR", [("error", .str (errorText (outcomeOf l.finish).2))]⟩
      else ⟨"RUN_FINISHED", buildRunFinishedEvent l.threadId (outcomeOf l.finish).1⟩)] := by
  unfold streamEnd
  cases l.finish <;> rfl

/-- **What is assembled and what is streamed.**  After its first frame, a live leg shows the stamped
events that are assembled for its updates, in their order, unless it fails after an update with a
decision: the decision that the assembled run leaves out has been shown by then. -/
theorem live_order_iff (h : Host) (shown : Shown) (l : Session.Leg) (updates : List NodeUpdate)
    (hkey : l.key = .usable) (hl : Streams h shown l updates) :
    (framesOf (runEvents l)).head? = some ("RUN_STARTED", runStarted l) ∧
      ((framesOf (runEvents l)).tail =
          (assembleRunEvents h shown l.threadId updates (outcomeOf l.finish).1
            (outcomeOf l.finish).2).tail.map (frameOf l) ↔
        ((∃ detail, l.finish = .raised detail) → ∀ u ∈ updates, u.decision = none)) := by
  refine ⟨rfl, ?_⟩
  rw [framesOf_runEvents hkey, framesOf_streamed hl, framesOf_streamEnd]
  have htail : (assembleRunEvents h shown l.threadId updates (outcomeOf l.finish).1
      (outcomeOf l.finish).2).tail =
      (updates.flatMap (nodeUpdateEvents h shown)).filter (fun e =>
        !(decide ((outcomeOf l.finish).1 = "error") && decide (e.name = "DECISION"))) ++
      [if (outcomeOf l.finish).1 = "error" then
        ⟨"ERROR", [("error", .str (errorText (outcomeOf l.finish).2))]⟩
        else ⟨"RUN_FINISHED", buildRunFinishedEvent l.threadId (outcomeOf l.finish).1⟩] := by
    rw [assembleRunEvents, List.filter_flatMap]
    simp
  have herror : (∃ detail, l.finish = .raised detail) ↔ (outcomeOf l.finish).1 = "error" := by
    cases l.finish <;> simp [outcomeOf]
  rw [htail, List.map_append, List.map_singleton, List.append_left_inj, herror,
    ← forall_name_ne_decision h shown updates]
  constructor
  · intro heq hfail e he hname
    have hlength := congrArg List.length heq
    rw [List.length_map, List.length_map, eq_comm, List.length_filter_eq_length_iff] at hlength
    simpa [hfail, hname] using hlength e he
  · intro hnone
    rw [List.filter_eq_self.mpr]
    intro e he
    by_cases hfail : (outcomeOf l.finish).1 = "error"
    · simpa [hfail] using hnone hfail e he
    · simp [hfail]

/-- A leg that fails after a forced hold. -/
def failedHold : NodeUpdate := ⟨[], some forcedHold, .none⟩

def quietIo : Io := { monotonic := 2, now := 2, fails := fun _ => false }

def failedLeg : Session.Leg :=
  { threadId := "thread_1", kind := .run, runId := none, sessionId := none, enabled := false,
    openIo := quietIo, startIo := quietIo, key := .usable,
    frames := (nodeUpdateEvents sampleHost ⟨fun _ => none, fun _ => []⟩ failedHold).map fun e =>
      ⟨e.name, .dict e.payload, quietIo⟩,
    finish := .raised "timeout", lastIo := quietIo, closeIo := quietIo, hangUpAt := none,
    finallyIo := quietIo }

theorem live_order_iff_failed :
    (framesOf (runEvents failedLeg)).tail ≠
      (assembleRunEvents sampleHost ⟨fun _ => none, fun _ => []⟩ "thread_1" [failedHold] "error"
        "timeout").tail.map (frameOf failedLeg) := by
  have hstreams : Streams sampleHost ⟨fun _ => none, fun _ => []⟩ failedLeg [failedHold] := by
    rw [Streams, List.flatMap_singleton]
    exact List.map_map
  intro heq
  have hnone := (live_order_iff sampleHost ⟨fun _ => none, fun _ => []⟩ failedLeg [failedHold] rfl
    hstreams).2.mp heq ⟨"timeout", rfl⟩ failedHold (List.mem_singleton.mpr rfl)
  cases hnone

end AiTrader.Stream
