import AiTrader.Agent.Debate
import AiTrader.Library.Transition

/-! # The graph

The Q&A nodes and the compiled graph: from a thread, which is its state and the node it has
pending, an event runs that node and routes to the next one.  Input given to a thread starts at
the entry node and discards what was pending; a `/resume` with a pending node simply continues
with that node.

`graphStep` runs one node against the process it finds; `threadStep` leaves the process to the
environment, since other threads change it between two steps. -/

namespace AiTrader.Agent

open Text

/-! ### Trade Q&A -/

/-- `MAX_QA_TURNS`. -/
def maxQaTurns : ℕ := 8

/-- `QA_FORBIDDEN_TOOLS`. -/
def qaForbiddenTools : List String := ["declare_trade", "watch_price_condition"]

/-- `QA_SUBAGENT_TOOLS`. -/
def qaSubagentTools : List String := ["run_debate", "rerun_analysis"]

/-- `_latest_user_question`. -/
def latestUserQuestion (messages : List Message) : String :=
  (messages.reverse.findSome? fun m => match m with
    | .human content => some content
    | _ => none).getD ""

/-- The status of a call in Q&A mode. -/
def qaStatus (c : ExtractedCall) : CallStatus :=
  if c.isOk && decide (c.name ∈ qaForbiddenTools) then .qaForbidden else c.status

def qaForbiddenNote (name : String) : String :=
  "'" ++ name ++ "' is disabled in Trade Q&A mode: the committed trade is " ++
  "immutable here. Answer the user's question using the recorded " ++
  "analysis context instead."

/-- The feedback prepared for a call that is not executed. -/
def qaSynthetic (h : Host) (c : ExtractedCall) : String :=
  if c.isOk then qaForbiddenNote c.name else syntheticFailureContent h c

/-- The assistant message of a Q&A turn. -/
def qaMessage (h : Host) (r : Response) : Message :=
  .ai r.content (r.calls.map ExtractedCall.toCall) (r.calls.map fun c => (c.id, qaStatus c))
    ((r.calls.filter fun c => decide (qaStatus c ≠ .ok)).map fun c => (c.id, qaSynthetic h c))

/-- What the model of a Q&A turn is sent, besides the grounding prompt. -/
def qaConversation (messages : List Message) : List Message :=
  flattenPriorToolHistory (messages.filter fun m => !m.isSystem)

/-- `qa_node`: a refused question costs no model call. -/
def qaNode (env : Env) (s : AgentState) (r : Response) : AgentState :=
  match env.personalisationRefusal (latestUserQuestion s.messages) with
  | some refusal => { s with
      messages := s.messages ++ [.aiText refusal]
      qaTurns := s.qaTurns + 1 }
  | none => { s with
      messages := s.messages ++ [qaMessage env.host r]
      qaTurns := s.qaTurns + 1 }

/-- `qa_should_continue` routes to the Q&A tools. -/
def qaShouldContinue (s : AgentState) : Bool :=
  !(pendingCalls s.messages).calls.isEmpty && decide (s.qaTurns < maxQaTurns)

def isSubagent (tc : ToolCall) : Bool := decide (tc.name ∈ qaSubagentTools)

def couldNotExecuteQa (name : String) : String :=
  "Tool-call '" ++ name ++ "' could not be executed in Q&A mode."

/-- `qa_tool_node`. -/
def qaToolNode (s : AgentState) (results subagentResults : List String) : Option AgentState :=
  let pending := pendingCalls s.messages
  let fetches := passing isSubagent (okCallsOf pending)
  let subagents := (okCallsOf pending).filter isSubagent
  if results.length = fetches.length ∧ subagentResults.length = subagents.length then
    some { s with messages := s.messages ++ (executed fetches results ++
      executed subagents subagentResults ++
      (passing pending.isOk pending.calls).map
        (failedAnswer pending.synthetic couldNotExecuteQa)) }
  else none

/-! ### Threads -/

inductive Node where
  | agent | tools | forceHold | forceTerminal | bull | bear | judge | qaAgent | qaTools
deriving DecidableEq, Repr

/-- A thread: its checkpointed state and its pending node, `none` at the end of a run. -/
structure Thread where
  state : AgentState := {}
  next : Option Node := none

/-- What an endpoint streams into a thread. -/
inductive Input where
  /-- `/run` -/
  | run (message : String) (mode symbol timeframe profile : Option String)
      (manualTrade : Option Kwargs)
  /-- `/resume` of a thread without a pending node -/
  | resume (message : String)
  /-- `/qa` -/
  | qa (question : String)

/-- The input channels written over the checkpoint. -/
def Input.apply (s : AgentState) : Input → AgentState
  | .run message mode symbol timeframe profile manualTrade => { s with
      messages := s.messages ++ [.human message]
      mode, symbol, timeframe, profile, manualTrade }
  | .resume message => { s with messages := s.messages ++ [.human message], mode := some "FIND" }
  | .qa question => { s with messages := s.messages ++ [.human question], mode := some "QA" }

/-- `route_entry`. -/
def routeEntry (h : Host) (s : AgentState) : Node :=
  if s.modeKey h = "QA" then .qaAgent else .agent

/-- Where `should_continue` leads. -/
def Route.node : Route → Option Node
  | .continue | .suspend => some .tools
  | .loopAgent => some .agent
  | .forceHold => some .forceHold
  | .forceTerminal => some .forceTerminal
  | .debateHandoff => some .bull
  | .end => none

/-- Where `route_after_tools` leads. -/
def ToolRoute.node : ToolRoute → Option Node
  | .agent => some .agent
  | .debateHandoff => some .bull
  | .end => none

/-- Where `route_debate` leads. -/
def DebateRoute.node : DebateRoute → Node
  | .bull => .bull
  | .judge => .judge

/-- What happens to a thread: an input, or the completion of a node with what it met. -/
inductive Event where
  | input (i : Input)
  | agent (turn : ModelTurn) (now : ℚ)
  | tools (results : List String) (now : ℚ)
  | forceHold
  | forceTerminal (now : ℚ)
  | bull (answer : Option String)
  | bear (answer : Option String)
  | judge (turns : List JudgeTurn)
  | qaAgent (response : Response)
  | qaTools (results subagentResults : List String)

section
variable (env : Env) (cfg : DebateConfig) (threadId : Option String)

/-- One event on a thread. -/
def graphStep (t : Thread) (p : Process) : Event → Option (Thread × Process)
  | .input i =>
      let s := i.apply t.state
      some (⟨s, some (routeEntry env.host s)⟩, p)
  | .agent turn now =>
      if t.next = some .agent then
        let s := callModel env t.state turn
        some (⟨s, (shouldContinue env s now).node⟩, p)
      else none
  | .tools results now =>
      if t.next = some .tools then
        (toolNode env threadId t.state now results p).map fun r =>
          (⟨r.1, (routeAfterTools r.1).node⟩, r.2)
      else none
  | .forceHold =>
      if t.next = some .forceHold then
        let r := forceHold env threadId t.state p
        some (⟨r.1, none⟩, r.2)
      else none
  | .forceTerminal now =>
      if t.next = some .forceTerminal then
        let r := forceTerminal env threadId t.state now p
        some (⟨r.1, none⟩, r.2)
      else none
  | .bull answer =>
      if t.next = some .bull then some (⟨bullNode env t.state answer, some .bear⟩, p) else none
  | .bear answer =>
      if t.next = some .bear then
        let s := bearNode env t.state answer
        some (⟨s, some (routeDebate cfg s).node⟩, p)
      else none
  | .judge turns =>
      if t.next = some .judge then
        (judgeNode env cfg threadId t.state turns p).map fun r => (⟨r.1, none⟩, r.2)
      else none
  | .qaAgent response =>
      if t.next = some .qaAgent then
        let s := qaNode env t.state response
        some (⟨s, if qaShouldContinue s then some .qaTools else none⟩, p)
      else none
  | .qaTools results subagentResults =>
      if t.next = some .qaTools then
        (qaToolNode t.state results subagentResults).map fun s => (⟨s, some .qaAgent⟩, p)
      else none

/-- One event on a thread, with the process as the other threads have left it. -/
def threadStep (t : Thread) (a : Process × Event) : Option Thread :=
  (graphStep env cfg threadId t a.1 a.2).map Prod.fst

/-- What an event does to a thread. -/
inductive Step (t : Thread) (p : Process) : Event → Thread → Process → Prop
  | input (i : Input) : Step t p (.input i)
      ⟨i.apply t.state, some (routeEntry env.host (i.apply t.state))⟩ p
  | agent (turn : ModelTurn) (now : ℚ) : t.next = some .agent →
      Step t p (.agent turn now)
        ⟨callModel env t.state turn, (shouldContinue env (callModel env t.state turn) now).node⟩ p
  | tools {results : List String} {now : ℚ} {s' : AgentState} {p' : Process} :
      t.next = some .tools → toolNode env threadId t.state now results p = some (s', p') →
      Step t p (.tools results now) ⟨s', (routeAfterTools s').node⟩ p'
  | forceHold : t.next = some .forceHold →
      Step t p .forceHold ⟨(forceHold env threadId t.state p).1, none⟩
        (forceHold env threadId t.state p).2
  | forceTerminal (now : ℚ) : t.next = some .forceTerminal →
      Step t p (.forceTerminal now) ⟨(forceTerminal env threadId t.state now p).1, none⟩
        (forceTerminal env threadId t.state now p).2
  | bull (answer : Option String) : t.next = some .bull →
      Step t p (.bull answer) ⟨bullNode env t.state answer, some .bear⟩ p
  | bear (answer : Option String) : t.next = some .bear →
      Step t p (.bear answer) ⟨bearNode env t.state answer,
        some (routeDebate cfg (bearNode env t.state answer)).node⟩ p
  | judge {turns : List JudgeTurn} {s' : AgentState} {p' : Process} :
      t.next = some .judge → judgeNode env cfg threadId t.state turns p = some (s', p') →
      Step t p (.judge turns) ⟨s', none⟩ p'
  | qaAgent (r : Response) : t.next = some .qaAgent →
      Step t p (.qaAgent r) ⟨qaNode env t.state r,
        if qaShouldContinue (qaNode env t.state r) then some .qaTools else none⟩ p
  | qaTools {results subagentResults : List String} {s' : AgentState} :
      t.next = some .qaTools → qaToolNode t.state results subagentResults = some s' →
      Step t p (.qaTools results subagentResults) ⟨s', some .qaAgent⟩ p

end

variable {env : Env} {cfg : DebateConfig} {threadId : Option String} {t t' : Thread}
  {p p' : Process} {ev : Event}

theorem graphStep_step (h : graphStep env cfg threadId t p ev = some (t', p')) :
    Step env cfg threadId t p ev t' p' := by
  cases ev with
  | input i =>
      cases h
      exact .input i
  | agent turn now =>
      simp only [graphStep] at h
      split at h
      · cases h
        exact .agent turn now ‹_›
      · cases h
  | tools results now =>
      simp only [graphStep] at h
      split at h
      · obtain ⟨⟨s', q⟩, hs, heq⟩ := Option.map_eq_some_iff.mp h
        cases heq
        exact .tools ‹_› hs
      · cases h
  | forceHold =>
      simp only [graphStep] at h
      split at h
      · cases h
        exact .forceHold ‹_›
      · cases h
  | forceTerminal now =>
      simp only [graphStep] at h
      split at h
      · cases h
        exact .forceTerminal now ‹_›
      · cases h
  | bull answer =>
      simp only [graphStep] at h
      split at h
      · cases h
        exact .bull answer ‹_›
      · cases h
  | bear answer =>
      simp only [graphStep] at h
      split at h
      · cases h
        exact .bear answer ‹_›
      · cases h
  | judge turns =>
      simp only [graphStep] at h
      split at h
      · obtain ⟨⟨s', q⟩, hs, heq⟩ := Option.map_eq_some_iff.mp h
        cases heq
        exact .judge ‹_› hs
      · cases h
  | qaAgent r =>
      simp only [graphStep] at h
      split at h
      · cases h
        exact .qaAgent r ‹_›
      · cases h
  | qaTools results subagentResults =>
      simp only [graphStep] at h
      split at h
      · obtain ⟨s', hs, heq⟩ := Option.map_eq_some_iff.mp h
        cases heq
        exact .qaTools ‹_› hs
      · cases h

theorem threadStep_step {a : Process × Event} (h : threadStep env cfg threadId t a = some t') :
    ∃ p', Step env cfg threadId t a.1 a.2 t' p' := by
  obtain ⟨⟨u, p'⟩, hs, rfl⟩ := Option.map_eq_some_iff.mp h
  exact ⟨p', graphStep_step hs⟩

/-! ### A sample environment -/

/-- A character of a JSON string: quotes and backslashes are escaped, and what is not ASCII is
written as its code. -/
def jsonChar (c : Char) : List Char :=
  if c.toNat = 34 ∨ c.toNat = 92 then [Char.ofNat 92, c]
  else if c.toNat < 128 then [c]
  else
    let digit (n : ℕ) : Char := Nat.digitChar (c.toNat / n % 16)
    [Char.ofNat 92, 'u', digit 4096, digit 256, digit 16, digit 1]

def jsonScalar : PyVal → String
  | .str s => "\"" ++ String.ofList (s.toList.flatMap jsonChar) ++ "\""
  | .int z => toString z
  | .bool b => if b then "true" else "false"
  | _ => "null"

/-- `json.dumps` of a dictionary of scalars without control characters. -/
def jsonDict : PyVal → String
  | .dict kvs => "\x7b" ++
      String.intercalate ", " (kvs.map fun kv => jsonScalar (.str kv.1) ++ ": " ++ jsonScalar kv.2) ++
      "\x7d"
  | v => jsonScalar v

/-- A host with exact arithmetic, on plain text. -/
def sampleHost : Host where
  casing := .ascii
  repr s := "'" ++ s ++ "'"
  str v := match v with
    | .str s => s
    | _ => "None"
  dumps := jsonDict
  parse _ := none
  parseInt _ := none
  parseFloat _ := none
  rnd := .fin
  round4 q := q

theorem sampleWallSecs_pos : (0 : ℚ) < 3600 := by decide +kernel

theorem defaultMaxTurns_pos : 1 ≤ 40 := by omega

/-- An environment without evidence, under the default bounds but for the turns of a session. -/
def sampleEnv (sessionMaxTurns : ℕ) (h : 1 ≤ sessionMaxTurns) : Env where
  host := sampleHost
  cfg :=
    { watchCap := 3, sessionMaxTurns, sessionMaxWallSecs := 3600, heartbeatMax := 6,
      watchCap_pos := by omega, sessionMaxTurns_pos := h,
      sessionMaxWallSecs_pos := sampleWallSecs_pos }
  maxReasoningTurns := 6
  systemPrompt _ := "Analyze the symbol."
  prune messages := messages
  tierOf _ _ := none
  proseLevels _ _ := none
  recordEntries _ _ := ""
  weightedConviction _ _ := none
  stanceOf role _ := ⟨role, "neutral", 0, [], "", false⟩
  synthesis _ _ := ("contested", 0)
  personalisationRefusal _ := none

/-- The default turn budget. -/
def defaultEnv : Env := sampleEnv 40 defaultMaxTurns_pos

/-- A budget of one turn. -/
def oneTurnEnv : Env := sampleEnv 1 (by omega)

/-- The default debate configuration. -/
def sampleDebate : DebateConfig := resolveDebateConfig sampleHost fun _ => none

/-- A well-formed call. -/
def okCall (name id : String) (args : Kwargs) : ExtractedCall := ⟨name, some args, "", .ok, id⟩

/-- The arguments of a declaration: an action, the required texts and the given levels. -/
def declareArgs (action : String) (levels : Kwargs) : Kwargs :=
  [("action", .str action), ("conviction_score", .int 80),
    ("setup_validation", .str "The trend is aligned."), ("execution_plan", .str "At market.")] ++
    levels

/-- The arguments of a declaration with its levels. -/
def tradeArgs (action : String) (entry stopLoss takeProfit : ℤ) : Kwargs :=
  declareArgs action [("entry", .int entry), ("stop_loss", .int stopLoss),
    ("take_profit", .int takeProfit), ("atr_14", .int 10)]

/-- What the tool answers to an accepted declaration. -/
def declaredText (action : String) : String :=
  "Trade declared successfully: " ++ action ++ " with 80% conviction."

/-- A response that carries the given calls. -/
def calling (calls : List ExtractedCall) : Response := ⟨"", calls⟩

end AiTrader.Agent
