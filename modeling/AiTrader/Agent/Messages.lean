import AiTrader.Library.Pairing
import AiTrader.Text
import AiTrader.Value

/-! # The message history of a thread

Messages, the calls an assistant message carries, and what the agent reads off a history:
whether market data was seen or attempted, which core tools have resolved, the latest armed
watch and the latest volatility reading.

Functions of the host's library that no proof looks into (`repr`, `json.dumps`, the parsers,
the rounding of a double) are fields of `Host`. -/

namespace AiTrader.Agent

open Text

/-- What the code takes from its host language. -/
structure Host where
  casing : Casing
  /-- `repr` of a string -/
  repr : String → String
  /-- `str` of a value -/
  str : PyVal → String
  /-- `json.dumps` -/
  dumps : PyVal → String
  /-- `json.loads`, or else `ast.literal_eval` -/
  parse : String → Option PyVal
  /-- `int` of a string -/
  parseInt : String → Option ℤ
  /-- `float` of a string -/
  parseFloat : String → Option F64
  /-- the double nearest to a number -/
  rnd : ℚ → F64
  /-- `round(x, 4)` -/
  round4 : ℚ → ℚ

/-- The reading of `v` as a finite double, for an int or a float that is not a bool. -/
def Host.finite (h : Host) : PyVal → Option ℚ
  | .int z => match h.rnd z with
      | .fin q => some q
      | _ => none
  | .float (.fin q) => some q
  | _ => none

/-- `str(v)`. -/
def Host.text (h : Host) : PyVal → String
  | .str s => s
  | v => h.str v

/-! ### Calls and messages -/

inductive CallStatus where
  | ok | parseFailure | invalidTool | qaForbidden
deriving DecidableEq, Repr

/-- One entry of a message's `tool_calls`. -/
structure ToolCall where
  name : String
  args : Kwargs
  id : String

/-- A call discovered in a model response. -/
structure ExtractedCall where
  name : String
  args : Option Kwargs
  rawArgs : String
  status : CallStatus
  id : String

/-- A model response after extraction. -/
structure Response where
  content : String
  calls : List ExtractedCall

inductive Message where
  | system (content : String)
  | human (content : String)
  | ai (content : String) (toolCalls : List ToolCall)
      (extractionStatus : List (String × CallStatus)) (syntheticResults : List (String × String))
  | tool (content : String) (toolCallId : String) (name : String)

/-- An assistant message without calls. -/
abbrev Message.aiText (content : String) : Message := .ai content [] [] []

/-- `d.get(k)` of a dictionary built entry by entry: the last entry of a key wins. -/
def dictGet {β : Type} (d : List (String × β)) (k : String) : Option β := d.reverse.lookup k

/-- Calls and their results in a history. -/
def toolSignature : Pairing.Signature Message String where
  issues
    | .ai _ calls _ _ => calls.map ToolCall.id
    | _ => []
  answers
    | .tool _ i _ => some i
    | _ => none

/-- The calls on the latest message, with their status and the prepared feedback. -/
structure PendingCalls where
  calls : List ToolCall
  statuses : List (String × CallStatus)
  synthetic : List (String × String)

def pendingCalls (messages : List Message) : PendingCalls :=
  match messages.getLast? with
  | some (.ai _ calls statuses synthetic) => ⟨calls, statuses, synthetic⟩
  | _ => ⟨[], [], []⟩

/-- `statuses.get(tc["id"], "ok") == "ok"`. -/
def PendingCalls.isOk (p : PendingCalls) (tc : ToolCall) : Bool :=
  decide ((dictGet p.statuses tc.id).getD .ok = .ok)

/-! ### Tool names -/

/-- `REGISTERED_TOOL_NAMES`, sorted. -/
def registeredToolNames : List String :=
  ["declare_trade", "get_candles", "get_chart_patterns", "get_consensus_report",
    "get_event_risk", "get_forecast", "get_market_regime", "get_multi_tf_trend",
    "get_news_context", "get_options_analytics", "get_order_flow", "get_prediction",
    "get_relative_strength", "get_session_context", "get_support_resistance",
    "get_trade_performance", "get_volume_profile", "watch_price_condition"]

/-- `MARKET_DATA_TOOL_NAMES`. -/
def marketDataToolNames : List String :=
  ["get_candles", "get_consensus_report", "get_multi_tf_trend", "get_chart_patterns",
    "get_support_resistance", "get_volume_profile", "get_news_context", "get_prediction",
    "get_market_regime", "get_relative_strength", "get_order_flow", "get_forecast",
    "get_session_context", "get_options_analytics", "get_event_risk"]

/-- `CORE_DATA_TOOL_NAMES`, sorted. -/
def coreDataToolNames : List String :=
  ["get_consensus_report", "get_market_regime", "get_order_flow", "get_relative_strength",
    "get_session_context"]

/-- `_synthetic_failure_content`. -/
def syntheticFailureContent (h : Host) (c : ExtractedCall) : String :=
  if c.status = .invalidTool then
    "Tool-call error: '" ++ c.name ++ "' is not a registered Analysis_Tool. " ++
    "Registered tools are: " ++ String.intercalate ", " registeredToolNames ++ ". " ++
    "Re-issue the call using a valid tool name."
  else
    "Tool-call error: could not parse JSON arguments for '" ++ c.name ++ "'. " ++
    "Received fragment: " ++ h.repr c.rawArgs ++ ". " ++
    "Re-issue the call with a valid JSON object as arguments."

/-! ### Reading tool results -/

/-- `_tool_result_is_error`. -/
def toolResultIsError (h : Host) (content : String) : Bool :=
  contains content "\"error\"" || contains content "'error'" ||
    startsWith (h.casing.lower (strip content)) "error"

/-- One letter of a pattern under `re.IGNORECASE`: both cases, and the letters beyond ASCII
that fold to it. -/
def matchesLetter (p c : Char) : Bool :=
  asciiLowerChar c == p ||
    (p == 'i' && (c.toNat == 0x130 || c.toNat == 0x131)) || (p == 's' && c.toNat == 0x17F)

def matchWord : List Char → List Char → Option (List Char)
  | [], cs => some cs
  | _ :: _, [] => none
  | p :: ps, c :: cs => if matchesLetter p c then matchWord ps cs else none

/-- A quote of either kind. -/
def matchQuote : List Char → Option (List Char)
  | c :: cs => if c.toNat == 34 || c.toNat == 39 then some cs else none
  | [] => none

def matchQuoted (word : String) (cs : List Char) : Option (List Char) :=
  (matchQuote cs).bind fun cs => (matchWord word.toList cs).bind matchQuote

/-- A quoted key, then a colon with optional blanks around it. -/
def matchKey (key : String) (cs : List Char) : Option (List Char) :=
  (matchQuoted key cs).bind fun cs =>
    match cs.dropWhile isSpace with
    | ':' :: rest => some (rest.dropWhile isSpace)
    | _ => none

/-- `_UNAVAILABLE_RE`, at one position. -/
def matchUnavailable (cs : List Char) : Bool :=
  ((matchKey "sentiment_summary" cs).bind (matchQuoted "unavailable")).isSome ||
    ((matchKey "unavailable" cs).bind (matchWord "true".toList)).isSome ||
    ((matchKey "status" cs).bind (matchQuoted "unavailable")).isSome

/-- `_tool_result_is_unavailable`. -/
def toolResultIsUnavailable (content : String) : Bool := content.toList.tails.any matchUnavailable

example : toolResultIsUnavailable "'status' : \"Unavailable\"" = true := by decide

/-- `_tool_result_is_usable`. -/
def toolResultIsUsable (h : Host) (content : String) : Bool :=
  !toolResultIsError h content && !toolResultIsUnavailable content

/-- `_market_data_seen`. -/
def marketDataSeen (h : Host) (messages : List Message) : Bool :=
  messages.any fun m => match m with
    | .tool content _ name => decide (name ∈ marketDataToolNames) && toolResultIsUsable h content
    | _ => false

/-- `_market_data_attempted`. -/
def marketDataAttempted (messages : List Message) : Bool :=
  messages.any fun m => match m with
    | .tool _ _ name => decide (name ∈ marketDataToolNames)
    | _ => false

/-- `_resolved_core_tools`, sorted. -/
def resolvedCoreTools (h : Host) (messages : List Message) : List String :=
  coreDataToolNames.filter fun n => messages.any fun m => match m with
    | .tool content _ name =>
        decide (name = n) && (toolResultIsUsable h content || toolResultIsUnavailable content)
    | _ => false

/-- `_core_acquisition_resolved`. -/
def coreAcquisitionResolved (h : Host) (messages : List Message) : Bool :=
  coreDataToolNames.all fun n => decide (n ∈ resolvedCoreTools h messages)

/-- The core tools still missing, sorted. -/
def unresolvedCoreTools (h : Host) (messages : List Message) : List String :=
  coreDataToolNames.filter fun n => decide (n ∉ resolvedCoreTools h messages)

/-- `_latest_tool_results(messages).get(name)`. -/
def latestToolResult (h : Host) (name : String) (messages : List Message) : Option PyVal :=
  messages.reverse.findSome? fun m => match m with
    | .tool content _ n => if n = name ∧ toolResultIsError h content = false then
        h.parse (strip content) else none
    | _ => none

/-- `_latest_atr`. -/
def latestAtr (h : Host) (messages : List Message) : Option ℚ :=
  match latestToolResult h "get_consensus_report" messages with
  | some (.dict report) => h.finite (Kwargs.get report "atr_14")
  | _ => none

/-- `_latest_watch_args`. -/
def latestWatchArgs (messages : List Message) : Kwargs :=
  (messages.reverse.findSome? fun m => match m with
    | .ai _ calls _ _ =>
        (calls.find? (fun tc => decide (tc.name = "watch_price_condition"))).map ToolCall.args
    | _ => none).getD []

/-! ### The replay of a Q&A turn -/

def Message.isHuman : Message → Bool
  | .human _ => true
  | _ => false

def Message.isSystem : Message → Bool
  | .system _ => true
  | _ => false

/-- What precedes the last user message, and the current turn from it on. -/
def splitCurrentTurn : List Message → List Message × List Message
  | [] => ([], [])
  | m :: rest =>
      let (prior, current) := splitCurrentTurn rest
      match current with
      | [] => if m.isHuman then ([], m :: rest) else (m :: prior, [])
      | _ :: _ => (m :: prior, current)

/-- A prior message without its tool exchange. -/
def flattenMessage : Message → Option Message
  | .tool .. => none
  | .ai content (_ :: _) _ _ => if strip content = "" then none else some (.aiText content)
  | m => some m

/-- `flatten_prior_tool_history`. -/
def flattenPriorToolHistory (messages : List Message) : List Message :=
  let (prior, current) := splitCurrentTurn messages
  prior.filterMap flattenMessage ++ current

end AiTrader.Agent
