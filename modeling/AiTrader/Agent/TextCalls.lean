import AiTrader.Agent.Messages
import AiTrader.Library.Braces
import AiTrader.Library.Scan
import AiTrader.PyJson
import Mathlib.Data.List.Sort

/-! # Calls found in a model response

`extract_tool_calls` (`src/agents/deep-quant-loop/graph.py`).  Structured calls are taken as they
are; else the text is searched, for marked blocks, for marked names, and last for the names of the
registered tools followed by a JSON object.

Texts are lists of characters, a position in one is an index.  How the interpreter writes and reads
numbers in JSON is a parameter, and so is the order in which it goes through the set of names. -/

namespace AiTrader.Agent

open Text Scan PyJson Json

/-! ### Tokens -/

/-- `<｜tool▁call▁begin｜>` -/
def callBegin : List Char :=
  ['<', '｜', 't', 'o', 'o', 'l', '▁', 'c', 'a', 'l', 'l', '▁', 'b', 'e', 'g', 'i', 'n', '｜', '>']

/-- `<｜tool▁call▁end｜>` -/
def callEnd : List Char :=
  ['<', '｜', 't', 'o', 'o', 'l', '▁', 'c', 'a', 'l', 'l', '▁', 'e', 'n', 'd', '｜', '>']

/-- `<｜tool▁sep｜>` -/
def toolSep : List Char := ['<', '｜', 't', 'o', 'o', 'l', '▁', 's', 'e', 'p', '｜', '>']

/-! ### Patterns -/

/-- `_CALL_BLOCK_RE`: what stands between the two tokens, as little as possible. -/
def callBlock : Pattern Char (List Char) := fun cs =>
  if callBegin.isPrefixOf cs then
    let rest := cs.drop callBegin.length
    (findIter (literal callEnd) 0 0 rest).head?.map fun m =>
      (rest.take m.start, callBegin.length + m.stop)
  else none

/-- A character of `[^\s\x60\x7b]`. -/
def isNameChar (c : Char) : Bool := !isSpace c && c ≠ '\x60' && c ≠ '\x7b'

/-- `_SEP_NAME_RE`. -/
def sepName : Pattern Char (List Char) := fun cs =>
  if toolSep.isPrefixOf cs then
    let rest := cs.drop toolSep.length
    let blank := rest.takeWhile isSpace
    let name := (rest.dropWhile isSpace).takeWhile isNameChar
    if name = [] then none else some (name, toolSep.length + blank.length + name.length)
  else none

def isIdentifierStart (c : Char) : Bool :=
  (65 ≤ c.toNat && c.toNat ≤ 90) || (97 ≤ c.toNat && c.toNat ≤ 122) || c = '_'

def isIdentifierChar (c : Char) : Bool :=
  isIdentifierStart c || (48 ≤ c.toNat && c.toNat ≤ 57)

/-- `[A-Za-z_][A-Za-z0-9_]*` -/
def identifier : Pattern Char (List Char)
  | [] => none
  | c :: r =>
      if isIdentifierStart c then
        some (c :: r.takeWhile isIdentifierChar, 1 + (r.takeWhile isIdentifierChar).length)
      else none

/-- A zero-width character, of `_ZERO_WIDTH_RE`. -/
def isZeroWidth (c : Char) : Bool := (0x200B ≤ c.toNat && c.toNat ≤ 0x200D) || c.toNat = 0xFEFF

/-! ### Scanning -/

/-- `_extract_balanced_json`. -/
def extractBalancedJson (text : List Char) (start : ℕ) : Option (List Char) :=
  matchBraces 0 false false ((text.drop start).dropWhile fun c => c ≠ '\x7b')

/-- A name and the raw arguments after it, none of which read as the empty text. -/
def namedArgs (text : List Char) (m : Match (List Char)) : String × List Char :=
  (strip (String.ofList m.value), (extractBalancedJson text m.stop).getD [])

/-- One call block.  Without a separator its first identifier is the name. -/
def blockCall (inner : List Char) : Option (String × List Char) :=
  match (findIter sepName 0 0 inner).head? with
  | some m => some (namedArgs inner m)
  | none => (findIter identifier 0 0 inner).head?.map (namedArgs inner)

/-- A registered name in plain text, with the object found for it. -/
structure PlainCall where
  start : ℕ
  name : String
  rawArgs : List Char
deriving DecidableEq, Repr

/-- `positioned`, as the loop over the names fills it. -/
def positionedCalls (order : List String) (content : List Char) : List PlainCall :=
  order.flatMap fun name =>
    (findIter (literal name.toList) 0 0 content).filterMap fun m =>
      (extractBalancedJson content m.stop).map fun raw => ⟨m.start, name, raw⟩

/-- `positioned`, sorted. -/
def plainCalls (order : List String) (content : List Char) : List PlainCall :=
  (positionedCalls order content).insertionSort fun a b => a.start ≤ b.start

/-- `_scan_custom_token_calls`. -/
def scanCustomTokenCalls (order : List String) (content : List Char) :
    List (String × List Char) :=
  match findIter callBlock 0 0 content with
  | b :: bs => (b :: bs).filterMap fun m => blockCall m.value
  | [] =>
      match findIter sepName 0 0 content with
      | m :: ms => (m :: ms).map (namedArgs content)
      | [] => (plainCalls order content).map fun c => (c.name, c.rawArgs)

/-! ### Extraction -/

section
variable (S : Style) (N : NumSyntax PyNum)

/-- A JSON text that is an object. -/
def loadsDict (raw : String) : Option (Option Kwargs) :=
  (loads N raw).map fun
    | .dict kvs => some kvs
    | _ => none

/-- `_parse_args_fragment`.  Zero-width characters are dropped from a text that is no JSON. -/
def parseArgsFragment (raw : String) : Option Kwargs :=
  match loadsDict N raw with
  | some parsed => parsed
  | none => (loadsDict N (String.ofList (raw.toList.filter fun c => !isZeroWidth c))).join

/-- An entry of a response's own `tool_calls`; `args` is `None` when missing. -/
structure NativeCall where
  name : Option String
  args : PyVal
  id : Option String

/-- What is read of a model response. -/
structure ModelResponse where
  toolCalls : List NativeCall
  content : String

structure ToolCallExtraction where
  calls : List ExtractedCall
  usedTextExtraction : Bool

/-- The identifier of a call that brings none. -/
def callId (name : String) (idx : ℕ) : String := "call_" ++ name ++ "_" ++ toString idx

/-- The arguments of a structured call as a dictionary, if they are one. -/
def nativeArgs : PyVal → Option Kwargs
  | .str s => parseArgsFragment N s
  | .dict kvs => some kvs
  | _ => none

/-- The text kept of the arguments of a structured call. -/
def nativeRawArgs : PyVal → String
  | .str s => s
  | .none => ""
  | v => dumps S N v

/-- A structured call, taken as it is. -/
def nativeCall (idx : ℕ) (tc : NativeCall) : ExtractedCall :=
  let name := strip (tc.name.getD "")
  { name := name
    args := some ((nativeArgs N tc.args).getD [])
    rawArgs := nativeRawArgs S N tc.args
    status := .ok
    id := if tc.id.getD "" = "" then callId name idx else tc.id.getD "" }

/-- A call found in the text. -/
def textCall (idx : ℕ) (found : String × List Char) : ExtractedCall :=
  let raw := String.ofList found.2
  if found.1 ∈ registeredToolNames then
    match parseArgsFragment N raw with
    | some parsed => ⟨found.1, some parsed, raw, .ok, callId found.1 idx⟩
    | none => ⟨found.1, none, raw, .parseFailure, callId found.1 idx⟩
  else ⟨found.1, none, raw, .invalidTool, callId found.1 idx⟩

/-- `extract_tool_calls`. -/
def extractToolCalls (order : List String) (response : ModelResponse) : ToolCallExtraction :=
  if response.toolCalls ≠ [] then ⟨response.toolCalls.mapIdx (nativeCall S N), false⟩
  else
    let discovered := scanCustomTokenCalls order response.content.toList
    ⟨discovered.mapIdx (textCall N), decide (discovered ≠ [])⟩

end

end AiTrader.Agent
