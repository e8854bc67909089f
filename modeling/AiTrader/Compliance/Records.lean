import AiTrader.Compliance.HashChain
import AiTrader.Text

/-! # The compliance records

The payloads that `reco_store.record`, `interaction_log.record_request` and
`interaction_log.record_outcome` hand to the chain, over the payload columns of their tables.
The clock and the `ANALYST_OF_RECORD` variable are arguments.

* `recordPayload`: one recommendation as published.
* `requestPayload`, `outcomePayload`: the two rows of one interaction. -/

namespace AiTrader.Compliance

open Text

/-- `None` is stored as `NULL`. -/
def optText : Option String → PyVal
  | none => .none
  | some s => .str s

/-- A text that consists of blanks. -/
def blank (s : String) : Bool := (trimBoth isSpace s.toList).isEmpty

/-! ### Recommendations -/

/-- `reco_store.PAYLOAD_COLUMNS`. -/
def recommendationColumns : PayloadColumns where
  names := ["created_at", "thread_id", "user_id", "symbol", "timeframe", "mode", "profile",
    "action", "entry", "stop_loss", "take_profit", "horizon", "conviction", "risk_reward",
    "rationale_json", "tool_inputs_json", "model_id", "prompt_hash", "prompt_set_hash",
    "analyst_of_record"]
  nodup := by decide
  content := by decide

/-- A float argument.  `F64` has one zero; `-0.0` is apart because it prints differently. -/
inductive Number where
  | double (x : F64)
  | negZero
deriving DecidableEq

/-- The arguments of `record`.  An `INTEGER` column binds 64 bits: the `INSERT` of a larger
conviction raises, and nothing is stored. -/
structure RecordArgs where
  action : String
  threadId : Option String := none
  userId : Option String := none
  symbol : Option String := none
  timeframe : Option String := none
  mode : Option String := none
  profile : Option String := none
  entry : Option Number := none
  stopLoss : Option Number := none
  takeProfit : Option Number := none
  horizon : Option String := none
  conviction : Option Int64 := none
  riskReward : Option Number := none
  rationale : PyVal := .none
  toolInputs : PyVal := .none
  modelId : Option String := none
  promptHash : Option String := none
  promptSetHash : Option String := none

/-- `_finite`, as a `REAL` column gives it back. -/
def finite : Option Number → PyVal
  | some (.double x) => if x.isFinite then .float x else .none
  | some .negZero => .float (.fin 0)
  | none => .none

/-- The `REAL` columns that are given `-0.0`. -/
def RecordArgs.negZeros (args : RecordArgs) : List String :=
  ([("entry", args.entry), ("stop_loss", args.stopLoss), ("take_profit", args.takeProfit),
    ("risk_reward", args.riskReward)].filter fun kv => kv.2 = some .negZero).map Prod.fst

/-- `_int_or_none`, of an integer or nothing. -/
def intOrNone : Option Int64 → PyVal
  | some z => .int z.toInt
  | none => .none

/-- The thread that a recommendation is unique for. -/
def recordThread (args : RecordArgs) : Option String :=
  (args.threadId.filter fun t => !blank t).map strip

/-- `analyst_of_record`, from the environment variable. -/
def analystOfRecord (value : Option String) : Option String :=
  (value.filter fun v => !blank v).map strip

/-- Arguments that are objects are stored as the text the hash is defined over. -/
def jsonOrNone (H : Host) : PyVal → PyVal
  | .none => .none
  | value => .str (canonicalJson H.reprFloat value)

/-- The payload of `record`. -/
def recordPayload (H : Host) (C : Casing) (createdAt : F64) (analyst : Option String)
    (args : RecordArgs) : Payload recommendationColumns where
  values :=
    [("created_at", .float createdAt),
     ("thread_id", optText (recordThread args)),
     ("user_id", optText (args.userId.filter fun u => !blank u)),
     ("symbol", optText args.symbol),
     ("timeframe", optText args.timeframe),
     ("mode", optText args.mode),
     ("profile", optText args.profile),
     ("action", .str (C.upper (if args.action = "" then "HOLD" else args.action))),
     ("entry", finite args.entry),
     ("stop_loss", finite args.stopLoss),
     ("take_profit", finite args.takeProfit),
     ("horizon", optText args.horizon),
     ("conviction", intOrNone args.conviction),
     ("risk_reward", finite args.riskReward),
     ("rationale_json", jsonOrNone H args.rationale),
     ("tool_inputs_json", jsonOrNone H args.toolInputs),
     ("model_id", optText args.modelId),
     ("prompt_hash", optText args.promptHash),
     ("prompt_set_hash", optText args.promptSetHash),
     ("analyst_of_record", optText (analystOfRecord analyst))]
  keys := rfl
  negZeros := args.negZeros
  negZeros_zero c hc := by
    obtain ⟨⟨column, number⟩, hmem, rfl⟩ := List.mem_map.mp hc
    obtain ⟨hmem, hzero⟩ := List.mem_filter.mp hmem
    have hnumber : number = some .negZero := of_decide_eq_true hzero
    subst hnumber
    simp only [List.mem_cons, Prod.mk.injEq, List.not_mem_nil, or_false] at hmem
    rcases hmem with ⟨rfl, harg⟩ | ⟨rfl, harg⟩ | ⟨rfl, harg⟩ | ⟨rfl, harg⟩ <;>
      exact (congrArg finite harg).symm

/-- One recommendation with an entry of `-0.0` no longer verifies, whatever its row links to. -/
example (prev : String) : ¬ (recordPayload binaryHost .ascii (.fin 1700000000) none
    { action := "HOLD", entry := some .negZero }).ReadsBack binaryHost prev := by
  rw [Payload.readsBack_iff binaryHost_injective rfl]
  decide

/-! ### Interactions -/

/-- `interaction_log.PAYLOAD_COLUMNS`. -/
def interactionColumns : PayloadColumns where
  names := ["created_at", "event", "kind", "thread_id", "user_id", "mode", "symbol", "timeframe",
    "profile", "model", "content", "status", "detail", "refusal_category"]
  nodup := by decide
  content := by decide

/-- `MAX_CONTENT_CHARS`. -/
def maxMessageChars : ℕ := 100000

/-- `_text`: blank text is absent, oversized text is capped and says so. -/
def messageText : Option String → Option String
  | none => none
  | some value =>
      if blank value then none
      else if value.length > maxMessageChars then
        some (String.ofList (value.toList.take maxMessageChars) ++ "\n[truncated " ++
          toString (value.length - maxMessageChars) ++ " characters]")
      else some value

/-- `_text(…) or "unknown"`. -/
def knownText (value : String) : String := (messageText (some value)).getD "unknown"

/-- The arguments of `record_request`. -/
structure RequestArgs where
  kind : String
  threadId : Option String := none
  userId : Option String := none
  content : Option String := none
  mode : Option String := none
  symbol : Option String := none
  timeframe : Option String := none
  profile : Option String := none
  model : Option String := none

/-- The arguments of `record_outcome`. -/
structure OutcomeArgs where
  kind : String
  status : String
  threadId : Option String := none
  userId : Option String := none
  content : Option String := none
  detail : Option String := none
  refusalCategory : Option String := none
  mode : Option String := none
  model : Option String := none

/-- The payload of `record_request`. -/
def requestPayload (createdAt : F64) (args : RequestArgs) : Payload interactionColumns where
  values :=
    [("created_at", .float createdAt),
     ("event", .str "request"),
     ("kind", .str (knownText args.kind)),
     ("thread_id", optText (messageText args.threadId)),
     ("user_id", optText (messageText args.userId)),
     ("mode", optText (messageText args.mode)),
     ("symbol", optText (messageText args.symbol)),
     ("timeframe", optText (messageText args.timeframe)),
     ("profile", optText (messageText args.profile)),
     ("model", optText (messageText args.model)),
     ("content", optText (messageText args.content)),
     ("status", .none),
     ("detail", .none),
     ("refusal_category", .none)]
  keys := rfl

/-- The payload of `record_outcome`. -/
def outcomePayload (createdAt : F64) (args : OutcomeArgs) : Payload interactionColumns where
  values :=
    [("created_at", .float createdAt),
     ("event", .str "outcome"),
     ("kind", .str (knownText args.kind)),
     ("thread_id", optText (messageText args.threadId)),
     ("user_id", optText (messageText args.userId)),
     ("mode", optText (messageText args.mode)),
     ("symbol", .none),
     ("timeframe", .none),
     ("profile", .none),
     ("model", optText (messageText args.model)),
     ("content", optText (messageText args.content)),
     ("status", .str (knownText args.status)),
     ("detail", optText (messageText args.detail)),
     ("refusal_category", optText (messageText args.refusalCategory))]
  keys := rfl

end AiTrader.Compliance
