import AiTrader.Text
import AiTrader.Value
import Mathlib.Data.Finmap
import Mathlib.Data.UInt

/-! # The ingestion service's control channel

`src/ingestion/src/main.rs`: the TCP control server and the task that owns the feed's WebSocket
share five maps.  A control line is read by `parseControlLine`; `subscribe:TOKEN:SYMBOL` enters
the symbol map and asks the writer task for the token (`addToken`), and
`option_chain_set:{json}` makes the writer task replace one underlying's selection
(`optionChainSet`).  After a reconnect the new socket starts with no subscription and
everything in the symbol map is asked for again (`resubscribe`).

The decoder of the JSON body (`serde_json`) and the Unicode case mapping are parameters.  A
message given to the socket arrives: `State.subscribed` is what the feed then sends ticks
for. -/

namespace AiTrader.Ingestion

abbrev Token := UInt32

/-- One instrument entry carried in the `option_chain_set` control command. -/
structure OptionTokenSpec where
  token : Token
  tradingsymbol : String
  expiry : String
  strike : F64
  optionType : String
  deriving DecidableEq

/-- Wire shape of the `option_chain_set:{json}` control command. -/
structure OptionChainSetCmd where
  underlying : String
  snapshotIntervalSecs : UInt64
  tokens : List OptionTokenSpec
  deriving DecidableEq

/-- Tags of a stored option tick. -/
structure OptionMeta where
  underlying : String
  expiry : String
  strike : F64
  optionType : String
  deriving DecidableEq

/-- Latest-known state for a subscribed option instrument. -/
structure LatestOptionState where
  symbol : String
  lastPrice : F64
  openInterest : Option UInt64
  deriving DecidableEq

/-! ### Control lines -/

/-- `s.splitn(n, sep)`. -/
def splitn : ℕ → Char → List Char → List (List Char)
  | n, _, [] => if n = 0 then [] else [[]]
  | n, sep, c :: cs =>
      if n = 0 then []
      else if n = 1 then [c :: cs]
      else if c = sep then [] :: splitn (n - 1) sep cs
      else match splitn n sep cs with
        | [] => [[c]]
        | part :: parts => (c :: part) :: parts

/-- The digits of `str::parse::<u32>`, most significant first. -/
def parseDigits : List Char → ℕ → Option ℕ
  | [], acc => some acc
  | c :: cs, acc =>
      if 48 ≤ c.toNat ∧ c.toNat ≤ 57 then
        let acc := 10 * acc + (c.toNat - 48)
        if acc < 2 ^ 32 then parseDigits cs acc else none
      else none

/-- `str::parse::<u32>`: ASCII digits, after a `+` if there is one. -/
def parseU32 (cs : List Char) : Option Token :=
  let digits := match cs with
    | '+' :: ds => ds
    | ds => ds
  if digits.isEmpty then none else (parseDigits digits 0).map UInt32.ofNat

/-- What the control server makes of a line. -/
inductive ControlLine
  | subscribe (token : Token) (symbol : String)
  | optionChainSet (cmd : OptionChainSetCmd)
  | invalidToken
  | malformedSubscribe
  | malformedJson
  | empty
  | unknownCommand
  deriving DecidableEq

/-- The control prefix of the bounded option-chain selection command. -/
def OPTION_CHAIN_SET_PREFIX : String := "option_chain_set:"

section
variable (C : Text.Casing) (fromStr : String → Option OptionChainSetCmd)

/-- The JSON body of an `option_chain_set` line, decoded. -/
def parseOptionChainSetLine (line : String) : Option OptionChainSetCmd :=
  fromStr (if Text.startsWith line OPTION_CHAIN_SET_PREFIX then
    String.ofList (line.toList.drop OPTION_CHAIN_SET_PREFIX.toList.length) else line)

/-- The branches of the control server's line loop. -/
def parseControlLine (line : String) : ControlLine :=
  let line := Text.trim line
  if Text.startsWith line "subscribe:" then
    match splitn 3 ':' line.toList with
    | [_, token, symbol] =>
        match parseU32 token with
        | some token => .subscribe token (C.upper (String.ofList symbol))
        | none => .invalidToken
    | _ => .malformedSubscribe
  else if Text.startsWith line OPTION_CHAIN_SET_PREFIX then
    match parseOptionChainSetLine fromStr line with
    | some cmd => .optionChainSet cmd
    | none => .malformedJson
  else if line.isEmpty then .empty
  else .unknownCommand

variable {C fromStr}

/-- The line that the option-chain selector writes goes to the decoder as it was written. -/
theorem parseControlLine_chain {body : String}
    (hlast : ∀ c ∈ body.toList.getLast?, Text.isWhitespace c = false) :
    parseControlLine C fromStr (OPTION_CHAIN_SET_PREFIX ++ body) =
      match fromStr body with
      | some cmd => .optionChainSet cmd
      | none => .malformedJson := by
  have hlist : (OPTION_CHAIN_SET_PREFIX ++ body).toList =
      "option_chain_set:".toList ++ body.toList := String.toList_append
  have htrim : Text.trim (OPTION_CHAIN_SET_PREFIX ++ body) = OPTION_CHAIN_SET_PREFIX ++ body := by
    rw [Text.trim, Text.trimBoth_eq_self, String.ofList_toList]
    · rw [hlist]
      simp [Text.isWhitespace]
    · rw [hlist, List.getLast?_append]
      cases hb : body.toList.getLast? with
      | none => simp [Text.isWhitespace]
      | some d => simpa using hlast d hb
  have hother : Text.startsWith (OPTION_CHAIN_SET_PREFIX ++ body) "subscribe:" = false := by
    rw [Text.startsWith, hlist]
    rfl
  have hprefix : Text.startsWith (OPTION_CHAIN_SET_PREFIX ++ body) OPTION_CHAIN_SET_PREFIX = true := by
    rw [Text.startsWith, hlist]
    exact List.isPrefixOf_iff_prefix.mpr (List.prefix_append _ _)
  have hbody : parseOptionChainSetLine fromStr (OPTION_CHAIN_SET_PREFIX ++ body) = fromStr body := by
    rw [parseOptionChainSetLine, if_pos hprefix, hlist]
    show fromStr (String.ofList (List.drop _ ("option_chain_set:".toList ++ body.toList))) = _
    rw [OPTION_CHAIN_SET_PREFIX, List.drop_left, String.ofList_toList]
  rw [parseControlLine]
  simp only [htrim, hother, hprefix, hbody, Bool.false_eq_true, if_true, if_false]

end

/-! ### The shared maps -/

/-- A message to the feed's WebSocket.  Tokens are asked for in Full mode. -/
inductive WsMessage
  | subscribe (tokens : List Token)
  | unsubscribe (tokens : List Token)

structure State where
  symbolMap : Finmap (fun _ : Token => String) := ∅
  optionMeta : Finmap (fun _ : Token => OptionMeta) := ∅
  /-- A token set is a list without repetitions. -/
  optionSelection : Finmap (fun _ : String => List Token) := ∅
  latestState : Finmap (fun _ : Token => LatestOptionState) := ∅
  snapshotInterval : UInt64 := 0
  /-- The tokens the feed has been asked for on the current WebSocket. -/
  subscribed : Finset Token := ∅

namespace State

variable (s : State)

/-- The feed's side of a message. -/
def send : WsMessage → State
  | .subscribe tokens => { s with subscribed := s.subscribed ∪ tokens.toFinset }
  | .unsubscribe tokens => { s with subscribed := s.subscribed \ tokens.toFinset }

/-- `subscribe:TOKEN:SYMBOL`: a token that is already in the symbol map is not asked for
again. -/
def addToken (token : Token) (symbol : String) : State :=
  if token ∈ s.symbolMap then s
  else { s with symbolMap := s.symbolMap.insert token symbol }.send (.subscribe [token])

/-- The recorded selection of `underlying`, empty when there is none. -/
def selectionOf (underlying : String) : List Token :=
  (s.optionSelection.lookup underlying).getD []

/-- The metadata and the symbol of every token of the command, merged into the shared maps. -/
def mergeTokens (C : Text.Casing) (underlying : String) (tokens : List OptionTokenSpec) : State :=
  { s with
    optionMeta := tokens.foldl
      (fun m t => m.insert t.token ⟨underlying, t.expiry, t.strike, t.optionType⟩) s.optionMeta
    symbolMap := tokens.foldl
      (fun m t => m.insert t.token (C.upper t.tradingsymbol)) s.symbolMap }

/-- Metadata, latest state and symbol of the removed tokens are dropped. -/
def dropTokens (removed : List Token) : State :=
  { s with
    optionMeta := removed.foldl (fun m t => m.erase t) s.optionMeta
    latestState := removed.foldl (fun m t => m.erase t) s.latestState
    symbolMap := removed.foldl (fun m t => m.erase t) s.symbolMap }

/-- The writer task's `OptionChainSet` arm: the command's tokens are compared with the
underlying's recorded selection only. -/
def optionChainSet (C : Text.Casing) (cmd : OptionChainSetCmd) : State :=
  let newTokens := (cmd.tokens.map OptionTokenSpec.token).dedup
  let prevTokens := s.selectionOf cmd.underlying
  let added := newTokens.filter (fun t => t ∉ prevTokens)
  let removed := prevTokens.filter (fun t => t ∉ newTokens)
  let merged := (s.mergeTokens C cmd.underlying cmd.tokens).dropTokens removed
  let recorded := { merged with
    optionSelection := merged.optionSelection.insert cmd.underlying newTokens
    snapshotInterval := cmd.snapshotIntervalSecs }
  -- Nothing is sent for an empty list, which would change nothing.
  (recorded.send (.subscribe added)).send (.unsubscribe removed)

/-- A new WebSocket starts with no subscription and gets the keys of the symbol map. -/
def resubscribe : State := { s with subscribed := s.symbolMap.keys }

/-- A decoded tick of a token with option metadata updates the latest state; every other tick
goes to the equity sinks. -/
def routeTick (token : Token) (lastPrice : F64) (openInterest : Option UInt64) : State :=
  if token ∈ s.optionMeta then
    let symbol := (s.symbolMap.lookup token).getD "UNKNOWN"
    { s with latestState := s.latestState.insert token ⟨symbol, lastPrice, openInterest⟩ }
  else s

end State

/-- What the service handles, one at a time. -/
inductive Event
  | line (text : String)
  | reconnect
  | tick (token : Token) (lastPrice : F64) (openInterest : Option UInt64)

section
variable (C : Text.Casing) (fromStr : String → Option OptionChainSetCmd)

/-- A control line, through to what the writer task makes of it. -/
def State.control (s : State) (line : ControlLine) : State :=
  match line with
  | .subscribe token symbol => s.addToken token symbol
  | .optionChainSet cmd => s.optionChainSet C cmd
  | _ => s

def State.handle (s : State) : Event → State
  | .line text => s.control C (parseControlLine C fromStr text)
  | .reconnect => s.resubscribe
  | .tick token lastPrice openInterest => s.routeTick token lastPrice openInterest

end

/-! ### What an operation does to the keys -/

section
variable {β : Type} {t : Token}

theorem mem_foldl_insert {α : Type} (key : α → Token) (val : α → β) (xs : List α)
    (m : Finmap (fun _ : Token => β)) :
    t ∈ xs.foldl (fun m x => m.insert (key x) (val x)) m ↔ t ∈ xs.map key ∨ t ∈ m := by
  induction xs generalizing m with
  | nil => simp
  | cons x xs ih =>
      rw [List.foldl_cons, ih, Finmap.mem_insert, List.map_cons, List.mem_cons]
      tauto

theorem mem_foldl_erase (xs : List Token) (m : Finmap (fun _ : Token => β)) :
    t ∈ xs.foldl (fun m x => m.erase x) m ↔ t ∈ m ∧ t ∉ xs := by
  induction xs generalizing m with
  | nil => simp
  | cons x xs ih =>
      rw [List.foldl_cons, ih, Finmap.mem_erase, List.mem_cons]
      tauto

end

namespace State

variable {s : State} {C : Text.Casing} {cmd : OptionChainSetCmd} {t token : Token}
  {symbol u : String}

@[simp] theorem send_symbolMap (m : WsMessage) : (s.send m).symbolMap = s.symbolMap := by
  cases m <;> rfl

@[simp] theorem send_optionMeta (m : WsMessage) : (s.send m).optionMeta = s.optionMeta := by
  cases m <;> rfl

@[simp] theorem send_latestState (m : WsMessage) : (s.send m).latestState = s.latestState := by
  cases m <;> rfl

@[simp] theorem send_selectionOf (m : WsMessage) (u : String) :
    (s.send m).selectionOf u = s.selectionOf u := by
  cases m <;> rfl

theorem mem_addToken_symbolMap :
    t ∈ (s.addToken token symbol).symbolMap ↔ t = token ∨ t ∈ s.symbolMap := by
  unfold addToken
  split
  · rename_i hmem
    exact ⟨Or.inr, fun h => h.elim (fun heq => heq ▸ hmem) id⟩
  · rw [send_symbolMap, Finmap.mem_insert]

theorem mem_addToken_subscribed : t ∈ (s.addToken token symbol).subscribed ↔
    t ∈ s.subscribed ∨ (t = token ∧ token ∉ s.symbolMap) := by
  unfold addToken
  split
  · rename_i hmem
    simp [hmem]
  · rename_i hmem
    simp [send, hmem, or_comm]

@[simp] theorem addToken_optionMeta : (s.addToken token symbol).optionMeta = s.optionMeta := by
  unfold addToken
  split
  · rfl
  · rw [send_optionMeta]

@[simp] theorem addToken_selectionOf :
    (s.addToken token symbol).selectionOf u = s.selectionOf u := by
  unfold addToken
  split
  · rfl
  · rw [send_selectionOf]
    rfl

theorem mem_optionChainSet_symbolMap : t ∈ (s.optionChainSet C cmd).symbolMap ↔
    t ∈ cmd.tokens.map OptionTokenSpec.token ∨
      (t ∈ s.symbolMap ∧ t ∉ s.selectionOf cmd.underlying) := by
  unfold optionChainSet
  simp only [send_symbolMap, dropTokens, mergeTokens, mem_foldl_erase,
    mem_foldl_insert OptionTokenSpec.token, List.mem_filter, decide_eq_true_eq, List.mem_dedup]
  tauto

theorem mem_optionChainSet_optionMeta : t ∈ (s.optionChainSet C cmd).optionMeta ↔
    t ∈ cmd.tokens.map OptionTokenSpec.token ∨
      (t ∈ s.optionMeta ∧ t ∉ s.selectionOf cmd.underlying) := by
  unfold optionChainSet
  simp only [send_optionMeta, dropTokens, mergeTokens, mem_foldl_erase,
    mem_foldl_insert OptionTokenSpec.token, List.mem_filter, decide_eq_true_eq, List.mem_dedup]
  tauto

/-- Only the difference of the two selections is sent. -/
theorem mem_optionChainSet_subscribed : t ∈ (s.optionChainSet C cmd).subscribed ↔
    (t ∈ cmd.tokens.map OptionTokenSpec.token ∧ t ∉ s.selectionOf cmd.underlying) ∨
      (t ∈ s.subscribed ∧
        (t ∈ s.selectionOf cmd.underlying → t ∈ cmd.tokens.map OptionTokenSpec.token)) := by
  unfold optionChainSet
  simp only [send, dropTokens, mergeTokens, Finset.mem_sdiff, Finset.mem_union,
    List.mem_toFinset, List.mem_filter, decide_eq_true_eq, List.mem_dedup]
  tauto

theorem mem_optionChainSet_selectionOf : t ∈ (s.optionChainSet C cmd).selectionOf u ↔
    if u = cmd.underlying then t ∈ cmd.tokens.map OptionTokenSpec.token
    else t ∈ s.selectionOf u := by
  unfold optionChainSet
  rw [send_selectionOf, send_selectionOf, selectionOf]
  split
  · rename_i hu
    rw [hu, Finmap.lookup_insert, Option.getD_some, List.mem_dedup]
  · rename_i hu
    rw [Finmap.lookup_insert_of_ne _ hu]
    rfl

@[simp] theorem routeTick_symbolMap {p : F64} {oi : Option UInt64} :
    (s.routeTick t p oi).symbolMap = s.symbolMap := by
  unfold routeTick
  split <;> rfl

@[simp] theorem routeTick_optionMeta {p : F64} {oi : Option UInt64} :
    (s.routeTick t p oi).optionMeta = s.optionMeta := by
  unfold routeTick
  split <;> rfl

@[simp] theorem routeTick_subscribed {p : F64} {oi : Option UInt64} :
    (s.routeTick t p oi).subscribed = s.subscribed := by
  unfold routeTick
  split <;> rfl

@[simp] theorem routeTick_selectionOf {p : F64} {oi : Option UInt64} :
    (s.routeTick t p oi).selectionOf u = s.selectionOf u := by
  unfold routeTick
  split <;> rfl

end State

end AiTrader.Ingestion
