import AiTrader.Library.Transition
import AiTrader.OptionChain.Selection
import AiTrader.Text
import Mathlib.Data.Finmap

/-! # The selector's loop

`src/aggregator/src/option_chain_selector.rs`.  Every cycle the loop fetches the instrument
masters and the spot prices, builds the selection of each configured underlying and pushes it
to the ingestion service, unless the ATM strike has moved by less than the threshold since the
last push for that name.

`State.lastAtm` is the loop's own memory; `State.pushed` is the list of what ingestion was told,
every push having succeeded.  What the exchange API answers in a cycle is the input of that
cycle. -/

namespace AiTrader.OptionChain

/-- A row of an exchange's instrument master, as far as the selector reads it. -/
structure Instrument where
  instrumentToken : UInt64
  tradingsymbol : String
  name : String
  expiry : String
  strike : F64
  instrumentType : String

/-- The exchanges' derivative segments. -/
inductive Exchange
  | nfo | bfo
  deriving DecidableEq

/-- Resolved selector configuration. -/
structure SelectorConfig where
  underlyings : List String
  chain : ChainConfig

/-- What the exchange API answers in a cycle (`none`: the request failed), and the date. -/
structure Cycle where
  today : Date
  instrumentsFor : Exchange → Option (List Instrument)
  lastPrices : Option (String → Option F64)

/-- What the language and its libraries do for the selector: case mapping, the parser of a
`%Y-%m-%d` date, sorting and rounding. -/
structure Runtime where
  casing : Text.Casing
  parseDate : String → Option Date
  sort : StrikeSort
  rnd : ℚ → F64

/-- The loop's memory, and the selections it has pushed, oldest first. -/
structure State where
  lastAtm : Finmap (fun _ : String => F64) := ∅
  pushed : List ChainSelection := []

/-- The selection that ingestion was last told for `name`. -/
def State.lastPushed (s : State) (name : String) : Option ChainSelection :=
  (s.pushed.filter fun p => p.underlying = name).getLast?

section
variable (R : Runtime)

/-! ### Name reconciliation -/

/-- `s.trim().to_uppercase()`. -/
def Runtime.upperTrim (s : String) : String := R.casing.upper (Text.trim s)

/-- The name the derivative contracts group under. -/
def nfoName (configured : String) : String :=
  let key := R.upperTrim configured
  if key ∈ ["NIFTY 50", "NIFTY50", "NIFTY"] then "NIFTY"
  else if key ∈ ["NIFTY BANK", "BANKNIFTY"] then "BANKNIFTY"
  else if key ∈ ["NIFTY FIN SERVICE", "FINNIFTY"] then "FINNIFTY"
  else if key ∈ ["NIFTY MIDCAP SELECT", "MIDCPNIFTY"] then "MIDCPNIFTY"
  else if key ∈ ["NIFTY NEXT 50", "NIFTYNXT50"] then "NIFTYNXT50"
  else Text.trim configured

/-- The quote key of an underlying's spot price. -/
def spotQuoteKey (underlying : String) : String :=
  let key := R.upperTrim underlying
  if key ∈ ["NIFTY", "NIFTY 50"] then "NSE:NIFTY 50"
  else if key ∈ ["BANKNIFTY", "NIFTY BANK"] then "NSE:NIFTY BANK"
  else if key ∈ ["FINNIFTY", "NIFTY FIN SERVICE"] then "NSE:NIFTY FIN SERVICE"
  else if key ∈ ["MIDCPNIFTY", "NIFTY MIDCAP SELECT"] then "NSE:NIFTY MIDCAP SELECT"
  else if key = "SENSEX" then "BSE:SENSEX"
  else if key = "BANKEX" then "BSE:BANKEX"
  else "NSE:" ++ key

/-- The derivative exchange an underlying's option chain is listed on. -/
def derivativeExchange (name : String) : Exchange :=
  if R.upperTrim name ∈ ["SENSEX", "BANKEX", "SENSEX50"] then .bfo else .nfo

/-! ### Instrument mapping -/

def parseOptionType (instrumentType : String) : Option OptionType :=
  let key := R.casing.upper instrumentType
  if key = "CE" then some .ce
  else if key = "PE" then some .pe
  else if key = "FUT" then some .fut
  else none

/-- A row that cannot form a contract is dropped. -/
def toOptionContract (r : Instrument) : Option OptionContract := do
  let optionType ← parseOptionType R r.instrumentType
  let expiry ← R.parseDate (Text.trim r.expiry)
  let name := Text.trim r.name
  let underlying := if name.isEmpty then Text.trim r.tradingsymbol else name
  let token ← if r.instrumentToken.toNat < 2 ^ 32 then some r.instrumentToken.toUInt32 else none
  return ⟨token, Text.trim r.tradingsymbol, underlying, optionType, r.strike, expiry⟩

def toOptionContracts (rows : List Instrument) : List OptionContract :=
  rows.filterMap (toOptionContract R)

/-! ### The loop -/

variable (cfg : SelectorConfig)

/-- The masters of the exchanges that the configured underlyings need, as far as they could be
fetched. -/
def masters (c : Cycle) : List (Exchange × List OptionContract) :=
  let needed := (cfg.underlyings.map fun u => derivativeExchange R (nfoName R u)).dedup
  needed.filterMap fun exchange =>
    (c.instrumentsFor exchange).map fun rows => (exchange, toOptionContracts R rows)

/-- The selection of one configured underlying, when the cycle comes to build one. -/
def selectionFor (c : Cycle) (spots : String → Option F64) (configured : String) :
    Option ChainSelection :=
  let name := nfoName R configured
  match (masters R cfg c).lookup (derivativeExchange R name) with
  | none => none
  | some instruments =>
      if instruments.isEmpty then none
      else match spots (spotQuoteKey R configured) with
        | none => none
        | some spot => some (buildChainSelection R.sort R.rnd instruments name spot c.today cfg.chain)

/-- Push on the first cycle, then only once the ATM strike has actually moved. -/
def State.shouldPush (s : State) (name : String) (selection : ChainSelection) : Bool :=
  match s.lastAtm.lookup name with
  | none => true
  | some prev => shouldRecenter R.rnd prev selection.atmStrike cfg.chain.recenterThreshold

def State.push (s : State) (name : String) (selection : ChainSelection) : State where
  lastAtm := s.lastAtm.insert name selection.atmStrike
  pushed := s.pushed ++ [selection]

/-- One turn of the loop over the configured underlyings. -/
def State.evaluate (c : Cycle) (spots : String → Option F64) (s : State) (configured : String) :
    State :=
  let name := nfoName R configured
  match selectionFor R cfg c spots configured with
  | none => s
  | some selection =>
      if selection.entries.isEmpty then s
      else if s.shouldPush R cfg name selection then s.push name selection
      else s

/-- One cycle. -/
def State.cycle (s : State) (c : Cycle) : State :=
  if (masters R cfg c).all (fun m => m.2.isEmpty) then s
  else match c.lastPrices with
    | none => s
    | some spots => cfg.underlyings.foldl (State.evaluate R cfg c spots) s

/-- `build_chain_selection` is run for `configured` in the cycle and selects something. -/
def Selects (c : Cycle) (configured : String) (selection : ChainSelection) : Prop :=
  configured ∈ cfg.underlyings ∧ (masters R cfg c).all (fun m => m.2.isEmpty) = false ∧
    ∃ spots, c.lastPrices = some spots ∧ selectionFor R cfg c spots configured = some selection ∧
      selection.entries ≠ []

end

end AiTrader.OptionChain
