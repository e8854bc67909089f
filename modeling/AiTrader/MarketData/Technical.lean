import AiTrader.Float
import AiTrader.Library.Keyed
import AiTrader.MarketData.Messages

/-! # The technical agent

`src/agents/technical/src`: every tick feeds the RSI and the VWAP of its symbol (`state.rs`,
`indicators.rs`, the event loop of `main.rs`).  The RSI calculator is the `ta` crate's, a
parameter here, and doubles are rounded by `rnd`.

* `updateRsi`, `updateVwap`: `update_rsi`, `update_vwap`.
* `processTick`: one turn of the event loop, with what it publishes a signal from. -/

namespace AiTrader.Technical

open MarketData Keyed

def rsiPeriod : ℕ := 14

/-- The indicators of one symbol. -/
structure SymbolState (R : Type*) where
  rsiIndicator : R
  priceCount : ℕ := 0
  cumulativeTpVolume : F64 := .fin 0
  cumulativeVolume : F64 := .fin 0
  prevCumulativeVolume : ℕ := 0

/-- The `ta` crate's calculator. -/
structure RsiIndicator (R : Type*) where
  new : R
  next : R → F64 → R × F64

/-- What a signal is computed from. -/
structure SignalInputs where
  symbol : String
  rsi : F64
  vwap : F64
  price : F64
  timestampMs : Int64

section
variable {R : Type*} (rsi : RsiIndicator R) (rnd : ℚ → F64)

def SymbolState.new : SymbolState R := { rsiIndicator := rsi.new }

def rsiWarmedUp (state : SymbolState R) : Bool := rsiPeriod ≤ state.priceCount

def updateRsi (state : SymbolState R) (price : F64) : SymbolState R × Option F64 :=
  let r := rsi.next state.rsiIndicator price
  let state := { state with rsiIndicator := r.1, priceCount := state.priceCount + 1 }
  (state, if rsiWarmedUp state then some r.2 else none)

def updateVwap (state : SymbolState R) (price : F64) (volumeDelta : ℕ) :
    SymbolState R × Option F64 :=
  if volumeDelta = 0 then
    (state,
      if F64.lt (.fin 0) state.cumulativeVolume then
        some (F64.div rnd state.cumulativeTpVolume state.cumulativeVolume)
      else none)
  else
    let vol := rnd volumeDelta
    let state := { state with
      cumulativeTpVolume := F64.add rnd state.cumulativeTpVolume (F64.mul rnd price vol)
      cumulativeVolume := F64.add rnd state.cumulativeVolume vol }
    (state,
      if F64.eq state.cumulativeVolume (.fin 0) then none
      else some (F64.div rnd state.cumulativeTpVolume state.cumulativeVolume))

/-- The indicators of a symbol with one more tick of it. -/
def symbolStep (o : Option (SymbolState R)) (tick : Tick) :
    SymbolState R × List SignalInputs :=
  let symState := o.getD (.new rsi)
  let vol := asU64 tick.volume.toInt
  let volumeDelta := vol - symState.prevCumulativeVolume
  let symState := { symState with prevCumulativeVolume := vol }
  let (symState, rsiOpt) := updateRsi rsi symState tick.lastTradedPrice
  let (symState, vwapOpt) := updateVwap rnd symState tick.lastTradedPrice volumeDelta
  (symState,
    match rsiOpt, vwapOpt with
    | some rsi, some vwap => [⟨tick.symbol, rsi, vwap, tick.lastTradedPrice, tick.timestampMs⟩]
    | _, _ => [])

/-- One turn of the event loop: the entry of the symbol, or a new one, is updated. -/
def processTick (market : Bank String (SymbolState R)) (tick : Tick) :
    Bank String (SymbolState R) × List SignalInputs :=
  (market.set tick.symbol (symbolStep rsi rnd (market.get tick.symbol) tick).1,
    (symbolStep rsi rnd (market.get tick.symbol) tick).2)

/-- The agent after a list of ticks, and what it has published. -/
def run (ticks : List Tick) : Bank String (SymbolState R) × List SignalInputs :=
  Keyed.run (processTick rsi rnd) Table.empty ticks

/-- The denominator of a symbol's VWAP; `0.0` before its first tick. -/
def denominator (symbol : String) (ticks : List Tick) : F64 :=
  (((run rsi rnd ticks).1.get symbol).getD (.new rsi)).cumulativeVolume

/-- The indicators of one symbol after its ticks. -/
def symbolRun (ticks : List Tick) : Option (SymbolState R) × List SignalInputs :=
  Keyed.run (single (symbolStep rsi rnd)) none ticks

variable {rsi rnd} {ticks : List Tick} {tick : Tick} {symbol : String}
  {o : Option (SymbolState R)} {state : SymbolState R} {price : F64} {volumeDelta : ℕ}

theorem updateVwap_denominator :
    (updateVwap rnd state price volumeDelta).1.cumulativeVolume =
      if volumeDelta = 0 then state.cumulativeVolume
      else F64.add rnd state.cumulativeVolume (rnd volumeDelta) := by
  rw [updateVwap]
  split
  · rfl
  · rfl

theorem updateVwap_prev :
    (updateVwap rnd state price volumeDelta).1.prevCumulativeVolume =
      state.prevCumulativeVolume := by
  rw [updateVwap]
  split
  · rfl
  · rfl

theorem symbolStep_counters :
    (symbolStep rsi rnd o tick).1.prevCumulativeVolume = asU64 tick.volume.toInt ∧
      (symbolStep rsi rnd o tick).1.cumulativeVolume =
        if asU64 tick.volume.toInt - (o.getD (.new rsi)).prevCumulativeVolume = 0 then
          (o.getD (.new rsi)).cumulativeVolume
        else F64.add rnd (o.getD (.new rsi)).cumulativeVolume
          (rnd (asU64 tick.volume.toInt - (o.getD (.new rsi)).prevCumulativeVolume : ℕ)) := by
  constructor
  · rw [symbolStep]
    exact updateVwap_prev
  · rw [symbolStep]
    exact updateVwap_denominator

theorem symbolRun_concat :
    (symbolRun rsi rnd (ticks ++ [tick])).1 =
      some (symbolStep rsi rnd (symbolRun rsi rnd ticks).1 tick).1 := by
  rw [symbolRun, run_concat]
  rfl

theorem denominator_eq :
    denominator rsi rnd symbol ticks =
      ((symbolRun rsi rnd (ticksOf symbol ticks)).1.getD
        (.new rsi)).cumulativeVolume := by
  rw [denominator, show run rsi rnd ticks =
    Keyed.run (feed Tick.symbol (symbolStep rsi rnd)) Table.empty ticks from rfl,
    (feed_projection Tick.symbol (symbolStep rsi rnd)).view_run]
  rfl

end

end AiTrader.Technical
