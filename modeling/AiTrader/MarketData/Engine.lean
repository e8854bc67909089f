import AiTrader.Float
import AiTrader.Library.Keyed
import AiTrader.MarketData.Messages

/-! # The candle engine

`src/alpha-terminal/src/engine.rs`: ticks are folded into one open candle per symbol, which is
emitted when a tick of a later window arrives.  The length of a window is a parameter here; the
engine's is ten minutes.

* `SymbolState.next`: one more tick of a symbol.
* `processTick`: `process_tick`.
* `emitted`, `active`: what a run of ticks has emitted for a symbol, and the candle it has left
  open; `emitted_eq`, `active_eq`: only the ticks of that symbol matter. -/

namespace AiTrader.AlphaTerminal

open MarketData Keyed

/-- The window of `process_tick`. -/
def windowMs : ℕ+ := 600000

structure SymbolState where
  activeCandle : OhlcCandle
  prevCumulativeVolume : ℕ
  deriving DecidableEq

/-- `HashMap<String, SymbolState>`. -/
abbrev OhlcEngine := Bank String SymbolState

/-- `tick.volume.max(0) as u64`. -/
def cumulativeVolume (tick : Tick) : ℕ := (max tick.volume.toInt 0).toNat

/-- The candle that a tick opens.  The end of the last window of all wraps. -/
def openCandle (W : ℕ+) (tick : Tick) (volumeDelta : ℕ) : OhlcCandle where
  symbol := tick.symbol
  startTimestampMs := tick.windowStart W
  endTimestampMs := (tick.windowStart W + W) % 2 ^ 64
  «open» := tick.lastTradedPrice
  high := tick.lastTradedPrice
  low := tick.lastTradedPrice
  close := tick.lastTradedPrice
  volume := volumeDelta

/-- The candle with one more tick of its window. -/
def updateCandle (candle : OhlcCandle) (tick : Tick) (volumeDelta : ℕ) : OhlcCandle :=
  { candle with
    high := F64.fmax candle.high tick.lastTradedPrice
    low := F64.fmin candle.low tick.lastTradedPrice
    close := tick.lastTradedPrice
    volume := candle.volume + volumeDelta }

/-- The first tick of a symbol. -/
def SymbolState.first (W : ℕ+) (tick : Tick) : SymbolState where
  activeCandle := openCandle W tick (cumulativeVolume tick)
  prevCumulativeVolume := cumulativeVolume tick

/-- A later tick of a symbol, and the candle it completes. -/
def SymbolState.next (W : ℕ+) (state : SymbolState) (tick : Tick) :
    SymbolState × Option OhlcCandle :=
  let volumeDelta := cumulativeVolume tick - state.prevCumulativeVolume
  let state := { state with prevCumulativeVolume := cumulativeVolume tick }
  if tick.windowStart W = state.activeCandle.startTimestampMs then
    ({ state with activeCandle := updateCandle state.activeCandle tick volumeDelta }, none)
  else if tick.windowStart W > state.activeCandle.startTimestampMs then
    ({ state with activeCandle := openCandle W tick volumeDelta }, some state.activeCandle)
  else
    -- a late tick: its volume is read, and nothing else
    (state, none)

def processTick (W : ℕ+) (engine : OhlcEngine) (tick : Tick) : OhlcEngine × Option OhlcCandle :=
  match engine.get tick.symbol with
  | none => (engine.set tick.symbol (.first W tick), none)
  | some state =>
      (engine.set tick.symbol (state.next W tick).1, (state.next W tick).2)

/-- `get_active_candle`. -/
def getActiveCandle (engine : OhlcEngine) (symbol : String) : Option OhlcCandle :=
  (engine.get symbol).map SymbolState.activeCandle

/-! ### Runs -/

/-- The engine after a list of ticks, and the candles it has emitted. -/
def run (W : ℕ+) (ticks : List Tick) : OhlcEngine × List OhlcCandle :=
  Keyed.run (fun engine tick =>
    ((processTick W engine tick).1, (processTick W engine tick).2.toList)) Table.empty ticks

/-- The candles emitted for a symbol. -/
def emitted (W : ℕ+) (symbol : String) (ticks : List Tick) : List OhlcCandle :=
  (run W ticks).2.filter fun candle => decide (candle.symbol = symbol)

/-- The candle left open for a symbol. -/
def active (W : ℕ+) (symbol : String) (ticks : List Tick) : Option OhlcCandle :=
  getActiveCandle (run W ticks).1 symbol

/-- The engine of one symbol. -/
def symbolStep (W : ℕ+) : Option SymbolState → Tick → SymbolState × List OhlcCandle
  | none, tick => (.first W tick, [])
  | some state, tick => ((state.next W tick).1, (state.next W tick).2.toList)

/-- The engine of one symbol after its ticks, and the candles it has emitted. -/
def symbolRun (W : ℕ+) (ticks : List Tick) : Option SymbolState × List OhlcCandle :=
  Keyed.run (single (symbolStep W)) none ticks

section
variable {W : ℕ+} {state : SymbolState} {tick : Tick} {ticks : List Tick} {symbol : String}

theorem next_same (h : tick.windowStart W = state.activeCandle.startTimestampMs) :
    state.next W tick =
      (⟨updateCandle state.activeCandle tick (cumulativeVolume tick - state.prevCumulativeVolume),
        cumulativeVolume tick⟩, none) := by
  rw [SymbolState.next]
  exact if_pos h

theorem next_newer (h : state.activeCandle.startTimestampMs < tick.windowStart W) :
    state.next W tick =
      (⟨openCandle W tick (cumulativeVolume tick - state.prevCumulativeVolume),
        cumulativeVolume tick⟩, some state.activeCandle) := by
  rw [SymbolState.next]
  exact (if_neg (Nat.ne_of_gt h)).trans (if_pos h)

theorem next_late (h : tick.windowStart W < state.activeCandle.startTimestampMs) :
    state.next W tick = (⟨state.activeCandle, cumulativeVolume tick⟩, none) := by
  rw [SymbolState.next]
  exact (if_neg (Nat.ne_of_lt h)).trans (if_neg (Nat.not_lt.mpr (Nat.le_of_lt h)))

/-- Only a tick of a newer window moves the open candle on. -/
theorem next_not_newer (h : tick.windowStart W ≤ state.activeCandle.startTimestampMs) :
    (state.next W tick).2 = none ∧
      (state.next W tick).1.activeCandle.startTimestampMs =
        state.activeCandle.startTimestampMs := by
  rcases Nat.lt_or_eq_of_le h with hlate | hsame
  · rw [next_late hlate]
    exact ⟨rfl, rfl⟩
  · rw [next_same hsame]
    exact ⟨rfl, rfl⟩

theorem next_symbol (h : state.activeCandle.symbol = tick.symbol) :
    (state.next W tick).1.activeCandle.symbol = tick.symbol ∧
      ∀ candle ∈ (state.next W tick).2, candle.symbol = tick.symbol := by
  rcases lt_trichotomy (tick.windowStart W) state.activeCandle.startTimestampMs with
    hlate | hsame | hnewer
  · rw [next_late hlate]
    simp [h]
  · rw [next_same hsame]
    simp [updateCandle, h]
  · rw [next_newer hnewer]
    simp [openCandle, h]

theorem run_eq_feed : run W ticks = Keyed.run (feed Tick.symbol (symbolStep W)) Table.empty ticks := by
  rw [run]
  congr 1
  funext engine tick
  rw [processTick, feed]
  cases engine.get tick.symbol with
  | none => rfl
  | some state => rfl

theorem symbolRun_concat :
    symbolRun W (ticks ++ [tick]) =
      (some (symbolStep W (symbolRun W ticks).1 tick).1,
        (symbolRun W ticks).2 ++ (symbolStep W (symbolRun W ticks).1 tick).2) :=
  run_concat

theorem active_eq :
    active W symbol ticks =
      (symbolRun W (ticksOf symbol ticks)).1.map SymbolState.activeCandle := by
  rw [active, getActiveCandle, run_eq_feed, (feed_projection Tick.symbol (symbolStep W)).view_run]
  rfl

theorem emitted_eq : emitted W symbol ticks = (symbolRun W (ticksOf symbol ticks)).2 := by
  rw [emitted, run_eq_feed]
  refine (feed_projection Tick.symbol (symbolStep W)).filter_run
    (I := fun symbol o => ∀ state ∈ o, state.activeCandle.symbol = symbol)
    (fun symbol state h => by cases h) (fun o tick h => ?_) (fun o tick h => ?_) ticks symbol
  · intro state' hstate
    obtain rfl := Option.some.inj hstate
    cases o with
    | none => rfl
    | some state => exact (next_symbol (h state rfl)).1
  · cases o with
    | none => simp [single, symbolStep]
    | some state => simpa [single, symbolStep] using (next_symbol (W := W) (h state rfl)).2

end

end AiTrader.AlphaTerminal
