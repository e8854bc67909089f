import AiTrader.Library.Keyed
import AiTrader.MarketData.Messages

/-! # The live candle server

`src/aggregator/src/ohlc_server.rs`: the tick loop keeps one candle per symbol and broadcasts it
with every tick, every five seconds, and once more when a tick of another bucket arrives.  The
last is the completed candle: the one that the metric counts.  The interval is a parameter here;
the server's is one minute.  A timer goes through the candles in some order.

* `CandleAccumulator`: `new`, `update`, `to_json`.
* `step`: one event of the loop of `run_ohlc_pipeline`.
* `completed`: the completed candles of a symbol; `completed_eq`: they depend on the ticks of that
  symbol alone. -/

namespace AiTrader.Aggregator

open MarketData Keyed

/-- `CANDLE_INTERVAL_MS`. -/
def candleIntervalMs : ℕ+ := 60000

structure CandleAccumulator where
  symbol : String
  bucketStartMs : ℕ
  «open» : F64
  high : F64
  low : F64
  close : F64
  volume : ℕ
  tickCount : ℕ
  deriving DecidableEq

namespace CandleAccumulator

def new (W : ℕ+) (symbol : String) (timestampMs : ℕ) (price : F64) (volume : ℕ) :
    CandleAccumulator where
  symbol := symbol
  bucketStartMs := timestampMs / W * W
  «open» := price
  high := price
  low := price
  close := price
  volume := volume
  tickCount := 1

def update (acc : CandleAccumulator) (price : F64) (volume : ℕ) : CandleAccumulator :=
  { acc with
    high := if F64.lt acc.high price then price else acc.high
    low := if F64.lt price acc.low then price else acc.low
    close := price
    volume := acc.volume + volume
    tickCount := acc.tickCount + 1 }

def toJson (acc : CandleAccumulator) : CandleJson where
  symbol := acc.symbol
  startTimestampMs := acc.bucketStartMs
  «open» := acc.open
  high := acc.high
  low := acc.low
  close := acc.close
  volume := acc.volume

end CandleAccumulator

/-- What is sent to the frontend.  On the wire both are the same; the metric counts the first. -/
inductive Message
  | completed (candle : CandleJson)
  | live (candle : CandleJson)
  deriving DecidableEq

def Message.candle : Message → CandleJson
  | .completed candle => candle
  | .live candle => candle

def Message.completed? : Message → Option CandleJson
  | .completed candle => some candle
  | .live _ => none

/-- What the loop waits for. -/
inductive Event
  | tick (tick : Tick)
  | flush
  deriving DecidableEq

def Event.tick? : Event → Option Tick
  | .tick t => some t
  | .flush => none

abbrev Accumulators := Bank String CandleAccumulator

/-- A tick opens a candle. -/
def openAccumulator (W : ℕ+) (tick : Tick) : CandleAccumulator :=
  .new W tick.symbol (asU64 tick.timestampMs.toInt) tick.lastTradedPrice (asU64 tick.volume.toInt)

/-- A tick of a symbol with or without an open candle. -/
def symbolStep (W : ℕ+) : Option CandleAccumulator → Tick → CandleAccumulator × List Message
  | some acc, tick =>
      if acc.bucketStartMs = tick.windowStart W then
        let acc := acc.update tick.lastTradedPrice (asU64 tick.volume.toInt)
        (acc, [.live acc.toJson])
      else
        -- any other bucket, an older one too
        (openAccumulator W tick, [.completed acc.toJson, .live (openAccumulator W tick).toJson])
  | none, tick => (openAccumulator W tick, [.live (openAccumulator W tick).toJson])

def step (W : ℕ+) (accumulators : Accumulators) : Event → Accumulators × List Message
  | .tick tick =>
      let r := symbolStep W (accumulators.get tick.symbol) tick
      (accumulators.set tick.symbol r.1, r.2)
  | .flush =>
      (accumulators,
        (accumulators.rows.filter fun row => 0 < row.2.tickCount).map fun row =>
          .live row.2.toJson)

/-- The loop after a list of events, and all it has sent. -/
def run (W : ℕ+) (events : List Event) : Accumulators × List Message :=
  Keyed.run (step W) Table.empty events

/-- The completed candles of a symbol. -/
def completed (W : ℕ+) (symbol : String) (events : List Event) : List CandleJson :=
  ((run W events).2.filterMap Message.completed?).filter fun candle =>
    decide (candle.symbol = symbol)

/-- The ticks among the events. -/
def ticksIn (events : List Event) : List Tick := events.filterMap Event.tick?

/-- The loop of one symbol after its ticks, and the candles it has completed. -/
def symbolRun (W : ℕ+) (ticks : List Tick) : Option CandleAccumulator × List Message :=
  Keyed.run (single (symbolStep W)) none ticks

def symbolCompleted (W : ℕ+) (ticks : List Tick) : List CandleJson :=
  (symbolRun W ticks).2.filterMap Message.completed?

section
variable {W : ℕ+} {acc : CandleAccumulator} {tick : Tick} {ticks : List Tick} {symbol : String}
  {events : List Event}

@[simp] theorem openAccumulator_bucket : (openAccumulator W tick).bucketStartMs = tick.windowStart W :=
  rfl

theorem symbolStep_same (h : acc.bucketStartMs = tick.windowStart W) :
    symbolStep W (some acc) tick =
      (acc.update tick.lastTradedPrice (asU64 tick.volume.toInt),
        [.live (acc.update tick.lastTradedPrice (asU64 tick.volume.toInt)).toJson]) :=
  if_pos h

theorem symbolStep_other (h : acc.bucketStartMs ≠ tick.windowStart W) :
    symbolStep W (some acc) tick =
      (openAccumulator W tick,
        [.completed acc.toJson, .live (openAccumulator W tick).toJson]) :=
  if_neg h

theorem symbolStep_symbol {o : Option CandleAccumulator}
    (h : ∀ acc, o = some acc → acc.symbol = tick.symbol) :
    (symbolStep W o tick).1.symbol = tick.symbol ∧
      ∀ message ∈ (symbolStep W o tick).2, message.candle.symbol = tick.symbol := by
  cases o with
  | none =>
      simp [symbolStep, openAccumulator, CandleAccumulator.new, CandleAccumulator.toJson,
        Message.candle]
  | some acc =>
      have hsym := h acc rfl
      by_cases hsame : acc.bucketStartMs = tick.windowStart W
      · simp [symbolStep_same hsame, CandleAccumulator.update, CandleAccumulator.toJson,
          Message.candle, hsym]
      · simp [symbolStep_other hsame, openAccumulator, CandleAccumulator.new,
          CandleAccumulator.toJson, Message.candle, hsym]

theorem run_ticksIn :
    (run W events).1 = (Keyed.run (feed Tick.symbol (symbolStep W)) Table.empty (ticksIn events)).1 ∧
      (run W events).2.filterMap Message.completed? =
        (Keyed.run (feed Tick.symbol (symbolStep W)) Table.empty (ticksIn events)).2.filterMap
          Message.completed? := by
  induction events using List.reverseRecOn with
  | nil => exact ⟨rfl, rfl⟩
  | append_singleton events event ih =>
      obtain ⟨hstate, hsent⟩ := ih
      rw [run, run_concat, ← run, ticksIn, List.filterMap_append, ← ticksIn,
        List.filterMap_append, hsent, hstate]
      cases event with
      | tick tick =>
          rw [show [Event.tick tick].filterMap Event.tick? = [tick] from rfl, run_concat,
            List.filterMap_append]
          exact ⟨rfl, rfl⟩
      | flush =>
          have hlive : ∀ rows : List (String × CandleAccumulator),
              (rows.map fun row => Message.live row.2.toJson).filterMap Message.completed? = [] := by
            intro rows
            rw [List.filterMap_eq_nil_iff]
            intro message hm
            obtain ⟨row, -, rfl⟩ := List.mem_map.mp hm
            rfl
          rw [show [Event.flush].filterMap Event.tick? = [] from rfl, List.append_nil]
          exact ⟨rfl, by rw [step, hlive, List.append_nil]⟩

theorem filter_completed (messages : List Message) :
    (messages.filterMap Message.completed?).filter (fun candle => decide (candle.symbol = symbol)) =
      (messages.filter fun message => decide (message.candle.symbol = symbol)).filterMap
        Message.completed? := by
  rw [List.filter_filterMap, List.filterMap_filter]
  congr 1
  funext message
  cases message with
  | completed candle =>
      by_cases hsym : candle.symbol = symbol
      · simp [Message.completed?, Message.candle, hsym]
      · simp [Message.completed?, Message.candle, hsym]
  | live candle => simp [Message.completed?]

theorem completed_eq :
    completed W symbol events = symbolCompleted W (ticksOf symbol (ticksIn events)) := by
  rw [completed, run_ticksIn.2, filter_completed, symbolCompleted, symbolRun, ticksOf]
  congr 1
  refine (feed_projection Tick.symbol (symbolStep W)).filter_run
    (I := fun symbol o => ∀ acc, o = some acc → acc.symbol = symbol)
    (fun symbol acc h => by cases h) (fun o tick h => ?_) (fun o tick h => ?_) (ticksIn events) symbol
  · intro acc hacc
    obtain rfl := Option.some.inj hacc
    exact (symbolStep_symbol h).1
  · exact (symbolStep_symbol h).2

theorem symbolRun_concat :
    (symbolRun W (ticks ++ [tick])).1 = some (symbolStep W (symbolRun W ticks).1 tick).1 ∧
      symbolCompleted W (ticks ++ [tick]) =
        symbolCompleted W ticks ++
          (symbolStep W (symbolRun W ticks).1 tick).2.filterMap Message.completed? := by
  rw [symbolCompleted, symbolRun, run_concat, List.filterMap_append]
  exact ⟨rfl, rfl⟩

end

end AiTrader.Aggregator
