import AiTrader.Value
import Mathlib.Data.PNat.Defs

/-! # Market data messages

`shared_protos/market_data.proto`, as the services decode it. -/

namespace AiTrader.MarketData

/-- A tick of the topic `market.ticks`.  `volume` is the day's cumulative volume, or `0`. -/
structure Tick where
  symbol : String
  timestampMs : Int64
  lastTradedPrice : F64
  volume : Int32
  bestBid : F64 := .fin 0
  bestAsk : F64 := .fin 0
  instrumentToken : UInt32 := 0
  «open» : F64 := .fin 0
  high : F64 := .fin 0
  low : F64 := .fin 0
  close : F64 := .fin 0
  openInterest : Option UInt64 := none
  deriving DecidableEq

/-- `OHLCCandle`.  The counters are naturals: a window would need 2^33 ticks of the largest
volume to overflow one. -/
structure OhlcCandle where
  symbol : String
  startTimestampMs : ℕ
  endTimestampMs : ℕ
  «open» : F64
  high : F64
  low : F64
  close : F64
  volume : ℕ
  deriving DecidableEq

/-- The candle as both candle servers send it to the frontend. -/
structure CandleJson where
  symbol : String
  startTimestampMs : ℕ
  «open» : F64
  high : F64
  low : F64
  close : F64
  volume : ℕ
  deriving DecidableEq

/-- The completed candle as the terminal's consumer sends it (`consumer.rs`). -/
def OhlcCandle.toJson (candle : OhlcCandle) : CandleJson where
  symbol := candle.symbol
  startTimestampMs := candle.startTimestampMs
  «open» := candle.open
  high := candle.high
  low := candle.low
  close := candle.close
  volume := candle.volume

/-- `z as u64`. -/
def asU64 (z : ℤ) : ℕ := (z % 2 ^ 64).toNat

theorem asU64_of_nonneg {z : ℤ} (h : 0 ≤ z) (hz : z < 2 ^ 64) : asU64 z = z.toNat := by
  rw [asU64, Int.emod_eq_of_lt h hz]

/-- The ticks of a symbol. -/
def ticksOf (symbol : String) (ticks : List Tick) : List Tick :=
  ticks.filter fun tick => decide (tick.symbol = symbol)

theorem ticksOf_concat (symbol : String) (ticks : List Tick) (tick : Tick) :
    ticksOf symbol (ticks ++ [tick]) =
      if tick.symbol = symbol then ticksOf symbol ticks ++ [tick] else ticksOf symbol ticks := by
  rw [ticksOf, List.filter_append]
  split
  · rename_i h
    simp [h, ticksOf]
  · rename_i h
    simp [h, ticksOf]

theorem ticksOf_mono {symbol : String} {ticks ticks' : List Tick} (h : ticks <+: ticks') :
    ticksOf symbol ticks <+: ticksOf symbol ticks' := h.filter _

/-- The start of the window of `windowMs` milliseconds that a tick falls in. -/
def Tick.windowStart (windowMs : ℕ+) (tick : Tick) : ℕ :=
  asU64 tick.timestampMs.toInt / windowMs * windowMs

end AiTrader.MarketData
