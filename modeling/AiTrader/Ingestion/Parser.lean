import AiTrader.MarketData.Messages
import AiTrader.Float

/-! # The feed parser

`src/ingestion/src/parser.rs`: a packet of the feed is 8 bytes long (a price), 44 bytes (a quote)
or 184 bytes (a quote with depth and open interest); every longer packet is read as the largest of
these that fits.  A cursor is the bytes still to be read.  The system clock is an argument. -/

namespace AiTrader.Ingestion

open MarketData

def modeLtp : ℕ := 8
def modeQuote : ℕ := 44
def modeFull : ℕ := 184

/-- Where the five bid levels begin inside a Full-mode packet, and the five ask levels. -/
def depthBidOffset : ℕ := 64
def depthAskOffset : ℕ := 124
def depthEntryLen : ℕ := 12
def oiOffset : ℕ := 48

/-- `read_u32::<BigEndian>`. -/
def readU32 : List UInt8 → Option (UInt32 × List UInt8)
  | a :: b :: c :: d :: rest =>
      some (UInt32.ofNat (((a.toNat * 256 + b.toNat) * 256 + c.toNat) * 256 + d.toNat), rest)
  | _ => none

/-- `read_i32::<BigEndian>`. -/
def readI32 (cur : List UInt8) : Option (Int32 × List UInt8) :=
  (readU32 cur).map fun r => (r.1.toInt32, r.2)

/-- `read_i32::<BigEndian>().unwrap_or(0)`: a short read uses the cursor up. -/
def readI32OrZero (cur : List UInt8) : Int32 × List UInt8 := (readI32 cur).getD (0, [])

/-- `payload.get(offset..offset + len)`. -/
def slice? (payload : List UInt8) (offset len : ℕ) : Option (List UInt8) :=
  if offset + len ≤ payload.length then some ((payload.drop offset).take len) else none

section
variable (rnd : ℚ → F64)

/-- `paise as f64 / 100.0`. -/
def rupees (paise : Int32) : F64 := F64.div rnd (.fin paise.toInt) (.fin 100)

/-- The price of the first depth level, `0.0` when the packet has none. -/
def depthPrice (payload : List UInt8) (offset : ℕ) : F64 :=
  match slice? payload offset depthEntryLen with
  | some entry => rupees rnd (readI32OrZero (readI32OrZero entry).2).1
  | none => .fin 0

/-- The open interest field. -/
def readOpenInterest (payload : List UInt8) : Option UInt64 := do
  let bytes ← slice? payload oiOffset 4
  let value ← readI32 bytes
  return value.1.toInt64.toUInt64

/-- The fields of Quote and Full mode, from byte 8 on. -/
def readQuote (tick : Tick) (cur : List UInt8) : Except String Tick := do
  let field (name : String) (cur : List UInt8) : Except String (Int32 × List UInt8) :=
    match readI32 cur with
    | some r => .ok r
    | none => .error ("Failed to read " ++ name ++ ": failed to fill whole buffer")
  let (_, cur) ← field "last_traded_qty" cur
  let (_, cur) ← field "avg_price" cur
  let (volume, cur) ← field "volume" cur
  let (_, cur) ← field "buy_qty" cur
  let (_, cur) ← field "sell_qty" cur
  let (o, cur) := readI32OrZero cur
  let (h, cur) := readI32OrZero cur
  let (l, cur) := readI32OrZero cur
  let (c, _) := readI32OrZero cur
  return { tick with
    volume, «open» := rupees rnd o, high := rupees rnd h, low := rupees rnd l, close := rupees rnd c }

/-- `parse_binary_tick`. -/
def parseBinaryTick (nowMs : Int64) (payload : List UInt8) (symbol : String) :
    Except String Tick := do
  if payload.length < modeLtp then
    throw s!"Packet too short: {payload.length} bytes (minimum {modeLtp})"
  let some (instrumentToken, cur) := readU32 payload
    | throw "Failed to read instrument_token: failed to fill whole buffer"
  let some (ltpPaise, cur) := readI32 cur
    | throw "Failed to read LTP: failed to fill whole buffer"
  let tick : Tick :=
    { symbol, timestampMs := nowMs, lastTradedPrice := rupees rnd ltpPaise, volume := 0,
      instrumentToken }
  let tick ← if payload.length ≥ modeQuote then readQuote rnd tick cur else pure tick
  if payload.length ≥ modeFull then
    return { tick with
      bestBid := depthPrice rnd payload depthBidOffset
      bestAsk := depthPrice rnd payload depthAskOffset
      openInterest := readOpenInterest payload }
  return tick

variable {rnd} {nowMs : Int64} {payload : List UInt8} {symbol : String} {tick : Tick}

theorem parseBinaryTick_volume (hlen : payload.length < modeQuote)
    (h : parseBinaryTick rnd nowMs payload symbol = .ok tick) : tick.volume = 0 := by
  have hfull : ¬ payload.length ≥ modeFull := by
    rw [modeFull]
    rw [modeQuote] at hlen
    omega
  unfold parseBinaryTick at h
  simp only [if_neg hfull, if_neg (not_le.mpr hlen)] at h
  split at h
  · cases h
  · cases hread : readU32 payload with
    | none => simp [hread] at h
    | some r =>
        cases hprice : readI32 r.2 with
        | none => simp [hread, hprice] at h
        | some r' =>
            simp [hread, hprice] at h
            cases h
            rfl

end

end AiTrader.Ingestion
