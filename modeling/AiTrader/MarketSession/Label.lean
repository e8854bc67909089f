import AiTrader.Library.Rounding
import AiTrader.Value

/-! # The session label of a candle

`classify_session` (`src/agents/deep-quant-loop/session.py`): the phase of the trading session, the
minutes since its open and until its close, the expiry context and what follows for the timing.
Local time is in whole microseconds, and the timezone has a fixed offset. -/

namespace AiTrader.MarketSession

/-- A time of day. -/
structure TimeOfDay where
  hour : ℕ
  minute : ℕ
  second : ℕ
  microsecond : ℕ
  hour_lt : hour < 24
  minute_lt : minute < 60
  second_lt : second < 60
  microsecond_lt : microsecond < 1000000

/-- `_seconds_of_day`. -/
def TimeOfDay.seconds (t : TimeOfDay) : ℤ := t.hour * 3600 + t.minute * 60 + t.second

/-- Microseconds since midnight, by which times of day are compared. -/
def TimeOfDay.micros (t : TimeOfDay) : ℤ := t.seconds * 1000000 + t.microsecond

structure SessionConfig where
  timezone : String
  openTime : TimeOfDay
  closeTime : TimeOfDay
  openingMinutes : ℤ
  closingMinutes : ℤ
  middayStart : TimeOfDay
  middayEnd : TimeOfDay
  expiryWeekday : ℤ

/-- What the code takes from its host language and the timezone database. -/
structure Runtime where
  /-- the double nearest to a number in the range of doubles -/
  rnd : ℚ → ℚ
  /-- `repr` -/
  repr : PyVal → String
  /-- the offset of a zone, in microseconds -/
  utcOffset : String → ℤ

/-! ### Local time -/

/-- Microseconds since the local midnight of 1970-01-01. -/
structure LocalDatetime where
  micros : ℤ
deriving DecidableEq

def microsPerDay : ℤ := 86400000000

namespace LocalDatetime

/-- Days since 1970-01-01. -/
def day (dt : LocalDatetime) : ℤ := dt.micros / microsPerDay

/-- Microseconds since midnight. -/
def time (dt : LocalDatetime) : ℤ := dt.micros % microsPerDay

/-- Mon=0 .. Sun=6; 1970-01-01 was a Thursday. -/
def weekday (dt : LocalDatetime) : ℤ := (dt.day + 3) % 7

/-- `replace` by a time of day, with `microsecond=0`. -/
def replace (dt : LocalDatetime) (t : TimeOfDay) : LocalDatetime :=
  ⟨dt.day * microsPerDay + t.seconds * 1000000⟩

/-- From the first to the last microsecond of a `datetime`. -/
def inRange (micros : ℤ) : Prop :=
  -62135596800000000 ≤ micros ∧ micros < 253402300800000000

instance (micros : ℤ) : Decidable (inRange micros) := inferInstanceAs (Decidable (_ ∧ _))

end LocalDatetime

section
variable (R : Runtime)

/-- `datetime.fromtimestamp(seconds, tz=tz)`: the fraction of a second is rounded to whole
microseconds, and `none` is an error of range. -/
def fromTimestamp (seconds : ℚ) (offset : ℤ) : Option LocalDatetime :=
  let whole := seconds.num.tdiv seconds.den
  let micros := whole * 1000000 + roundHalfEven (R.rnd ((seconds - whole) * 1000000))
  if LocalDatetime.inRange micros ∧ LocalDatetime.inRange (micros + offset) then
    some ⟨micros + offset⟩
  else none

/-- A finite number as a double. -/
def toDouble : PyVal → ℚ
  | .int z => R.rnd z
  | .float (.fin q) => q
  | _ => 0

/-- `to_local_datetime`.  The error is the class of the exception. -/
def toLocalDatetime (timestampMs : PyVal) (config : SessionConfig) :
    Except String (Option LocalDatetime) :=
  match isFiniteNumber timestampMs with
  | none => .error "OverflowError"
  | some false => .ok none
  | some true =>
      .ok (fromTimestamp R (R.rnd (toDouble R timestampMs / 1000)) (R.utcOffset config.timezone))

/-! ### The label -/

inductive SessionPhase where
  | preOpen | opening | morning | midday | afternoon | closing | postClose
deriving DecidableEq, Repr

/-- `classify_session_phase`, by whole seconds. -/
def classifySessionPhase (localDt : LocalDatetime) (config : SessionConfig) : SessionPhase :=
  let t := localDt.time / 1000000
  let openS := config.openTime.seconds
  let closeS := config.closeTime.seconds
  let openingEnd := openS + config.openingMinutes * 60
  let closingStart := closeS - config.closingMinutes * 60
  if t < openS then .preOpen
  else if t > closeS then .postClose
  else if t < openingEnd then .opening
  else if t ≥ closingStart then .closing
  else if config.middayStart.seconds ≤ t ∧ t < config.middayEnd.seconds then .midday
  else if openingEnd ≤ t ∧ t < config.middayStart.seconds then .morning
  else .afternoon

/-- `math.floor(delta.total_seconds() / 60)`. -/
def wholeMinutes (delta : ℤ) : ℤ := ⌊R.rnd (R.rnd (delta / 1000000) / 60)⌋

/-- A count of minutes, between the open and the close of the day. -/
def sessionMinutes (localDt : LocalDatetime) (config : SessionConfig) (delta : ℤ) : Option ℤ :=
  let openDt := localDt.replace config.openTime
  let closeDt := localDt.replace config.closeTime
  if localDt.micros < openDt.micros ∨ localDt.micros > closeDt.micros then none
  else if wholeMinutes R delta < 0 then none
  else some (wholeMinutes R delta)

/-- `compute_minutes_since_open`. -/
def computeMinutesSinceOpen (localDt : LocalDatetime) (config : SessionConfig) : Option ℤ :=
  sessionMinutes R localDt config (localDt.micros - (localDt.replace config.openTime).micros)

/-- `compute_minutes_until_close`. -/
def computeMinutesUntilClose (localDt : LocalDatetime) (config : SessionConfig) : Option ℤ :=
  sessionMinutes R localDt config ((localDt.replace config.closeTime).micros - localDt.micros)

structure ExpiryContext where
  isExpiryDay : Bool
  daysUntilExpiry : ℤ
deriving DecidableEq, Repr

/-- `compute_expiry_context`. -/
def computeExpiryContext (localDt : LocalDatetime) (config : SessionConfig) : ExpiryContext where
  isExpiryDay := decide (localDt.weekday = config.expiryWeekday)
  daysUntilExpiry := (config.expiryWeekday - localDt.weekday) % 7

inductive TimeFavorability where
  | favorable | unfavorable | neutral
deriving DecidableEq, Repr

/-- `_BASE_FAVORABILITY`. -/
def baseFavorability : SessionPhase → TimeFavorability
  | .preOpen => .neutral
  | .opening => .unfavorable
  | .morning => .favorable
  | .midday => .neutral
  | .afternoon => .favorable
  | .closing => .neutral
  | .postClose => .neutral

/-- `derive_time_favorability`: the afternoon and the close of an expiry day are chop. -/
def deriveTimeFavorability (phase : SessionPhase) (expiry : ExpiryContext) : TimeFavorability :=
  if expiry.isExpiryDay ∧ (phase = .afternoon ∨ phase = .closing) then .unfavorable
  else baseFavorability phase

structure SessionLabel where
  sessionPhase : SessionPhase
  minutesSinceOpen : Option ℤ
  minutesUntilClose : Option ℤ
  expiryContext : ExpiryContext
  timeFavorability : TimeFavorability
  symbol : Option String
  timeframe : Option String
deriving DecidableEq, Repr

/-- A session label, or an unavailable marker with its reason. -/
inductive Classification where
  | label (label : SessionLabel)
  | unavailable (reason : String) (symbol timeframe : Option String)
deriving DecidableEq, Repr

/-- `classify_session`. -/
def classifySession (timestampMs : PyVal) (config : SessionConfig)
    (symbol timeframe : Option String) : Classification :=
  match toLocalDatetime R timestampMs config with
  | .error e => .unavailable ("session classification error: " ++ e) symbol timeframe
  | .ok none =>
      .unavailable ("invalid timestamp: expected a finite epoch-millisecond number, got " ++
        R.repr timestampMs) symbol timeframe
  | .ok (some localDt) =>
      let phase := classifySessionPhase localDt config
      let expiry := computeExpiryContext localDt config
      .label
        { sessionPhase := phase
          minutesSinceOpen := computeMinutesSinceOpen R localDt config
          minutesUntilClose := computeMinutesUntilClose R localDt config
          expiryContext := expiry
          timeFavorability := deriveTimeFavorability phase expiry
          symbol := symbol
          timeframe := timeframe }

end

/-! ### Defaults -/

/-- A time of day in hours and minutes. -/
def TimeOfDay.ofHM (hour minute : ℕ) (hh : hour < 24) (hm : minute < 60) : TimeOfDay where
  hour := hour
  minute := minute
  second := 0
  microsecond := 0
  hour_lt := hh
  minute_lt := hm
  second_lt := by decide
  microsecond_lt := by decide

/-- What `resolve_session_config` gives in an empty environment. -/
def defaultSessionConfig : SessionConfig where
  timezone := "Asia/Kolkata"
  openTime := .ofHM 9 15 (by decide) (by decide)
  closeTime := .ofHM 15 30 (by decide) (by decide)
  openingMinutes := 15
  closingMinutes := 30
  middayStart := .ofHM 11 30 (by decide) (by decide)
  middayEnd := .ofHM 13 30 (by decide) (by decide)
  expiryWeekday := 3

end AiTrader.MarketSession
