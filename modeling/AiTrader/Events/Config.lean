import AiTrader.Options.Config
import AiTrader.Text

/-! # Configuration of the event gate

`resolve_event_config` (`src/agents/deep-quant-loop/events.py`).  Every parameter has an environment
variable of its own, and the two windows go back to their defaults together when they are out of
order (`resolveEventConfig_windows`). -/

namespace AiTrader.Events

open Options (rawValue resolveInt resolveFloat)

inductive HoldingHorizon where
  | intraday
  | multiSession
deriving DecidableEq, Repr

/-- `HOLDING_HORIZONS`. -/
def HoldingHorizon.ofString? : String → Option HoldingHorizon
  | "intraday" => some .intraday
  | "multi_session" => some .multiSession
  | _ => none

/-- `EventConfig`. -/
structure EventConfig where
  enabled : Bool
  timezone : String
  defaultHoldingHorizon : HoldingHorizon
  imminentWindowDays : ℤ
  throughEventWindowDays : ℤ
  sourceTimeoutS : F64
  calendarApiUrl : Option String
  calendarFilePath : Option String

def defaultGateEnabled : Bool := true
def defaultMarketTimezone : String := "Asia/Kolkata"
def defaultDefaultHoldingHorizon : HoldingHorizon := .multiSession
def defaultImminentWindowDays : ℤ := 5
def defaultThroughEventWindowDays : ℤ := 2
def defaultSourceTimeoutS : F64 := .fin 10

/-- The process that resolves the configuration: its variables and readers, `str.lower`, and
whether `ZoneInfo` loads a zone. -/
structure Environment extends Options.Environment where
  casing : Text.Casing
  loadable : String → Bool

section
variable (env : Environment)

/-- `_resolve_bool`. -/
def resolveBool (envName : String) (default : Bool) : Bool :=
  match rawValue env.toEnvironment envName with
  | none => default
  | some raw =>
      let text := env.casing.lower raw
      if text = "1" ∨ text = "true" ∨ text = "yes" then true
      else if text = "0" ∨ text = "false" ∨ text = "no" then false
      else default

/-- `_resolve_timezone`. -/
def resolveTimezone (envName : String) (default : String) : String :=
  match rawValue env.toEnvironment envName with
  | none => default
  | some candidate => if env.loadable candidate then candidate else default

/-- `_resolve_horizon`. -/
def resolveHorizon (envName : String) (default : HoldingHorizon) : HoldingHorizon :=
  ((rawValue env.toEnvironment envName).bind HoldingHorizon.ofString?).getD default

def resolveEventConfig : EventConfig :=
  let imminent := resolveInt env.toEnvironment "EVENT_IMMINENT_WINDOW_DAYS"
    defaultImminentWindowDays 0
  let through := resolveInt env.toEnvironment "EVENT_THROUGH_EVENT_WINDOW_DAYS"
    defaultThroughEventWindowDays 0
  { enabled := resolveBool env "EVENT_GATE_ENABLED" defaultGateEnabled
    timezone := resolveTimezone env "EVENT_MARKET_TIMEZONE" defaultMarketTimezone
    defaultHoldingHorizon :=
      resolveHorizon env "EVENT_DEFAULT_HOLDING_HORIZON" defaultDefaultHoldingHorizon
    imminentWindowDays := if through > imminent then defaultImminentWindowDays else imminent
    throughEventWindowDays :=
      if through > imminent then defaultThroughEventWindowDays else through
    sourceTimeoutS := resolveFloat env.toEnvironment "EVENT_SOURCE_TIMEOUT_S"
      defaultSourceTimeoutS (.fin 0) .posInf false
    calendarApiUrl := rawValue env.toEnvironment "EVENT_CALENDAR_API_URL"
    calendarFilePath := rawValue env.toEnvironment "EVENT_CALENDAR_FILE" }

/-- The windows are not negative, and the narrow one is in the wide one. -/
theorem resolveEventConfig_windows :
    0 ≤ (resolveEventConfig env).throughEventWindowDays ∧
      (resolveEventConfig env).throughEventWindowDays ≤
        (resolveEventConfig env).imminentWindowDays := by
  have hthrough := Options.resolveInt_ge env.toEnvironment "EVENT_THROUGH_EVENT_WINDOW_DAYS"
    (show 0 ≤ defaultThroughEventWindowDays by decide)
  simp only [resolveEventConfig]
  split
  · decide
  · rename_i horder
    exact ⟨hthrough, not_lt.mp horder⟩

end

end AiTrader.Events
