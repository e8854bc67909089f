import AiTrader.Backtest.Scoring
import AiTrader.TradeManager.DefaultPlan

/-! # Labels of a signal

What `backtest.py` writes into the `defensibility` record of a signal: one entry for each
classifier's result, copied and never inferred, and one for the plan.  A filter drops a signal
only on an entry that is available and says that the signal is against its context. -/

namespace AiTrader.Backtest

open TradeManager Journal

/-! ### Entries -/

/-- `v is True`. -/
def isTrue : PyVal → Bool
  | .bool b => b
  | _ => false

/-- `v == text`. -/
def isText (text : String) : PyVal → Bool
  | .str s => decide (s = text)
  | _ => false

/-- `{"available": False, "reason": reason}`. -/
def unavailableEntry (reason : PyVal) : Kwargs := [("available", .bool false), ("reason", reason)]

/-- `for k in keys: if k in result: entry[k] = result[k]`. -/
def copiedKeys (keys : List String) (result : Kwargs) : Kwargs :=
  keys.filterMap fun k => (List.lookup k result).map fun v => (k, v)

/-- `dict(v) if isinstance(v, dict) else {}`. -/
def dictOrEmpty : PyVal → PyVal
  | .dict d => .dict d
  | _ => .dict []

/-- What the four entries have in common.  The texts are those for no result, for a marker without
a reason, and for a result that is no label; `label` is the entry of a label. -/
def defensibilityEntry (noResult unavailable noLabel : String) (label : Kwargs → Option Kwargs)
    (keys : List String) : PyVal → Kwargs
  | .dict result =>
      if isTrue (Kwargs.get result "unavailable") then
        let reason := Kwargs.get result "reason"
        unavailableEntry (if reason.truthy then reason else .str unavailable)
      else match label result with
        | none => unavailableEntry (.str noLabel)
        | some fields => ("available", .bool true) :: fields ++ copiedKeys keys result
  | _ => unavailableEntry (.str noResult)

/-- `_regime_defensibility_entry`. -/
def regimeDefensibilityEntry : PyVal → Kwargs :=
  defensibilityEntry "no regime result" "regime unavailable" "no usable regime label"
    (fun result =>
      let trendState := result.get "trend_state"
      let volatilityState := result.get "volatility_state"
      let favorability := result.get "favorability"
      if populated trendState && populated volatilityState && populated favorability then
        some [("trend_state", trendState), ("volatility_state", volatilityState),
          ("favorability", favorability), ("measures", dictOrEmpty (result.get "measures"))]
      else none)
    ["symbol", "timeframe", "candles_used"]

/-- `_relative_strength_defensibility_entry`. -/
def relativeStrengthDefensibilityEntry : PyVal → Kwargs :=
  defensibilityEntry "no relative-strength result" "relative strength unavailable"
    "no usable relative-strength label"
    (fun result =>
      let indexDirection := result.get "index_direction"
      let relativeStrengthState := result.get "relative_strength_state"
      let alignment := result.get "alignment"
      if populated indexDirection && populated relativeStrengthState && populated alignment then
        some [("index_direction", indexDirection),
          ("relative_strength_state", relativeStrengthState), ("alignment", alignment),
          ("measures", dictOrEmpty (result.get "measures"))]
      else none)
    ["benchmark", "symbol", "timeframe", "aligned_candles"]

/-- `forecaster._FORECAST_MEASURE_FIELDS`. -/
def forecastMeasureFields : List String := ["drift", "volatility", "standardized_drift", "atr"]

/-- The named measures of a forecast, absent ones as `None`. -/
def forecastMeasures : PyVal → PyVal
  | .dict measures => .dict (forecastMeasureFields.map fun k => (k, Kwargs.get measures k))
  | _ => .dict []

/-- `_forecast_defensibility_entry`. -/
def forecastDefensibilityEntry : PyVal → Kwargs :=
  defensibilityEntry "no forecast result" "forecast unavailable" "no usable forecast label"
    (fun result =>
      let projectedDirection := result.get "projected_direction"
      let upProbability := result.get "up_probability"
      let forecastConfidence := result.get "forecast_confidence"
      let forecastAlignment := result.get "forecast_alignment"
      if ["up", "down", "flat"].any (isText · projectedDirection) &&
          ["aligned", "misaligned", "neutral"].any (isText · forecastAlignment) &&
          (finiteNum upProbability).isSome && (finiteNum forecastConfidence).isSome then
        some [("projected_direction", projectedDirection), ("up_probability", upProbability),
          ("expected_move_atr", result.get "expected_move_atr"),
          ("forecast_confidence", forecastConfidence), ("forecast_alignment", forecastAlignment),
          ("measures", forecastMeasures (result.get "measures"))]
      else none)
    ["symbol", "timeframe", "candles_used"]

/-- `_session_defensibility_entry`. -/
def sessionDefensibilityEntry : PyVal → Kwargs :=
  defensibilityEntry "no session result" "session unavailable" "no usable session label"
    (fun result =>
      let sessionPhase := result.get "session_phase"
      let timeFavorability := result.get "time_favorability"
      if populated sessionPhase && populated timeFavorability then
        some [("session_phase", sessionPhase),
          ("minutes_since_open", result.get "minutes_since_open"),
          ("minutes_until_close", result.get "minutes_until_close"),
          ("expiry_context", dictOrEmpty (result.get "expiry_context")),
          ("time_favorability", timeFavorability)]
      else none)
    ["symbol", "timeframe"]

/-- The part of `_management_defensibility_entry` that the simulation fills in. -/
def simulationFields (result : SimulationResult) : Kwargs :=
  [("status", .str (statusText result.status)),
    ("realized_r", (result.realizedR.map fun q => PyVal.float (.fin q)).getD .none),
    ("residual_fraction", .float (.fin result.residualFraction)),
    ("exit_breakdown", .list (result.fills.map fillPayload))]

/-- `_management_defensibility_entry`. -/
def managementDefensibilityEntry (plan : ManagementPlan) (simResult : Option SimulationResult) :
    Kwargs :=
  [("available", .bool true), ("style", .str (managementStyleTag (some plan))),
    ("action", plan.action), ("entry", plan.entry), ("initial_stop", plan.initialStop),
    ("legs", .list (plan.legs.map ScaleOutLeg.payload)),
    ("breakeven", optionalPayload BreakevenTrigger.payload plan.breakeven),
    ("trailing", optionalPayload TrailingStop.payload plan.trailing), ("atr_14", plan.atr14)] ++
  (simResult.map simulationFields).getD []

/-! ### Signals -/

/-- A decision of the rules: what scoring reads, its `defensibility` record, and the other
entries. -/
structure Signal extends Decision where
  atr14 : PyVal := .none
  defensibility : Kwargs := []
  rest : Kwargs := []

/-- `decision["defensibility"][key] = entry`. -/
def Signal.label (decision : Signal) (key : String) (entry : Kwargs) : Signal :=
  { decision with defensibility := decision.defensibility.set key (.dict entry) }

/-- The entry under `key` is available, and its `field` is `text`. -/
def Signal.isMarked (key field text : String) (decision : Signal) : Bool :=
  match decision.defensibility.get key with
  | .dict entry => isTrue (Kwargs.get entry "available") && isText text (Kwargs.get entry field)
  | _ => false

/-- `_signal_is_unfavorable`. -/
def signalIsUnfavorable : Signal → Bool := Signal.isMarked "regime" "favorability" "unfavorable"

/-- `_signal_is_misaligned`. -/
def signalIsMisaligned : Signal → Bool :=
  Signal.isMarked "relative_strength" "alignment" "misaligned"

/-- `_signal_is_forecast_misaligned`. -/
def signalIsForecastMisaligned : Signal → Bool :=
  Signal.isMarked "forecast" "forecast_alignment" "misaligned"

/-- `_signal_is_session_unfavorable`. -/
def signalIsSessionUnfavorable : Signal → Bool :=
  Signal.isMarked "session" "time_favorability" "unfavorable"

end AiTrader.Backtest
