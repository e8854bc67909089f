import AiTrader.Journal.Scoring

/-! # Scoring in the backtest

`_score_signal`, `_managed_outcome` and `_score_signal_managed` of `backtest.py`: the copies of
the journal's scoring that the backtest uses, on the bars that follow a signal, up to a
horizon. -/

namespace AiTrader.Backtest

open TradeManager Journal

/-- The fields of a decision that scoring reads. -/
structure Decision where
  action : String
  entry : ℚ
  stopLoss : ℚ
  takeProfit : ℚ

/-- `xs[:h]`: a negative bound counts from the end. -/
def sliceTo {α : Type} (h : ℤ) (xs : List α) : List α :=
  if 0 ≤ h then xs.take h.toNat else xs.take (xs.length - (-h).toNat)

section
variable (rounded : ℚ → ℚ)

/-! ### A single target -/

/-- What one bar decides; a bar that touches both levels is a loss. -/
def barOutcome (isBuy : Bool) (sl tp rr : ℚ) (outAt : Option ℚ) (hi lo : ℚ) : Option Outcome :=
  let hitTp := if isBuy then decide (tp ≤ hi) else decide (lo ≤ tp)
  let hitSl := if isBuy then decide (lo ≤ sl) else decide (sl ≤ hi)
  if hitSl && hitTp then some (.loss, some sl, outAt, some (-1))
  else if hitTp then some (.win, some tp, outAt, some (rounded rr))
  else if hitSl then some (.loss, some sl, outAt, some (-1))
  else none

/-- The loop over the bars; when none decides, the trade is expired. -/
def scoreLoop (isBuy : Bool) (sl tp rr : ℚ) : Option ℚ → List Kwargs → Outcome
  | lastTs, [] => (.expired, none, lastTs.map (· / 1000), none)
  | lastTs, c :: cs =>
      match finiteNum (c.get "high"), finiteNum (c.get "low") with
      | some hi, some lo =>
          let ts := finiteNum (c.get "timestamp_ms")
          match barOutcome rounded isBuy sl tp rr (ts.map (· / 1000)) hi lo with
          | some out => out
          | none => scoreLoop isBuy sl tp rr (ts.or lastTs) cs
      | _, _ => scoreLoop isBuy sl tp rr lastTs cs

/-- `_score_signal`. -/
def scoreSignal (decision : Decision) (future : List Kwargs) (maxHorizonBars : ℤ) :
    Option Outcome :=
  let risk := |decision.entry - decision.stopLoss|
  if risk ≤ 0 then none
  else
    let rr := |decision.takeProfit - decision.entry| / risk
    let horizon := sliceTo maxHorizonBars future
    if horizon.isEmpty then none
    else some (scoreLoop rounded (decide (decision.action = "BUY")) decision.stopLoss
      decision.takeProfit rr none horizon)

/-! ### A plan -/

/-- `_managed_outcome`. -/
def managedOutcome (result : SimulationResult) (horizon : List Kwargs) : Option Outcome :=
  match result.status with
  | .invalid => none
  | .open =>
      let lastTs := (horizon.filterMap fun c => finiteNum (c.get "timestamp_ms")).getLast?
      some (.expired, none, lastTs.map (· / 1000), none)
  | .resolved =>
      let lastFill := result.fills.getLast?
      some (if result.realizedR.any fun r => decide (0 < r) then .win else .loss,
        lastFill.map LegFill.price, lastFill.map fun f => (f.timestampMs : ℚ) / 1000,
        result.realizedR.map rounded)

/-- `_score_signal_managed`. -/
def scoreSignalManaged (C : Text.Casing) (plan : ManagementPlan) (future : List Kwargs)
    (maxHorizonBars : ℤ) : Option Outcome × Option SimulationResult :=
  let horizon := sliceTo maxHorizonBars future
  if horizon.isEmpty then (none, none)
  else
    let result := simulatePlan C plan (horizon.map PyVal.dict)
    (managedOutcome rounded result horizon, some result)

/-- How a run scores a decision at bar `i`: with a plan by its simulation. -/
def scoreAt (C : Text.Casing) (plan : Option ManagementPlan) (decision : Decision)
    (candles : List Kwargs) (i : ℕ) (maxHorizonBars : ℤ) : Option Outcome :=
  let future := candles.drop (i + 1)
  match plan with
  | some plan => (scoreSignalManaged rounded C plan future maxHorizonBars).1
  | none => scoreSignal rounded decision future maxHorizonBars

end

end AiTrader.Backtest
