import AiTrader.QuantCore.ManagementPlan

/-! # The trade validator of the agent

`validator.py`, which is meant to mirror the validator of the server.  One function checks the
bracket of a trade and, where the trade has a management plan, the plan on top of it.

* `validateTrade`: the checks of `validate_trade`, in its order.
* `validateTrade_eq_server`: without a plan they are the server's.

A leg of a plan whose target or fraction is absent is refused like one whose target or fraction
is not a number, so both are `nan` here. -/

namespace AiTrader.Agent

open QuantCore

/-- What the validator reads of a plan. -/
structure PlanFields where
  entry : Option F64
  initialStop : Option F64
  legs : List (ScaleOutLeg F64)
  breakeven : Option (BreakevenTrigger F64)

/-- A plan as the trade manager holds it. -/
def planFields (plan : ManagementPlan F64) : PlanFields where
  entry := some plan.entry
  initialStop := some plan.initialStop
  legs := plan.legs
  breakeven := plan.breakeven

section
variable (rnd : ℚ → F64)

/-- `LEG_FRACTION_SUM_TOLERANCE`. -/
def legFractionSumTolerance : F64 := rnd (1 / 10 ^ 9)

/-- The loop over the fractions: their sum, unless one is out of range. -/
def legFractionSum : F64 → List (ScaleOutLeg F64) → Option F64
  | sum, [] => some sum
  | sum, leg :: legs =>
      if !leg.fraction.isFinite || F64.le leg.fraction (.fin 0) || F64.lt (.fin 1) leg.fraction then
        none
      else legFractionSum (F64.add rnd sum leg.fraction) legs

/-- The loop over the targets. -/
def orderingOk (isBuy : Bool) (entry : F64) : F64 → List (ScaleOutLeg F64) → Bool
  | _, [] => true
  | previous, leg :: legs =>
      leg.target.isFinite &&
        (if isBuy then F64.lt entry leg.target && F64.le previous leg.target
          else F64.lt leg.target entry && F64.le leg.target previous) &&
        orderingOk isBuy entry leg.target legs

/-- The placement of the breakeven trigger.  One without a price is checked in R-space, one
without either is no trigger. -/
def placementOk (isBuy : Bool) (entry firstTarget stopDistance : F64)
    (breakeven : Option (BreakevenTrigger F64)) : Bool :=
  match breakeven with
  | none => true
  | some be =>
      match be.price, be.rMultiple with
      | some p, _ =>
          p.isFinite && if isBuy then F64.lt entry p && F64.lt p firstTarget
            else F64.lt firstTarget p && F64.lt p entry
      | none, some r =>
          r.isFinite && F64.lt (.fin 0) r &&
            F64.lt r (F64.div rnd (F64.abs (F64.sub rnd firstTarget entry)) stopDistance)
      | none, none => true

/-- The loop that sums up the blended reward. -/
def blendedReward (entry stopDistance : F64) : F64 → List (ScaleOutLeg F64) → F64
  | sum, [] => sum
  | sum, leg :: legs =>
      blendedReward entry stopDistance
        (F64.add rnd sum (F64.mul rnd leg.fraction
          (F64.div rnd (F64.abs (F64.sub rnd leg.target entry)) stopDistance))) legs

/-- `_validate_management_plan`. -/
def validateManagementPlan (action : Action) (plan : PlanFields) (entry initialStop : F64)
    (minBlended : F64) : ValidatorOutcome :=
  let isBuy := decide (action = .buy)
  match plan.legs with
  | [] => .fail .targetOrderingInconsistent
  | first :: _ =>
      match legFractionSum rnd (.fin 0) plan.legs with
      | none => .fail .legFractionOutOfRange
      | some sum =>
          -- the ordering makes the stop distance positive before anything is divided by it
          let stopDistance := F64.abs (F64.sub rnd entry initialStop)
          let blended := blendedReward rnd entry stopDistance (.fin 0) plan.legs
          if F64.lt (F64.add rnd (.fin 1) (legFractionSumTolerance rnd)) sum then
            .fail .legFractionOutOfRange
          else if !(entry.isFinite && initialStop.isFinite) then
            .fail .targetOrderingInconsistent
          else if !(if isBuy then F64.lt initialStop entry else F64.lt entry initialStop) then
            .fail .targetOrderingInconsistent
          else if !orderingOk isBuy entry entry plan.legs then .fail .targetOrderingInconsistent
          else if !placementOk rnd isBuy entry first.target stopDistance plan.breakeven then
            .fail .breakevenOutOfRange
          else if F64.lt blended minBlended then .fail .blendedRrTooLow
          else .pass blended

/-- The floor of the single-target reward-to-risk. -/
def effectiveMinRr (minRiskReward : Option F64) : F64 :=
  (minRiskReward.filter (F64.lt (.fin 0))).getD (QuantCore.minRiskReward rnd)

/-- `validate_trade`.  `configured` is the blended minimum of the trade manager's configuration. -/
def validateTrade (configured : F64) (action : Action) (levels : Option ExecutionLevels)
    (atr14 : Option F64) (plan : Option PlanFields) (minBlended minRiskReward : Option F64) :
    ValidatorOutcome :=
  if action = .hold then .pass (.fin 0)
  else match levels with
    | some ⟨.fin entry, .fin stopLoss, .fin takeProfit⟩ =>
        if !directionOk action entry stopLoss takeProfit then .fail .directionInconsistent
        else
          let risk := rnd |entry - stopLoss|
          let reward := rnd |takeProfit - entry|
          if F64.le risk (.fin 0) then .fail .directionInconsistent
          else if stopTooTight rnd risk atr14 then .fail .stopTooTight
          else match plan with
            | some plan =>
                validateManagementPlan rnd action plan (plan.entry.getD (.fin entry))
                  (plan.initialStop.getD (.fin stopLoss)) (minBlended.getD configured)
            | none =>
                if F64.lt (ratio rnd reward risk) (effectiveMinRr rnd minRiskReward) then
                  .fail .riskRewardTooLow
                else .pass (ratio rnd reward risk)
    | _ => .fail .missingLevels

variable {rnd} in
/-- Without a plan the agent's validator is the server's, whatever the arithmetic. -/
theorem validateTrade_eq_server (configured : F64) (action : Action)
    (levels : Option ExecutionLevels) (atr14 minBlended minRiskReward : Option F64) :
    validateTrade rnd configured action levels atr14 none minBlended minRiskReward =
      validateTradeWithMinRr rnd action levels atr14 (effectiveMinRr rnd minRiskReward) := by
  rcases levels with _ | ⟨entry, stopLoss, takeProfit⟩
  · rfl
  · cases entry <;> cases stopLoss <;> cases takeProfit <;> rfl

end

end AiTrader.Agent
