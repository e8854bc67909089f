import AiTrader.Text
import AiTrader.Value

/-! # The trade validator

The server's hard risk rules for a declared trade: levels present and finite, ordered by the
direction, the stop not tighter than `1.5 × ATR`, and the reward at least the minimum multiple of
the risk.  A HOLD carries no levels and passes.

Arithmetic is that of doubles: `rnd` rounds a number to the nearest one.

* `validateTradeWithMinRr`: the rules, in the order in which they are checked.
* `validateTradeWithMinRr_pass`: what a passing directional trade meets. -/

namespace AiTrader.QuantCore

open Text

/-- `Action`. -/
inductive Action where
  | buy | sell | hold
deriving DecidableEq, Repr

/-- The upper-case name. -/
def Action.name : Action → String
  | .buy => "BUY"
  | .sell => "SELL"
  | .hold => "HOLD"

/-- `Action::from_str_lenient`: whatever is neither BUY nor SELL abstains. -/
def Action.fromStrLenient (s : String) : Action :=
  if toAsciiUppercase (trim s) = "BUY" then .buy
  else if toAsciiUppercase (trim s) = "SELL" then .sell
  else .hold

theorem Action.fromStrLenient_directional {s : String} (h : Action.fromStrLenient s ≠ .hold) :
    toAsciiUppercase (trim s) = (Action.fromStrLenient s).name := by
  unfold fromStrLenient at h ⊢
  split
  · assumption
  · rename_i hbuy
    rw [if_neg hbuy] at h
    split
    · assumption
    · rename_i hsell
      rw [if_neg hsell] at h
      exact absurd rfl h

/-- `ExecutionLevels`. -/
structure ExecutionLevels where
  entry : F64
  stopLoss : F64
  takeProfit : F64
deriving DecidableEq, Repr

/-- `ValidatorReason`.  The last four are met by management plans only. -/
inductive ValidatorReason where
  | missingLevels | riskRewardTooLow | stopTooTight | directionInconsistent
  | legFractionOutOfRange | targetOrderingInconsistent | breakevenOutOfRange | blendedRrTooLow
deriving DecidableEq, Repr

/-- `ValidatorReason::as_tag`. -/
def ValidatorReason.asTag : ValidatorReason → String
  | .missingLevels => "missing-levels"
  | .riskRewardTooLow => "risk-reward-too-low"
  | .stopTooTight => "stop-too-tight"
  | .directionInconsistent => "direction-inconsistent"
  | .legFractionOutOfRange => "leg-fraction-out-of-range"
  | .targetOrderingInconsistent => "target-ordering-inconsistent"
  | .breakevenOutOfRange => "breakeven-out-of-range"
  | .blendedRrTooLow => "blended-rr-too-low"

/-- `ValidatorOutcome`. -/
inductive ValidatorOutcome where
  | pass (riskReward : F64)
  | fail (reason : ValidatorReason)
deriving DecidableEq, Repr

/-- `ValidatorOutcome::is_pass`. -/
def ValidatorOutcome.isPass : ValidatorOutcome → Bool
  | .pass _ => true
  | .fail _ => false

section
variable (rnd : ℚ → F64)

/-- `MIN_RISK_REWARD`. -/
def minRiskReward : F64 := rnd 2

/-- `MIN_RISK_REWARD_INTRADAY`. -/
def minRiskRewardIntraday : F64 := rnd (13 / 10)

/-- `MIN_STOP_ATR_MULTIPLE * atr`. -/
def minStop (atr : ℚ) : F64 := rnd (3 / 2 * atr)

/-- `min_risk_reward_for_profile`. -/
def minRiskRewardForProfile (profile : Option String) : F64 :=
  if profile.any (fun p => eqIgnoreAsciiCase (trim p) "INTRADAY") then minRiskRewardIntraday rnd
  else minRiskReward rnd

/-- `reward / risk` of two absolute values. -/
def ratio : F64 → F64 → F64
  | .fin reward, .fin risk => rnd (reward / risk)
  | .fin _, .posInf => .fin 0
  | .posInf, .fin _ => .posInf
  | _, _ => .nan

/-- The levels are ordered as the direction demands. -/
def directionOk : Action → ℚ → ℚ → ℚ → Bool
  | .buy, entry, stopLoss, takeProfit => decide (stopLoss < entry) && decide (entry < takeProfit)
  | .sell, entry, stopLoss, takeProfit => decide (takeProfit < entry) && decide (entry < stopLoss)
  | .hold, _, _, _ => true

/-- The stop distance is below the volatility floor, where the volatility is known. -/
def stopTooTight (risk : F64) : Option F64 → Bool
  | some (.fin atr) => decide (0 < atr) && F64.lt risk (minStop rnd atr)
  | _ => false

/-- `validate_trade_with_min_rr`. -/
def validateTradeWithMinRr (action : Action) (levels : Option ExecutionLevels)
    (atr14 : Option F64) (minRr : F64) : ValidatorOutcome :=
  if action = .hold then .pass (.fin 0)
  else match levels with
    | some ⟨.fin entry, .fin stopLoss, .fin takeProfit⟩ =>
        if !directionOk action entry stopLoss takeProfit then .fail .directionInconsistent
        else
          let risk := rnd |entry - stopLoss|
          let reward := rnd |takeProfit - entry|
          if F64.le risk (.fin 0) then .fail .directionInconsistent
          else if stopTooTight rnd risk atr14 then .fail .stopTooTight
          else if F64.lt (ratio rnd reward risk) minRr then .fail .riskRewardTooLow
          else .pass (ratio rnd reward risk)
    | _ => .fail .missingLevels

variable {rnd} {action : Action} {levels : Option ExecutionLevels} {atr14 : Option F64}
  {minRr : F64}

/-- A directional trade passes only with finite levels in order, a stop outside the volatility
floor and the demanded reward. -/
theorem validateTradeWithMinRr_pass (hdir : action ≠ .hold)
    (h : (validateTradeWithMinRr rnd action levels atr14 minRr).isPass = true) :
    ∃ entry stopLoss takeProfit, levels = some ⟨.fin entry, .fin stopLoss, .fin takeProfit⟩ ∧
      directionOk action entry stopLoss takeProfit = true ∧
      stopTooTight rnd (rnd |entry - stopLoss|) atr14 = false ∧
      F64.lt (ratio rnd (rnd |takeProfit - entry|) (rnd |entry - stopLoss|)) minRr = false := by
  unfold validateTradeWithMinRr at h
  rw [if_neg hdir] at h
  split at h
  · rename_i entry stopLoss takeProfit
    refine ⟨entry, stopLoss, takeProfit, rfl, ?_⟩
    simp only at h
    split at h
    · cases h
    · rename_i hordered
      split at h
      · cases h
      · split at h
        · cases h
        · rename_i htight
          split at h
          · cases h
          · rename_i hreward
            exact ⟨by simpa using hordered, by simpa using htight, by simpa using hreward⟩
  · cases h

end

end AiTrader.QuantCore
