import AiTrader.TradeManager.Replay

/-! # The default plan

`default_management_plan` and `management_style_tag` of `trade_manager.py`: the plan of a managed
run, and the one word that a plan's style is filed under. -/

namespace AiTrader.TradeManager

/-- The resolved parameters that the default plan is built from. -/
structure TradeManagerConfig where
  defaultFirstTargetR : ℚ
  defaultFirstTargetFraction : ℚ
  defaultBreakevenTriggerR : ℚ
  defaultTrailAtrMultiple : ℚ

/-- `default_management_plan`. -/
def defaultManagementPlan (C : Text.Casing) (action : String) (entry stopLoss : ℚ) (atr14 : PyVal)
    (config : TradeManagerConfig) : ManagementPlan :=
  let side := if C.upper action = "SELL" then "SELL" else "BUY"
  let stopDistance := |entry - stopLoss|
  let firstTarget := if side = "BUY" then entry + config.defaultFirstTargetR * stopDistance
    else entry - config.defaultFirstTargetR * stopDistance
  { action := .str side
    entry := .float (.fin entry)
    initialStop := .float (.fin stopLoss)
    legs := [⟨.float (.fin firstTarget), .float (.fin config.defaultFirstTargetFraction)⟩]
    breakeven := some { rMultiple := .float (.fin config.defaultBreakevenTriggerR) }
    trailing := some { atrMultiple := .float (.fin config.defaultTrailAtrMultiple) }
    atr14 }

/-! ### The style of a plan -/

/-- `v is not None`. -/
def populated : PyVal → Bool
  | .none => false
  | _ => true

/-- `_has_breakeven`. -/
def hasBreakeven (plan : ManagementPlan) : Bool :=
  plan.breakeven.any fun be => populated be.price || populated be.rMultiple

/-- `_has_trailing`. -/
def hasTrailing (plan : ManagementPlan) : Bool :=
  plan.trailing.any fun trail => populated trail.atrMultiple || populated trail.rIncrement

/-- `_is_scaling`.  `none`: a fraction cannot be compared. -/
def isScaling (plan : ManagementPlan) : Option Bool :=
  if 1 < plan.legs.length then some true
  else plan.legs.anyM fun leg => (comparable leg.fraction).map fun f => F64.lt f (.fin 1)

/-- `management_style_tag`. -/
def managementStyleTag : Option ManagementPlan → String
  | none => "unknown"
  | some plan =>
      match isScaling plan with
      | none => "unknown"
      | some true =>
          if hasBreakeven plan && hasTrailing plan then "scale-be-trail"
          else if hasBreakeven plan then "scale-be"
          else if hasTrailing plan then "scale-trail"
          else "scale"
      | some false =>
          if hasTrailing plan then "trail" else if hasBreakeven plan then "be" else "single"

/-! ### Plans that cannot be simulated -/

theorem isSome_levelsOf (C : Text.Casing) {plan : ManagementPlan} {entry stop : ℚ}
    (hentry : plan.entry = .float (.fin entry)) (hstop : plan.initialStop = .float (.fin stop)) :
    (levelsOf C plan).isSome = decide (entry ≠ stop) := by
  have hfin (q : ℚ) : finiteNum (.float (.fin q)) = some q := rfl
  rw [levelsOf, hentry, hstop, hfin, hfin, Option.bind_eq_bind, Option.bind_some, Option.bind_some]
  dsimp only
  by_cases h : entry = stop
  · rw [h, sub_self, abs_zero, if_pos rfl, decide_eq_false (not_not.mpr rfl)]
    rfl
  · rw [if_neg (abs_ne_zero.mpr (sub_ne_zero.mpr h)), decide_eq_true h]
    rfl

/-- A simulation is invalid exactly for want of levels, unless reading the levels raises. -/
theorem simulatePlan_invalid_iff (C : Text.Casing) (plan : ManagementPlan) (candles : List PyVal)
    (hentry : tooLarge plan.entry = false) (hstop : tooLarge plan.initialStop = false) :
    (simulatePlan C plan candles).status = .invalid ↔ (levelsOf C plan).isSome = false := by
  unfold simulatePlan opening
  rw [hentry, hstop, Bool.or_false, if_neg Bool.false_ne_true]
  cases levelsOf C plan with
  | none => exact iff_of_true rfl rfl
  | some L =>
      refine iff_of_false ?_ (by simp)
      cases rulesRaise plan with
      | true => exact SimStatus.noConfusion
      | false =>
          dsimp only
          rw [if_neg Bool.false_ne_true]
          dsimp only
          split
          · exact SimStatus.noConfusion
          · intro h
            rcases L.simLoop_status (cleanCandles candles) with hopen | ⟨hresolved, -⟩
            · cases hopen.symm.trans h
            · cases hresolved.symm.trans h

end AiTrader.TradeManager
