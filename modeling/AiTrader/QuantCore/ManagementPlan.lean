import AiTrader.Float
import AiTrader.QuantCore.Validator

/-! # The plan validator of the server

A management plan is an entry, an initial stop, the legs in which the position is scaled out and,
if wanted, the point at which the stop moves to the entry.

* `validateManagementPlan`: the checks of `validate_management_plan`, in its order.

The trailing rule of a plan is not validated and left out. -/

namespace AiTrader.QuantCore

/-- `ScaleOutLeg`. -/
structure ScaleOutLeg (α : Type) where
  target : α
  fraction : α
deriving DecidableEq, Repr

/-- `BreakevenTrigger`: a price, or an R-multiple of the way from the entry. -/
structure BreakevenTrigger (α : Type) where
  price : Option α
  rMultiple : Option α
deriving DecidableEq, Repr

/-- `ManagementPlan`. -/
structure ManagementPlan (α : Type) where
  entry : α
  initialStop : α
  legs : List (ScaleOutLeg α)
  breakeven : Option (BreakevenTrigger α)
deriving DecidableEq, Repr

section
variable {α β : Type} (f : α → β)

def ScaleOutLeg.map (leg : ScaleOutLeg α) : ScaleOutLeg β := ⟨f leg.target, f leg.fraction⟩

def BreakevenTrigger.map (be : BreakevenTrigger α) : BreakevenTrigger β :=
  ⟨be.price.map f, be.rMultiple.map f⟩

def ManagementPlan.map (plan : ManagementPlan α) : ManagementPlan β where
  entry := f plan.entry
  initialStop := f plan.initialStop
  legs := plan.legs.map (ScaleOutLeg.map f)
  breakeven := plan.breakeven.map (BreakevenTrigger.map f)

end

section
variable (rnd : ℚ → F64)

/-- `1.0 + 1e-9`. -/
def maxFractionSum : F64 := F64.add rnd (.fin 1) (rnd (1 / 10 ^ 9))

/-- The sum of the fractions, unless one is not in `(0, 1]`. -/
def fractionSum : F64 → List (ScaleOutLeg F64) → Option F64
  | sum, [] => some sum
  | sum, leg :: legs =>
      if F64.lt (.fin 0) leg.fraction && F64.le leg.fraction (.fin 1) then
        fractionSum (F64.add rnd sum leg.fraction) legs
      else none

/-- `b` is on the profit side of `a`. -/
def profitSide : Action → F64 → F64 → Bool
  | .buy, a, b => F64.lt a b
  | .sell, a, b => F64.lt b a
  | .hold, _, _ => true

/-- `b` is on the profit side of `a`, or at it. -/
def notBefore : Action → F64 → F64 → Bool
  | .buy, a, b => F64.le a b
  | .sell, a, b => F64.le b a
  | .hold, _, _ => true

/-- Every target is on the profit side of the entry, and none comes before the previous one. -/
def targetsOk (action : Action) (entry : F64) : Option F64 → List (ScaleOutLeg F64) → Bool
  | _, [] => true
  | prev, leg :: legs =>
      profitSide action entry leg.target && prev.all (notBefore action · leg.target) &&
        targetsOk action entry (some leg.target) legs

/-- The direction of profit. -/
def Action.dir : Action → F64
  | .buy => .fin 1
  | .sell => .fin (-1)
  | .hold => .fin 0

/-- The price a trigger resolves to: its own, or the entry moved by the R-multiple. -/
def breakevenPrice (action : Action) (entry risk : F64) (be : BreakevenTrigger F64) : Option F64 :=
  let moved := (be.rMultiple.filter F64.isFinite).map fun r =>
    F64.add rnd entry (F64.mul rnd (F64.mul rnd action.dir r) risk)
  (be.price.filter F64.isFinite).or moved

/-- A trigger has to resolve to a price strictly between the entry and the first target. -/
def breakevenOk (action : Action) (entry firstTarget risk : F64)
    (breakeven : Option (BreakevenTrigger F64)) : Bool :=
  match breakeven with
  | none => true
  | some be =>
      (breakevenPrice rnd action entry risk be).any fun p =>
        profitSide action entry p && profitSide action p firstTarget

/-- The fraction-weighted distance of the targets from the entry. -/
def blendedReward (entry : F64) (legs : List (ScaleOutLeg F64)) : F64 :=
  (legs.map fun l => F64.mul rnd l.fraction (F64.abs (F64.sub rnd l.target entry))).foldl
    (F64.add rnd) (.fin 0)

/-- `validate_management_plan`. -/
def validateManagementPlan (action : Action) (plan : ManagementPlan F64) (atr14 : Option F64)
    (minBlended : F64) : ValidatorOutcome :=
  if action = .hold then .pass (.fin 0)
  else if !plan.entry.isFinite || !plan.initialStop.isFinite then .fail .missingLevels
  else match plan.legs with
    | [] => .fail .missingLevels
    | first :: _ =>
        if plan.legs.any (fun l => !l.target.isFinite || !l.fraction.isFinite) then
          .fail .missingLevels
        else match fractionSum rnd (.fin 0) plan.legs with
          | none => .fail .legFractionOutOfRange
          | some sum =>
              let risk := F64.abs (F64.sub rnd plan.entry plan.initialStop)
              let blended := F64.div rnd (blendedReward rnd plan.entry plan.legs) risk
              if F64.lt (maxFractionSum rnd) sum then .fail .legFractionOutOfRange
              else if !profitSide action plan.initialStop plan.entry then
                .fail .targetOrderingInconsistent
              else if !targetsOk action plan.entry none plan.legs then
                .fail .targetOrderingInconsistent
              else if F64.le risk (.fin 0) then .fail .targetOrderingInconsistent
              else if stopTooTight rnd risk atr14 then .fail .stopTooTight
              else if !breakevenOk rnd action plan.entry first.target risk plan.breakeven then
                .fail .breakevenOutOfRange
              else if F64.lt blended minBlended then .fail .blendedRrTooLow
              else .pass blended

end

end AiTrader.QuantCore
