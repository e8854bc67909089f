import AiTrader.PyJson
import AiTrader.TradeManager.Simulation

/-! # Plans as text

The journal stores a plan as JSON: `plan_to_json` and `plan_from_json` of `trade_manager.py`.
Reading is total: what is no plan is `none`.

* `planFromJson_planToJson`: a plan of plain values whose numbers are read back is read back. -/

namespace AiTrader.TradeManager

open Json PyJson

/-! ### Writing -/

def ScaleOutLeg.payload (leg : ScaleOutLeg) : PyVal :=
  .dict [("target", leg.target), ("fraction", leg.fraction)]

def BreakevenTrigger.payload (be : BreakevenTrigger) : PyVal :=
  .dict [("price", be.price), ("r_multiple", be.rMultiple)]

def TrailingStop.payload (trailing : TrailingStop) : PyVal :=
  .dict [("atr_multiple", trailing.atrMultiple), ("r_increment", trailing.rIncrement)]

/-- `None`, or the payload of what is there. -/
def optionalPayload {α : Type} (payload : α → PyVal) : Option α → PyVal
  | none => .none
  | some a => payload a

/-- The dictionary that `plan_to_json` writes. -/
def ManagementPlan.payload (plan : ManagementPlan) : PyVal :=
  .dict [("action", plan.action), ("entry", plan.entry), ("initial_stop", plan.initialStop),
    ("legs", .list (plan.legs.map ScaleOutLeg.payload)),
    ("breakeven", optionalPayload BreakevenTrigger.payload plan.breakeven),
    ("trailing", optionalPayload TrailingStop.payload plan.trailing), ("atr_14", plan.atr14)]

/-- `plan_to_json`. -/
def planToJson (N : NumSyntax PyNum) (plan : ManagementPlan) : String :=
  dumps Style.asciiSpaced N plan.payload

/-! ### Reading -/

/-- `leg["target"]`, `leg["fraction"]`: only a dictionary with both keys has them. -/
def legOf : PyVal → Option ScaleOutLeg
  | .dict d => do
      let target ← List.lookup "target" d
      let fraction ← List.lookup "fraction" d
      return ⟨target, fraction⟩
  | _ => none

def breakevenOf : PyVal → Option BreakevenTrigger
  | .dict d => some ⟨Kwargs.get d "price", Kwargs.get d "r_multiple"⟩
  | _ => none

def trailingOf : PyVal → Option TrailingStop
  | .dict d => some ⟨Kwargs.get d "atr_multiple", Kwargs.get d "r_increment"⟩
  | _ => none

/-- What `plan_from_json` makes of a decoded payload. -/
def planOf : PyVal → Option ManagementPlan
  | .dict d => do
      let rawLegs ← List.lookup "legs" d
      match rawLegs with
      | .list xs =>
          let legs ← xs.mapM legOf
          let action ← List.lookup "action" d
          let entry ← List.lookup "entry" d
          let initialStop ← List.lookup "initial_stop" d
          return { action, entry, initialStop, legs
                   breakeven := breakevenOf (Kwargs.get d "breakeven")
                   trailing := trailingOf (Kwargs.get d "trailing")
                   atr14 := Kwargs.get d "atr_14" }
      | _ => none
  | _ => none

/-- `plan_from_json`. -/
def planFromJson (N : NumSyntax PyNum) (text : String) : Option ManagementPlan :=
  (loads N text).bind planOf

/-! ### Round trip -/

section
variable {N : NumSyntax PyNum} {plan : ManagementPlan}

theorem mapM_legOf (legs : List ScaleOutLeg) :
    (legs.map ScaleOutLeg.payload).mapM legOf = some legs := by
  induction legs with
  | nil => rfl
  | cons leg legs ih =>
      rw [List.map_cons, List.mapM_cons, ih]
      rfl

theorem planOf_payload (plan : ManagementPlan) : planOf plan.payload = some plan := by
  have hlegs := mapM_legOf plan.legs
  obtain ⟨action, entry, initialStop, legs, breakeven, trailing, atr14⟩ := plan
  show (List.mapM legOf (legs.map ScaleOutLeg.payload)).bind _ = _
  rw [hlegs]
  cases breakeven <;> cases trailing <;> rfl

/-- **Round trip of a plan.** -/
theorem planFromJson_planToJson (hnum : (toValue plan.payload).Forall N.Readable)
    (hkeys : Distinct plan.payload) : planFromJson N (planToJson N plan) = some plan := by
  rw [planFromJson, planToJson, loads_dumps hnum hkeys]
  exact planOf_payload plan

theorem planToJson_ne_empty (plan : ManagementPlan) : planToJson N plan ≠ "" := by
  intro h
  have hlist := congrArg String.toList h
  rw [planToJson, dumps, String.toList_ofList] at hlist
  cases hlist

end

end AiTrader.TradeManager
