import AiTrader.Text
import AiTrader.Value
import Mathlib.Algebra.Order.Field.Rat
import Mathlib.Data.List.Sort
import Mathlib.Data.Prod.Lex

/-! # The exit simulation

`trade_manager.py`: a management plan is played against a list of candles, one candle at a time:
the stop first, then the targets, then the stop is moved for the candles to come.

Arithmetic is exact.  A plan's fields and a candle are whatever the caller put there, so they are
Python values; what is no finite number is left out.  The code raises where it compares a value
without looking, and where an int is too large for a double; `simulate_plan` catches that and
comes out open.  The resolved configuration is an argument that the simulation does not read.

* `cleanCandles`: `_clean_candles`.
* `simStep`: one candle.
* `simulatePlan`: `simulate_plan`. -/

namespace AiTrader.TradeManager

/-! ### Plans -/

/-- One partial-exit target: a price and the size fraction closed there. -/
structure ScaleOutLeg where
  target : PyVal
  fraction : PyVal

/-- A price, or an R-multiple of progress from the entry. -/
structure BreakevenTrigger where
  price : PyVal := .none
  rMultiple : PyVal := .none

/-- A multiple of ATR(14), or a fixed R increment. -/
structure TrailingStop where
  atrMultiple : PyVal := .none
  rIncrement : PyVal := .none

/-- The full multi-leg exit plan for a directional trade. -/
structure ManagementPlan where
  action : PyVal
  entry : PyVal
  initialStop : PyVal
  legs : List ScaleOutLeg
  breakeven : Option BreakevenTrigger := none
  trailing : Option TrailingStop := none
  atr14 : PyVal := .none

/-- `single_target_plan`: one leg for the whole position. -/
def singleTargetPlan (entry stopLoss takeProfit : ℚ) : ManagementPlan where
  action := .str (if entry ≤ takeProfit then "BUY" else "SELL")
  entry := .float (.fin entry)
  initialStop := .float (.fin stopLoss)
  legs := [⟨.float (.fin takeProfit), .float (.fin 1)⟩]

/-! ### Results -/

/-- How a part of the position was closed. -/
inductive FillKind
  | target | stop | breakevenStop | trailStop
  deriving DecidableEq, Repr

/-- One recorded exit.  `index` is the leg's, or `-1` for the residual. -/
structure LegFill where
  index : ℤ
  price : ℚ
  fraction : ℚ
  legR : ℚ
  timestampMs : ℤ
  kind : FillKind
  deriving DecidableEq, Repr

inductive SimStatus
  | resolved | «open» | invalid
  deriving DecidableEq, Repr

structure SimulationResult where
  status : SimStatus
  realizedR : Option ℚ
  fills : List LegFill
  residualFraction : ℚ
  breakevenMovedAt : Option ℤ := none
  trailed : Bool := false
  deriving DecidableEq, Repr

/-! ### Candles -/

/-- `math.isfinite` raises for an int that no double holds: from `2 ^ 1024 - 2 ^ 970` on. -/
def tooLarge : PyVal → Bool
  | .int z => decide (2 ^ 54 - 1 ≤ z.natAbs >>> 970)
  | _ => false

/-- `_finite_num`: the value of an `int` or of a finite `float`; a `bool` is neither.  Where it
raises there is no value either, and the caller sees to `tooLarge`. -/
def finiteNum : PyVal → Option ℚ
  | .int z => if tooLarge (.int z) then none else some z
  | .float (.fin q) => some q
  | _ => none

/-- The fields of a candle that the simulation keeps. -/
structure Row where
  ts : ℚ
  «open» : ℚ
  high : ℚ
  low : ℚ
  close : ℚ
  deriving DecidableEq, Repr

/-- The sort key. -/
def Row.key (r : Row) : ℚ ×ₗ ℚ ×ₗ ℚ ×ₗ ℚ ×ₗ ℚ :=
  toLex (r.ts, toLex (r.open, toLex (r.high, toLex (r.low, r.close))))

/-- `_candle_timestamp`: the first of three keys that holds a number. -/
def candleTimestamp (candle : Kwargs) : Option ℚ :=
  (finiteNum (candle.get "timestamp_ms")).or
    ((finiteNum (candle.get "timestamp")).or (finiteNum (candle.get "time")))

/-- One turn of the loop of `_clean_candles`: the volume is looked at only when there is one. -/
def cleanCandle : PyVal → Option Row
  | .dict c => do
      let o ← finiteNum (Kwargs.get c "open")
      let h ← finiteNum (Kwargs.get c "high")
      let lo ← finiteNum (Kwargs.get c "low")
      let cl ← finiteNum (Kwargs.get c "close")
      if (List.lookup "volume" c).all (fun v => (finiteNum v).isSome) then
        let ts ← candleTimestamp c
        return ⟨ts, o, h, lo, cl⟩
      else none
  | _ => none

/-- The timestamp is read key by key, up to the first number. -/
def timestampRaises (candle : Kwargs) : Bool :=
  tooLarge (candle.get "timestamp_ms") || (finiteNum (candle.get "timestamp_ms")).isNone &&
    (tooLarge (candle.get "timestamp") || (finiteNum (candle.get "timestamp")).isNone &&
      tooLarge (candle.get "time"))

/-- One turn of the loop raises: a number that it reads is too large. -/
def cleanRaises : PyVal → Bool
  | .dict c =>
      ["open", "high", "low", "close"].any (fun k => tooLarge (Kwargs.get c k)) ||
      ["open", "high", "low", "close"].all (fun k => (finiteNum (Kwargs.get c k)).isSome) &&
        (tooLarge (Kwargs.get c "volume") ||
          (List.lookup "volume" c).all (fun v => (finiteNum v).isSome) && timestampRaises c)
  | _ => false

/-- `_clean_candles`: the rows in ascending order of their fields. -/
def cleanCandles (candles : List PyVal) : List Row :=
  (candles.filterMap cleanCandle).insertionSort (fun a b => a.key ≤ b.key)

/-! ### The simulation -/

/-- What the simulation reads off the plan before the first candle. -/
structure Levels where
  isBuy : Bool
  entry : ℚ
  stop : ℚ
  stopDistance : ℚ
  legs : List ScaleOutLeg
  beLevel : Option ℚ
  trailDistance : Option ℚ

/-- The state of the loop. -/
structure Sim where
  fills : List LegFill
  filledIndices : List ℕ
  remaining : ℚ
  activeStop : ℚ
  stopOrigin : FillKind
  breakevenMoved : Bool
  breakevenMovedAt : Option ℤ
  trailed : Bool

/-- `_SIZE_TOL`. -/
def sizeTol : ℚ := 1 / 10 ^ 9

/-- `int` of a finite float: the part after the point is dropped. -/
def truncate (q : ℚ) : ℤ := q.num.tdiv q.den

/-- The number that a comparison sees; a comparison with anything else raises. -/
def comparable : PyVal → Option F64
  | .bool b => some (.fin (if b then 1 else 0))
  | .int z => some (.fin z)
  | .float x => some x
  | _ => none

namespace Levels

variable (L : Levels)

/-- How far `price` lies on the profit side of the entry. -/
def gain (price : ℚ) : ℚ := if L.isBuy then price - L.entry else L.entry - price

/-- `r_of`: the signed R of a fill price, over the initial stop distance. -/
def rOf (price : ℚ) : ℚ := L.gain price / L.stopDistance

/-- The candle's range reaches a price on the loss side. -/
def stopHit (row : Row) (stop : ℚ) : Bool :=
  if L.isBuy then decide (row.low ≤ stop) else decide (stop ≤ row.high)

/-- The candle's range reaches a price on the profit side. -/
def targetHit (row : Row) (target : ℚ) : Bool :=
  if L.isBuy then decide (target ≤ row.high) else decide (row.low ≤ target)

/-- `candidate` is a stop that locks in more than `stop`. -/
def tighter (candidate stop : ℚ) : Bool :=
  if L.isBuy then decide (stop < candidate) else decide (candidate < stop)

/-- The trailing stop behind a close. -/
def trailCandidate (close dist : ℚ) : ℚ := if L.isBuy then close - dist else close + dist

/-- `_realized_r`. -/
def realizedR (fills : List LegFill) : ℚ := (fills.map fun f => f.fraction * f.legR).sum

/-- The size that a leg closes: its fraction, or what remains when that is less. -/
def legSize (fraction : F64) (remaining : ℚ) : F64 :=
  if F64.le fraction (.fin remaining) then fraction else .fin remaining

/-- One turn of the loop over the legs.  `none`: the target or the comparison of the fraction
raises. -/
def fillLeg (row : Row) (s : Sim) (i : ℕ) (leg : ScaleOutLeg) : Option Sim :=
  if i ∈ s.filledIndices ∨ s.remaining ≤ sizeTol then some s
  else if tooLarge leg.target then none
  else match finiteNum leg.target with
    | none => some s
    | some target =>
        if L.targetHit row target then
          match comparable leg.fraction with
          | none => none
          | some fraction =>
              let s := { s with filledIndices := i :: s.filledIndices }
              match legSize fraction s.remaining with
              | .fin frac =>
                  if frac ≤ 0 then some s
                  else some { s with
                    fills := s.fills ++ [⟨i, target, frac, L.rOf target, truncate row.ts, .target⟩]
                    remaining := s.remaining - frac }
              | _ => some s
        else some s

/-- The loop over the legs, from leg `i` on. -/
def fillLegs (row : Row) : Sim → ℕ → List ScaleOutLeg → Option Sim
  | s, _, [] => some s
  | s, i, leg :: legs => (L.fillLeg row s i leg).bind fun s => fillLegs row s (i + 1) legs

/-- 3a: the stop moves to the entry once the trigger is reached, unless it is already tighter. -/
def moveToBreakeven (row : Row) (s : Sim) : Sim :=
  match L.beLevel with
  | none => s
  | some level =>
      if !s.breakevenMoved && L.targetHit row level then
        let s := if L.tighter L.entry s.activeStop then
          { s with activeStop := L.entry, stopOrigin := .breakevenStop } else s
        { s with breakevenMoved := true, breakevenMovedAt := some (truncate row.ts) }
      else s

/-- 3b: the stop follows the close, never adversely. -/
def trail (row : Row) (s : Sim) : Sim :=
  match L.trailDistance with
  | none => s
  | some dist =>
      if L.beLevel.isNone || s.breakevenMoved then
        let candidate := L.trailCandidate row.close dist
        if L.tighter candidate s.activeStop then
          { s with activeStop := candidate, stopOrigin := .trailStop, trailed := true }
        else s
      else s

/-- What one candle comes to: the simulation goes on, is over, or has raised. -/
inductive StepOutcome
  | going (s : Sim)
  | done (r : SimulationResult)
  | raised

/-- One candle. -/
def simStep (row : Row) (s : Sim) : StepOutcome :=
  if L.stopHit row s.activeStop then
    let fills := s.fills ++
      [⟨-1, s.activeStop, s.remaining, L.rOf s.activeStop, truncate row.ts, s.stopOrigin⟩]
    .done ⟨.resolved, some (realizedR fills), fills, s.remaining, s.breakevenMovedAt, s.trailed⟩
  else match L.fillLegs row s 0 L.legs with
    | none => .raised
    | some s =>
        if s.remaining ≤ sizeTol then
          .done ⟨.resolved, some (realizedR s.fills), s.fills, 0, s.breakevenMovedAt, s.trailed⟩
        else .going (L.trail row (L.moveToBreakeven row s))

/-- What `simulate_plan` makes of an exception. -/
def raisedResult : SimulationResult := ⟨.open, none, [], 1, none, false⟩

/-- The loop over the cleaned candles. -/
def simLoop : Sim → List Row → SimulationResult
  | s, [] => ⟨.open, none, s.fills, s.remaining, s.breakevenMovedAt, s.trailed⟩
  | s, row :: rows =>
      match L.simStep row s with
      | .going s => simLoop s rows
      | .done r => r
      | .raised => raisedResult

/-- The state before the first candle. -/
def start : Sim := ⟨[], [], 1, L.stop, .stop, false, none, false⟩

end Levels

section
variable (C : Text.Casing)

/-- `str(plan.action).upper() == "SELL"`: the text of a value that is no string is not `SELL`. -/
def isSell : PyVal → Bool
  | .str s => C.upper s = "SELL"
  | _ => false

/-- The level of the breakeven trigger: its price, or the R-multiple from the entry. -/
def breakevenLevel (isBuy : Bool) (entry stopDistance : ℚ) (be : BreakevenTrigger) : Option ℚ :=
  (finiteNum be.price).or ((finiteNum be.rMultiple).map fun r =>
    if isBuy then entry + r * stopDistance else entry - r * stopDistance)

/-- `trail_distance`: a negative offset is no rule. -/
def trailDistance (atr14 : PyVal) (stopDistance : ℚ) (trailing : TrailingStop) : Option ℚ :=
  let dist := match finiteNum trailing.atrMultiple, finiteNum atr14 with
    | some n, some atr => some (n * atr)
    | _, _ => (finiteNum trailing.rIncrement).map fun r => r * stopDistance
  dist.filter fun d => decide (0 ≤ d)

/-- The levels of a plan, unless an entry or a stop is no number or they are at one price. -/
def levelsOf (plan : ManagementPlan) : Option Levels := do
  let entry ← finiteNum plan.entry
  let stop ← finiteNum plan.initialStop
  let stopDistance := |entry - stop|
  if stopDistance = 0 then none
  else
    let isBuy := !isSell C plan.action
    return { isBuy, entry, stop, stopDistance, legs := plan.legs
             beLevel := plan.breakeven.bind (breakevenLevel isBuy entry stopDistance)
             trailDistance := plan.trailing.bind (trailDistance plan.atr14 stopDistance) }

/-- The numbers of the rules that move the stop are read whether they are used or not. -/
def rulesRaise (plan : ManagementPlan) : Bool :=
  plan.breakeven.any (fun be => tooLarge be.price || tooLarge be.rMultiple) ||
    tooLarge plan.atr14 ||
      plan.trailing.any fun t => tooLarge t.atrMultiple || tooLarge t.rIncrement

/-- What a plan comes to before the first candle: levels to simulate, or already a result. -/
def opening (plan : ManagementPlan) : Except SimulationResult Levels :=
  if tooLarge plan.entry || tooLarge plan.initialStop then .error Levels.raisedResult
  else match levelsOf C plan with
    | none => .error ⟨.invalid, none, [], 0, none, false⟩
    | some L => if rulesRaise plan then .error Levels.raisedResult else .ok L

/-- `simulate_plan`. -/
def simulatePlan (plan : ManagementPlan) (candles : List PyVal) : SimulationResult :=
  match opening C plan with
  | .error r => r
  | .ok L =>
      if candles.any cleanRaises then Levels.raisedResult
      else L.simLoop L.start (cleanCandles candles)

end

section
variable {C : Text.Casing} {plan : ManagementPlan} {L : Levels} {r : SimulationResult}

theorem levelsOf_of_opening (h : opening C plan = .ok L) : levelsOf C plan = some L := by
  unfold opening at h
  split at h
  · cases h
  split at h
  · cases h
  · rename_i L' hL
    split at h
    · cases h
    · cases h
      exact hL

theorem opening_error (h : opening C plan = .error r) :
    r = Levels.raisedResult ∨
      r = ⟨.invalid, none, [], 0, none, false⟩ ∧ levelsOf C plan = none := by
  unfold opening at h
  split at h
  · cases h
    exact .inl rfl
  split at h
  · rename_i hnone
    cases h
    exact .inr ⟨rfl, hnone⟩
  · split at h
    · cases h
      exact .inl rfl
    · cases h

theorem simulatePlan_resolved {candles : List PyVal}
    (h : (simulatePlan C plan candles).status = .resolved) :
    ∃ L, levelsOf C plan = some L ∧
      simulatePlan C plan candles = L.simLoop L.start (cleanCandles candles) := by
  unfold simulatePlan at h ⊢
  cases hL : opening C plan with
  | error r =>
      rw [hL] at h
      rcases opening_error hL with rfl | ⟨rfl, -⟩ <;> cases h
  | ok L =>
      rw [hL] at h
      dsimp only at h ⊢
      split at h
      · cases h
      · rename_i hread
        exact ⟨L, levelsOf_of_opening hL, if_neg hread⟩

end

end AiTrader.TradeManager
