import AiTrader.TradeManager.PlanJson
import AiTrader.TradeManager.Replay
import Mathlib.Data.Rat.Floor

/-! # Scoring a recorded trade

`_score_one` and `_score_managed_trade` of `journal.py`.  A trade without a management plan is
scored by the first candle that touches its stop or its target; one with a plan is played by the
exit simulation.  Arithmetic is exact.  The clock, the expiry time, the case mapping, the texts
of numbers and the rounding of an R (`round4` is Python's) are parameters.

`_is_num` raises for an int that no double holds; here such an int is no number, as the server's
numbers are of 64 bits. -/

namespace AiTrader.Journal

open Json PyJson TradeManager

/-- The columns of a row of `trades` that scoring reads. -/
structure TradeRow where
  action : String
  entry : PyVal
  stopLoss : PyVal
  takeProfit : PyVal
  createdAt : PyVal
  managementPlan : Option String

inductive ScoreStatus
  | win | loss | expired
  deriving DecidableEq, Repr

/-- The columns that scoring sets. -/
structure ScoreUpdate where
  status : ScoreStatus
  outcomePrice : Option ℚ
  outcomeAt : Option ℚ
  rMultiple : Option ℚ
  exitBreakdown : Option String := none
  deriving DecidableEq

/-- Status, price, time in seconds, and R. -/
abbrev Outcome := ScoreStatus × Option ℚ × Option ℚ × Option ℚ

/-- What is recorded of an outcome, its breakdown apart. -/
def ScoreUpdate.core (upd : ScoreUpdate) : Outcome :=
  (upd.status, upd.outcomePrice, upd.outcomeAt, upd.rMultiple)

/-- `round(q, 4)`: ties go to the even last digit. -/
def round4 (q : ℚ) : ℚ :=
  let scaled := q * 10000
  let low := ⌊scaled⌋
  let part := scaled - low
  if part < 1 / 2 then low / 10000
  else if 1 / 2 < part then (low + 1) / 10000
  else if low % 2 = 0 then low / 10000 else (low + 1) / 10000

/-! ### The exit breakdown -/

/-- `kind` as text. -/
def kindText : FillKind → String
  | .target => "target"
  | .stop => "stop"
  | .breakevenStop => "breakeven-stop"
  | .trailStop => "trail-stop"

/-- `status` as text. -/
def statusText : SimStatus → String
  | .resolved => "resolved"
  | .open => "open"
  | .invalid => "invalid"

def fillPayload (f : LegFill) : PyVal :=
  .dict [("index", .int f.index), ("price", .float (.fin f.price)),
    ("fraction", .float (.fin f.fraction)), ("leg_r", .float (.fin f.legR)),
    ("timestamp_ms", .int f.timestampMs), ("kind", .str (kindText f.kind))]

/-- `_exit_breakdown_json`. -/
def exitBreakdownJson (N : NumSyntax PyNum) (r : SimulationResult) : String :=
  dumps Style.asciiSpaced N (.dict [("status", .str (statusText r.status)),
    ("realized_r", (r.realizedR.map fun q => PyVal.float (.fin q)).getD .none),
    ("fills", .list (r.fills.map fillPayload)),
    ("residual_fraction", .float (.fin r.residualFraction)),
    ("breakeven_moved_at", (r.breakevenMovedAt.map PyVal.int).getD .none),
    ("trailed", .bool r.trailed)])

section
variable (C : Text.Casing) (N : NumSyntax PyNum) (rounded : ℚ → ℚ) (now expirySeconds : ℚ)

/-! ### A trade with a plan -/

/-- The timestamp of a dictionary that has a number there. -/
def timestampMs : PyVal → Option ℚ
  | .dict d => finiteNum (Kwargs.get d "timestamp_ms")
  | _ => none

/-- The candles strictly after the entry. -/
def subsequent (createdMs : ℚ) (candles : List PyVal) : List PyVal :=
  candles.filter fun c => (timestampMs c).any fun ts => decide (createdMs < ts)

/-- Neither resolved nor to be scored later: the trade is too old. -/
def expire (createdAt : ℚ) (lastTsMs : Option ℚ) (breakdown : Option String) :
    Option ScoreUpdate :=
  match lastTsMs with
  | none => none
  | some ts =>
      if expirySeconds < now - createdAt then
        some ⟨.expired, none, some (ts / 1000), none, breakdown⟩
      else none

/-- What a resolved simulation comes to. -/
def managedUpdate (result : SimulationResult) : Option ScoreUpdate :=
  match result.status, result.realizedR with
  | .resolved, some r =>
      let lastFill := result.fills.getLast?
      some ⟨if 0 < r then .win else .loss, lastFill.map LegFill.price,
        lastFill.map fun f => (f.timestampMs : ℚ) / 1000, some (rounded r),
        some (exitBreakdownJson N result)⟩
  | _, _ => none

/-- `_score_managed_trade`. -/
def scoreManagedTrade (trade : TradeRow) (candles : List PyVal) (planText : String) :
    Option ScoreUpdate :=
  match planFromJson N planText, finiteNum trade.createdAt with
  | some plan, some createdAt =>
      let window := subsequent (createdAt * 1000) candles
      let result := simulatePlan C plan window
      match managedUpdate N rounded result with
      | some upd => some upd
      | none =>
          expire now expirySeconds createdAt (window.filterMap timestampMs).getLast?
            (some (exitBreakdownJson N result))
  | _, _ => none

/-! ### A trade with one target -/

/-- The timestamp and the range of a candle that has them. -/
def touchFields : PyVal → Option (ℚ × ℚ × ℚ)
  | .dict d => do
      let ts ← finiteNum (Kwargs.get d "timestamp_ms")
      let hi ← finiteNum (Kwargs.get d "high")
      let lo ← finiteNum (Kwargs.get d "low")
      return (ts, hi, lo)
  | _ => none

/-- What a candle's range decides; a candle that touches both levels is a loss. -/
def touch (isBuy : Bool) (sl tp rr ts hi lo : ℚ) : Option ScoreUpdate :=
  let hitTp := if isBuy then decide (tp ≤ hi) else decide (lo ≤ tp)
  let hitSl := if isBuy then decide (lo ≤ sl) else decide (sl ≤ hi)
  if hitSl && hitTp then some ⟨.loss, some sl, some (ts / 1000), some (-1), none⟩
  else if hitTp then some ⟨.win, some tp, some (ts / 1000), some (rounded rr), none⟩
  else if hitSl then some ⟨.loss, some sl, some (ts / 1000), some (-1), none⟩
  else none

/-- The loop over the candles: the last timestamp after the entry, and what the first touching
candle decides. -/
def touchLoop (isBuy : Bool) (sl tp rr createdMs : ℚ) :
    Option ℚ → List PyVal → Option ℚ × Option ScoreUpdate
  | lastTsMs, [] => (lastTsMs, none)
  | lastTsMs, c :: cs =>
      match touchFields c with
      | none => touchLoop isBuy sl tp rr createdMs lastTsMs cs
      | some (ts, hi, lo) =>
          if ts ≤ createdMs then touchLoop isBuy sl tp rr createdMs lastTsMs cs
          else match touch rounded isBuy sl tp rr ts hi lo with
            | some upd => (some ts, some upd)
            | none => touchLoop isBuy sl tp rr createdMs (some ts) cs

/-- The part of `_score_one` for a trade without a plan. -/
def scoreSingleTarget (trade : TradeRow) (candles : List PyVal) : Option ScoreUpdate := do
  let entry ← finiteNum trade.entry
  let sl ← finiteNum trade.stopLoss
  let tp ← finiteNum trade.takeProfit
  let createdAt ← finiteNum trade.createdAt
  let risk := |entry - sl|
  if risk ≤ 0 then none
  else
    let rr := |tp - entry| / risk
    let isBuy := decide (C.upper trade.action = "BUY")
    let (lastTsMs, upd) := touchLoop rounded isBuy sl tp rr (createdAt * 1000) none candles
    match upd with
    | some upd => some upd
    | none => expire now expirySeconds createdAt lastTsMs none

/-- `_score_one`. -/
def scoreOne (trade : TradeRow) (candles : List PyVal) : Option ScoreUpdate :=
  match trade.managementPlan with
  | some planText =>
      if planText = "" then scoreSingleTarget C rounded now expirySeconds trade candles
      else scoreManagedTrade C N rounded now expirySeconds trade candles planText
  | none => scoreSingleTarget C rounded now expirySeconds trade candles

end

end AiTrader.Journal
