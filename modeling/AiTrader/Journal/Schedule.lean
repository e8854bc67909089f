import AiTrader.Journal.Scoring

/-! # Scoring the open trades

`score_open_trades` of `journal.py`.  It is called now and then; each call fetches the last
candles of the symbol and timeframe of every open trade, as many as a limit says, and records
what `_score_one` makes of them.  A recorded trade is not looked at again. -/

namespace AiTrader.Journal

open Json PyJson TradeManager

/-- `status` of a row, with the outcome columns and `scored_at` that go with it. -/
inductive TradeStatus
  | «open»
  | hold
  | scored (upd : ScoreUpdate) (scoredAt : ℚ)

/-- A row of `trades`. -/
structure StoredTrade where
  symbol : Option String
  timeframe : Option String
  trade : TradeRow
  status : TradeStatus

/-- A call of `score_open_trades`, and its clock. -/
structure Call where
  now : ℚ
  symbol : Option String

/-- A text that is neither `None` nor empty. -/
def nonempty (s : Option String) : Option String := s.filter fun s => s ≠ ""

/-- The symbol and timeframe whose candles a call fetches for a row: the query selects the row,
and they are there. -/
def Call.group (call : Call) (row : StoredTrade) : Option (String × String) :=
  match row.status with
  | .open =>
      if (nonempty call.symbol).all fun s => decide (row.symbol = some s) then do
        let sym ← nonempty row.symbol
        let tf ← nonempty row.timeframe
        return (sym, tf)
      else none
  | _ => none

section
variable (C : Text.Casing) (N : NumSyntax PyNum) (rounded : ℚ → ℚ) (expirySeconds : ℚ)
  (fetch : Call → String → String → List PyVal)

/-- What a call finds out about a row.  Rows are grouped in the source only to fetch the candles
of a symbol and a timeframe once. -/
def outcomeOf (call : Call) (row : StoredTrade) : Option ScoreUpdate :=
  match call.group row with
  | none => none
  | some (sym, tf) =>
      let candles := fetch call sym tf
      if candles.isEmpty then none
      else scoreOne C N rounded call.now expirySeconds row.trade candles

/-- What a call makes of a row. -/
def rescore (call : Call) (row : StoredTrade) : StoredTrade :=
  match outcomeOf C N rounded expirySeconds fetch call row with
  | some upd => { row with status := .scored upd call.now }
  | none => row

/-- `score_open_trades`: the table afterwards and the number of trades newly resolved. -/
def scoreOpenTrades (call : Call) (rows : List StoredTrade) : List StoredTrade × ℕ :=
  (rows.map (rescore C N rounded expirySeconds fetch call),
    rows.countP fun row => (outcomeOf C N rounded expirySeconds fetch call row).isSome)

/-- The table after a schedule of calls. -/
def runCalls (calls : List Call) (rows : List StoredTrade) : List StoredTrade :=
  calls.foldl (fun rows call => (scoreOpenTrades C N rounded expirySeconds fetch call rows).1) rows

end

end AiTrader.Journal
