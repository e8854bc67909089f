import AiTrader.Library.Merge
import AiTrader.Text
import AiTrader.Value
import Mathlib.Data.Finset.Card

/-! # Loading candles

`tool-server/src/candles.rs`, `load_candles_from_questdb`: the candles of a historical table and of
the live ticks are merged by timestamp, the live ones before the historical ones, and the latest are
returned.  What the database answers to the two queries is an input.

* `load_exact`: which candles are loaded, and which error is reported otherwise. -/

namespace AiTrader.CandleStore

open Text

/-- `volume` is the integer that is converted to a double. -/
structure Candle where
  «open» : F64
  high : F64
  low : F64
  close : F64
  volume : ℤ
  deriving DecidableEq, Repr

/-- A row as the driver reads it; a column that cannot be read is `none`. -/
structure Row where
  tsMicros : Option ℤ
  «open» : Option F64
  high : Option F64
  low : Option F64
  close : Option F64
  volume : Option ℤ
  deriving DecidableEq, Repr

/-- What matters of an `sqlx::Error`. -/
structure QueryError where
  infrastructure : Bool
  missingTable : Bool
  text : String

abbrev QueryResult := Except QueryError (List Row)

structure PrioCandle where
  tsMillis : ℤ
  priority : ℕ
  candle : Candle
  deriving DecidableEq, Repr

inductive CandleLoadError
  | shortfall (symbol timeframe : String) (available needed : ℕ) (detail : String)
  | fault (source detail : String)
  deriving DecidableEq, Repr

def prioDaily : ℕ := 1

def prioIntraday : ℕ := 2

def prioLive : ℕ := 3

/-- The closure of `parse_rows_with_ts`. -/
def parseRow (priority : ℕ) (row : Row) : Option PrioCandle := do
  let «open» ← row.open
  let high ← row.high
  let low ← row.low
  let close ← row.close
  return { tsMillis := (row.tsMicros.getD 0).tdiv 1000
           priority
           candle := { «open», high, low, close, volume := row.volume.getD 0 } }

/-- `parse_rows_with_ts`. -/
def parseRowsWithTs (rows : List Row) (priority : ℕ) : List PrioCandle :=
  rows.filterMap (parseRow priority)

/-! ### Timeframes -/

def isWeekly (timeframe : String) : Bool :=
  decide (timeframe = "1W") || eqIgnoreAsciiCase timeframe "1week" ||
    eqIgnoreAsciiCase timeframe "week"

def isMonthly (timeframe : String) : Bool :=
  decide (timeframe = "1M") || eqIgnoreAsciiCase timeframe "1month" ||
    eqIgnoreAsciiCase timeframe "1mon" || eqIgnoreAsciiCase timeframe "month"

def isDaily (timeframe : String) : Bool :=
  eqIgnoreAsciiCase timeframe "1d" || eqIgnoreAsciiCase timeframe "day" || isWeekly timeframe ||
    isMonthly timeframe

/-- The table the historical candles are read from. -/
def historicalTable (timeframe : String) : String :=
  if isDaily timeframe then "historical_candles" else "historical_intraday"

def historicalPriority (timeframe : String) : ℕ :=
  if isDaily timeframe then prioDaily else prioIntraday

/-- Weekly and monthly candles are not read from the ticks. -/
def readsLive (timeframe : String) : Bool := !isWeekly timeframe && !isMonthly timeframe

/-! ### The load -/

/-- The rows of a query that succeeded. -/
def rowsOf (result : QueryResult) (priority : ℕ) : List PrioCandle :=
  match result with
  | .ok rows => parseRowsWithTs rows priority
  | .error _ => []

/-- The fault that a query that failed is recorded as. -/
def faultOf (source : String) : QueryResult → Option (String × String)
  | .ok _ => none
  | .error e => if e.infrastructure && !e.missingTable then some (source, e.text) else none

/-- The candles of both sources. -/
def allCandles (timeframe : String) (historical live : QueryResult) : List PrioCandle :=
  rowsOf historical (historicalPriority timeframe) ++
    if readsLive timeframe then rowsOf live prioLive else []

/-- The first fault. -/
def infraFault (timeframe : String) (historical live : QueryResult) : Option (String × String) :=
  faultOf (historicalTable timeframe) historical <|>
    if readsLive timeframe then faultOf "live_ticks" live else none

/-- `limit.max(100)`. -/
def effectiveLimit (limit : ℤ) : ℕ := (max limit 100).toNat

/-- The loop that keeps one candle for every timestamp. -/
def deduped (candles : List PrioCandle) : List PrioCandle :=
  Merge.merge PrioCandle.tsMillis PrioCandle.priority candles

def insufficientHistory : String := "Insufficient historical data to compute technical indicators."

def insufficientData (symbol timeframe : String) (available needed : ℕ) : String :=
  "Insufficient data for " ++ symbol ++ " [" ++ timeframe ++ "]: " ++ toString available ++
    " candle(s) available, need " ++ toString needed ++ "."

/-- `load_candles_from_questdb`. -/
def loadCandlesFromQuestdb (symbol timeframe : String) (limit : ℤ) (minCandles : ℕ)
    (historical live : QueryResult) : Except CandleLoadError (List (ℤ × Candle)) :=
  let all := allCandles timeframe historical live
  if all = [] then
    match infraFault timeframe historical live with
    | some (source, detail) => .error (.fault source detail)
    | none => .error (.shortfall symbol timeframe 0 minCandles insufficientHistory)
  else
    let final := (Merge.latest (effectiveLimit limit) (deduped all)).map fun pc =>
      (pc.tsMillis, pc.candle)
    if final.length < minCandles then
      .error (.shortfall symbol timeframe final.length minCandles
        (insufficientData symbol timeframe final.length minCandles))
    else .ok final

/-! ### What is loaded -/

/-- The rows of the historical table. -/
def historicalRows (timeframe : String) (historical : QueryResult) : List PrioCandle :=
  rowsOf historical (historicalPriority timeframe)

/-- The rows of the ticks. -/
def liveRows (timeframe : String) (live : QueryResult) : List PrioCandle :=
  if readsLive timeframe then rowsOf live prioLive else []

/-- The first candle of a timestamp. -/
def firstAt (rows : List PrioCandle) (ts : ℤ) : Option Candle :=
  (rows.find? fun pc => decide (pc.tsMillis = ts)).map PrioCandle.candle

/-- The timestamps of some rows. -/
def times (rows : List PrioCandle) : Finset ℤ := (rows.map PrioCandle.tsMillis).toFinset

variable {symbol timeframe : String} {limit : ℤ} {minCandles : ℕ} {historical live : QueryResult}
  {rows xs ys : List PrioCandle} {pc : PrioCandle} {p q : ℕ}

theorem priority_rowsOf (h : pc ∈ rowsOf historical p) : pc.priority = p := by
  cases historical with
  | error e => cases h
  | ok rows =>
      obtain ⟨row, -, hrow⟩ := List.mem_filterMap.mp h
      obtain ⟨o, ho, hrow⟩ := Option.bind_eq_some_iff.mp hrow
      obtain ⟨hi, hhi, hrow⟩ := Option.bind_eq_some_iff.mp hrow
      obtain ⟨lo, hlo, hrow⟩ := Option.bind_eq_some_iff.mp hrow
      obtain ⟨c, hc, hrow⟩ := Option.bind_eq_some_iff.mp hrow
      cases hrow
      rfl

theorem head?_filter (hrows : ∀ pc ∈ rows, pc.priority = p) (ts : ℤ) :
    (rows.filter fun b => decide (b.tsMillis = ts ∧ b.priority = q)).head? =
      if p = q then rows.find? fun b => decide (b.tsMillis = ts) else none := by
  split
  · rename_i hpq
    rw [← List.head?_filter]
    congr 1
    exact List.filter_congr fun b hb => by simp [hrows b hb, hpq]
  · rename_i hpq
    rw [List.head?_filter]
    exact List.find?_eq_none.mpr fun b hb => by simp [hrows b hb, hpq]

/-- The candle that is kept is the first of the ticks, or else the first of the table. -/
theorem wins_append (hxs : ∀ pc ∈ xs, pc.priority = p) (hys : ∀ pc ∈ ys, pc.priority = q)
    (hpq : p < q) :
    Merge.Wins PrioCandle.tsMillis PrioCandle.priority (xs ++ ys) pc ↔
      (ys.find? fun b => decide (b.tsMillis = pc.tsMillis)).or
        (xs.find? fun b => decide (b.tsMillis = pc.tsMillis)) = some pc := by
  have hfound : ∀ {zs : List PrioCandle} {z : PrioCandle},
      (zs.find? fun b => decide (b.tsMillis = pc.tsMillis)) = some z → z ∈ zs :=
    fun h => List.mem_of_find?_eq_some h
  rw [Merge.Wins, List.filter_append, List.head?_append, head?_filter hxs, head?_filter hys]
  constructor
  · rintro ⟨hhead, hmax⟩
    cases hy : ys.find? fun b => decide (b.tsMillis = pc.tsMillis) with
    | some y =>
        have hymem := hfound hy
        have hle := hmax y (List.mem_append_right _ hymem) (by simpa using List.find?_some hy)
        rw [hys y hymem] at hle
        rw [hy, if_neg (by omega), Option.none_or] at hhead
        split at hhead
        · exact hhead
        · cases hhead
    | none =>
        rw [hy] at hhead
        simp only [ite_self, Option.or_none] at hhead
        split at hhead
        · exact hhead
        · cases hhead
  · intro h
    cases hy : ys.find? fun b => decide (b.tsMillis = pc.tsMillis) with
    | some y =>
        rw [hy] at h
        obtain rfl : y = pc := Option.some.inj h
        have hymem := hfound hy
        refine ⟨?_, fun b hb _ => ?_⟩
        · rw [if_neg (by rw [hys y hymem]; omega), if_pos (hys y hymem).symm]
          rfl
        · rcases List.mem_append.mp hb with hb | hb
          · rw [hxs b hb, hys y hymem]
            exact hpq.le
          · rw [hys b hb, hys y hymem]
    | none =>
        rw [hy] at h
        have hx : (xs.find? fun b => decide (b.tsMillis = pc.tsMillis)) = some pc := h
        have hxmem := hfound hx
        refine ⟨?_, fun b hb hbt => ?_⟩
        · rw [if_pos (hxs pc hxmem).symm, hx]
          rfl
        · rcases List.mem_append.mp hb with hb | hb
          · rw [hxs b hb, hxs pc hxmem]
          · exact absurd (decide_eq_true hbt) (List.find?_eq_none.mp hy b hb)

theorem priorities_lt (timeframe : String) : historicalPriority timeframe < prioLive := by
  unfold historicalPriority
  split <;> decide

theorem wins_allCandles :
    Merge.Wins PrioCandle.tsMillis PrioCandle.priority (allCandles timeframe historical live) pc ↔
      ((liveRows timeframe live).find? fun b => decide (b.tsMillis = pc.tsMillis)).or
        ((historicalRows timeframe historical).find? fun b => decide (b.tsMillis = pc.tsMillis)) =
          some pc := by
  refine wins_append (fun b hb => priority_rowsOf hb) (fun b hb => ?_) (priorities_lt timeframe)
  split at hb
  · exact priority_rowsOf hb
  · cases hb

theorem mem_final (ts : ℤ) (c : Candle) :
    (ts, c) ∈ ((Merge.latest (effectiveLimit limit)
        (deduped (allCandles timeframe historical live))).map fun pc => (pc.tsMillis, pc.candle)) ↔
      (firstAt (liveRows timeframe live) ts).or (firstAt (historicalRows timeframe historical) ts) =
          some c ∧
        ((times (allCandles timeframe historical live)).filter (ts < ·)).card <
          effectiveLimit limit := by
  rw [List.mem_map]
  have hcard : ((times (allCandles timeframe historical live)).filter (ts < ·)).card =
      ((deduped (allCandles timeframe historical live)).filter
        fun pc => decide (ts < pc.tsMillis)).length := Merge.card_times_filter _ (ts < ·)
  rw [hcard]
  constructor
  · rintro ⟨pc, hpc, heq⟩
    obtain ⟨rfl, rfl⟩ := Prod.mk.inj heq
    rw [deduped, Merge.mem_latest (Merge.merge_sorted _), Merge.mem_merge, wins_allCandles] at hpc
    refine ⟨?_, hpc.2⟩
    rw [firstAt, firstAt, ← Option.map_or, hpc.1]
    rfl
  · rintro ⟨hfirst, hlater⟩
    rw [firstAt, firstAt, ← Option.map_or, Option.map_eq_some_iff] at hfirst
    obtain ⟨pc, hpc, rfl⟩ := hfirst
    have hts : pc.tsMillis = ts := by
      rcases Option.or_eq_some_iff.mp hpc with hpc | ⟨-, hpc⟩
      · simpa using List.find?_some hpc
      · simpa using List.find?_some hpc
    subst hts
    refine ⟨pc, ?_, rfl⟩
    rw [deduped, Merge.mem_latest (Merge.merge_sorted _), Merge.mem_merge, wins_allCandles]
    exact ⟨hpc, hlater⟩

theorem card_times (rows : List PrioCandle) : (times rows).card = (deduped rows).length := by
  have hcard : ((times rows).filter fun _ => True).card =
      ((deduped rows).filter fun _ => decide True).length := Merge.card_times_filter rows fun _ => True
  simpa using hcard

/-- **What is loaded.**  The candles stand in strict order of their timestamps; there is one for each
of the latest timestamps, from the ticks if they have one and else from the table.  With too few of
them the load falls short, and only without any does a failed query count as a fault. -/
theorem load_exact (symbol timeframe : String) (limit : ℤ) (minCandles : ℕ)
    (historical live : QueryResult) :
    let all := allCandles timeframe historical live
    let loaded := min (times all).card (effectiveLimit limit)
    match loadCandlesFromQuestdb symbol timeframe limit minCandles historical live with
    | .ok candles =>
        (candles.Pairwise fun a b => a.1 < b.1) ∧ all ≠ [] ∧
          candles.length = loaded ∧ minCandles ≤ loaded ∧
          ∀ ts c, (ts, c) ∈ candles ↔
            (firstAt (liveRows timeframe live) ts).or
              (firstAt (historicalRows timeframe historical) ts) = some c ∧
            ((times all).filter (ts < ·)).card < effectiveLimit limit
    | .error (.shortfall _ _ available needed _) =>
        needed = minCandles ∧ available = loaded ∧
          (all = [] ∧ infraFault timeframe historical live = none ∨ all ≠ [] ∧ loaded < minCandles)
    | .error (.fault source detail) =>
        all = [] ∧ infraFault timeframe historical live = some (source, detail) := by
  intro all loaded
  have hlength : ((Merge.latest (effectiveLimit limit) (deduped all)).map fun pc =>
      (pc.tsMillis, pc.candle)).length = loaded := by
    rw [List.length_map, Merge.length_latest, ← card_times]
  by_cases hall : all = []
  · have hnone : loaded = 0 := by
      rw [show loaded = min (times all).card _ from rfl, hall]
      exact Nat.zero_min _
    have hall' : allCandles timeframe historical live = [] := hall
    cases hfault : infraFault timeframe historical live with
    | some fault =>
        rw [loadCandlesFromQuestdb, if_pos hall', hfault]
        exact ⟨hall, rfl⟩
    | none =>
        rw [loadCandlesFromQuestdb, if_pos hall', hfault]
        exact ⟨rfl, hnone.symm, Or.inl ⟨hall, rfl⟩⟩
  · have hall' : ¬ allCandles timeframe historical live = [] := hall
    by_cases hfew : loaded < minCandles
    · have heq : loadCandlesFromQuestdb symbol timeframe limit minCandles historical live =
          .error (.shortfall symbol timeframe loaded minCandles
            (insufficientData symbol timeframe loaded minCandles)) := by
        rw [loadCandlesFromQuestdb, if_neg hall']
        simp only [show allCandles timeframe historical live = all from rfl, hlength, if_pos hfew]
      rw [heq]
      exact ⟨rfl, rfl, Or.inr ⟨hall, hfew⟩⟩
    · have heq : loadCandlesFromQuestdb symbol timeframe limit minCandles historical live =
          .ok ((Merge.latest (effectiveLimit limit) (deduped all)).map fun pc =>
            (pc.tsMillis, pc.candle)) := by
        rw [loadCandlesFromQuestdb, if_neg hall']
        simp only [show allCandles timeframe historical live = all from rfl, hlength, if_neg hfew]
      rw [heq]
      refine ⟨?_, hall, hlength, not_lt.mp hfew, mem_final⟩
      rw [List.pairwise_map]
      exact (Merge.merge_sorted all).sublist (Merge.latest_sublist _ _)

end AiTrader.CandleStore
