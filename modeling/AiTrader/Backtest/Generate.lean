import AiTrader.Backtest.Labels
import AiTrader.Library.Cooldown

/-! # The backtest

`generate_and_score` of `backtest.py`: the bars are gone through in order; a signal is labelled,
scored on the bars after it, and recorded unless a filter drops it or it expires; a scored signal
closes the bars of its cooldown.

The rules and the four classifiers are parameters, each with its configuration, which is resolved
once before the loop.  Arithmetic is exact.

* `run_eq`: the loop never raises, and its records are those that are kept of a walk with a
  cooldown over the scored signals. -/

namespace AiTrader.Backtest

open Json PyJson TradeManager Journal

/-- The settings that `_signal_for_bar` and `_build_decision` read. -/
structure RuleConfig where
  emaFast : ℤ := 9
  emaSlow : ℤ := 21
  atrPeriod : ℤ := 14
  olsWindow : ℤ := 20
  atrStopMult : ℚ := 3 / 2
  riskReward : ℚ := 2
  profileRows : ℤ := 24
  valueAreaPercent : ℚ := 70

structure BacktestConfig extends RuleConfig where
  lookback : ℤ := 120
  cooldownBars : ℤ := 5
  maxHorizonBars : ℤ := 200
  recordUnresolved : Bool := false
  regimeGateEnabled : Bool := false
  rsFilterEnabled : Bool := false
  forecastFilterEnabled : Bool := false
  sessionFilterEnabled : Bool := false
  manageTrades : Bool := false

/-- What a run calls, and the resolved parameters of the default plan. -/
structure Collaborators where
  signalForBar : (window : List Kwargs) → (createdAt : ℚ) → RuleConfig → Option Signal
  classifyRegime : (candles : List Kwargs) → (symbol timeframe : String) → PyVal
  resolveBenchmark : (symbol : String) → String
  classifyRelativeStrength : (symbolWindow : List Kwargs) → (benchmarkWindow : List PyVal) →
    (proposedDirection symbol benchmark timeframe : String) → PyVal
  forecast : (candles : List Kwargs) → (proposedDirection symbol timeframe : String) → PyVal
  classifySession : (ts : PyVal) → (symbol timeframe : String) → PyVal
  tradeManagerConfig : TradeManagerConfig
  casing : Text.Casing
  numSyntax : NumSyntax PyNum
  rounded : ℚ → ℚ

/-- An element of `results`. -/
structure Record where
  decision : Signal
  status : ScoreStatus
  outcomePrice : Option ℚ
  outcomeAt : Option ℚ
  rMultiple : Option ℚ

/-! ### Python's lists -/

/-- `xs[i]`: a negative index counts from the end; `none` is an `IndexError`. -/
def itemAt {α : Type} (xs : List α) (i : ℤ) : Option α :=
  if 0 ≤ i then xs[i.toNat]?
  else if -i ≤ xs.length then xs[xs.length - (-i).toNat]? else none

/-- `xs[i:]`. -/
def sliceFrom {α : Type} (i : ℤ) (xs : List α) : List α :=
  if 0 ≤ i then xs.drop i.toNat else xs.drop (xs.length - (-i).toNat)

/-- `xs[i:j]`. -/
def slice {α : Type} (i j : ℤ) (xs : List α) : List α :=
  if 0 ≤ i then (sliceTo j xs).drop i.toNat
  else (sliceTo j xs).drop (xs.length - (-i).toNat)

/-- `_candles_at_or_before`: a missing series, a cutoff that is no number and rows that are no
candles give nothing. -/
def candlesAtOrBefore (series : Option (List PyVal)) (cutoffTs : PyVal) : List PyVal :=
  match series, finiteNum cutoffTs with
  | some rows, some cutoff =>
      rows.filter fun c => (timestampMs c).any fun ts => decide (ts ≤ cutoff)
  | _, _ => []

section
variable (T : Collaborators) (candles : List Kwargs) (symbol timeframe : String)
  (cfg : BacktestConfig) (benchmarkCandles : Option (List PyVal)) (benchmark : String)

/-! ### One bar -/

/-- The labels of a decision at bar `i` whose timestamp is `ts`. -/
def labelled (i : ℤ) (ts : PyVal) (decision : Signal) : Signal :=
  let symbolWindow := sliceTo (i + 1) candles
  let decision := decision.label "regime"
    (regimeDefensibilityEntry (T.classifyRegime symbolWindow symbol timeframe))
  let benchmarkWindow := candlesAtOrBefore benchmarkCandles ts
  let decision := decision.label "relative_strength"
    (relativeStrengthDefensibilityEntry (T.classifyRelativeStrength symbolWindow benchmarkWindow
      decision.action symbol benchmark timeframe))
  let decision := decision.label "forecast"
    (forecastDefensibilityEntry (T.forecast symbolWindow decision.action symbol timeframe))
  decision.label "session"
    (sessionDefensibilityEntry (T.classifySession ts symbol timeframe))

/-- The labelled decision at bar `i`, when the rules give one. -/
def signalAt (i : ℤ) : Option (Option Signal) := do
  let window := slice (i - cfg.lookback + 1) (i + 1) candles
  let candle ← itemAt candles i
  let ts := candle.get "timestamp_ms"
  let createdAt := ((finiteNum ts).map fun t => t / 1000).getD 0
  return (T.signalForBar window createdAt cfg.toRuleConfig).map
    (labelled T candles symbol timeframe benchmarkCandles benchmark i ts)

/-- The plan, the simulation and the score of a decision. -/
def scoreDecision (decision : Signal) (future : List Kwargs) :
    ManagementPlan × Option SimulationResult × Option Outcome :=
  if cfg.manageTrades then
    let plan := defaultManagementPlan T.casing decision.action decision.entry decision.stopLoss
      decision.atr14 T.tradeManagerConfig
    let (scored, simResult) := scoreSignalManaged T.rounded T.casing plan future cfg.maxHorizonBars
    (plan, simResult, scored)
  else
    let plan := singleTargetPlan decision.entry decision.stopLoss decision.takeProfit
    (plan, none, scoreSignal T.rounded decision.toDecision future cfg.maxHorizonBars)

/-- The decision as it is recorded. -/
def withManagement (decision : Signal) (plan : ManagementPlan)
    (simResult : Option SimulationResult) : Signal :=
  let decision := decision.label "management" (managementDefensibilityEntry plan simResult)
  { decision with rest := decision.rest.set "management_plan" (.str (planToJson T.numSyntax plan)) }

/-- The record of a decision, when it can be scored. -/
def scoredRecord (future : List Kwargs) (decision : Signal) : Option Record :=
  match scoreDecision T cfg decision future with
  | (_, _, none) => none
  | (plan, simResult, some (status, outPrice, outAt, rMult)) =>
      some ⟨withManagement T decision plan simResult, status, outPrice, outAt, rMult⟩

/-! ### The loop -/

/-- One of the enabled filters drops the decision. -/
def BacktestConfig.drops (decision : Signal) : Bool :=
  (cfg.regimeGateEnabled && signalIsUnfavorable decision) ||
  (cfg.rsFilterEnabled && signalIsMisaligned decision) ||
  (cfg.forecastFilterEnabled && signalIsForecastMisaligned decision) ||
  (cfg.sessionFilterEnabled && signalIsSessionUnfavorable decision)

/-- A record is passed over when it is dropped, or is expired and expired ones are not kept. -/
def BacktestConfig.passesOver (r : Record) : Bool :=
  cfg.drops r.decision || (decide (r.status = .expired) && !cfg.recordUnresolved)

/-- The state of the loop; a record stands beside its bar. -/
structure LoopState where
  cooldownUntil : ℤ
  results : List (ℤ × Record)

/-- One turn of the loop.  `none`: it raises. -/
def turn (s : LoopState) (i : ℤ) : Option LoopState :=
  if i < s.cooldownUntil then some s
  else do
    match ← signalAt T candles symbol timeframe cfg benchmarkCandles benchmark i with
    | none => return s
    | some decision =>
        match scoredRecord T cfg (sliceFrom (i + 1) candles) decision with
        | none => return s
        | some r =>
            if cfg.passesOver r then return { s with cooldownUntil := i + cfg.cooldownBars }
            else return ⟨i + cfg.cooldownBars, s.results ++ [(i, r)]⟩

end

section
variable (T : Collaborators) (candles : List Kwargs) (symbol timeframe : String)
  (cfg : BacktestConfig) (benchmarkCandles : Option (List PyVal)) (benchmark : Option String)

/-- The records of a run, each with its bar. -/
def run : Option (List (ℤ × Record)) :=
  let n : ℤ := candles.length
  if n < cfg.lookback + 2 then some []
  else
    let benchmark := benchmark.getD (T.resolveBenchmark symbol)
    ((Int.range (cfg.lookback - 1) (n - 1)).foldlM
      (turn T candles symbol timeframe cfg benchmarkCandles benchmark) ⟨-1, []⟩).map
      LoopState.results

/-- `generate_and_score`. -/
def generateAndScore : Option (List Record) :=
  (run T candles symbol timeframe cfg benchmarkCandles benchmark).map (List.map Prod.snd)

end

/-! ### The loop as a walk -/

section
variable {T : Collaborators} {candles : List Kwargs} {symbol timeframe : String}
  {cfg : BacktestConfig} {benchmarkCandles : Option (List PyVal)} {i : ℤ}

/-- The scored signal at bar `i`. -/
def recordAt (T : Collaborators) (candles : List Kwargs) (symbol timeframe : String)
    (cfg : BacktestConfig) (benchmarkCandles : Option (List PyVal)) (benchmark : String) (i : ℤ) :
    Option Record :=
  ((signalAt T candles symbol timeframe cfg benchmarkCandles benchmark i).getD none).bind
    (scoredRecord T cfg (sliceFrom (i + 1) candles))

theorem isSome_itemAt {α : Type} {xs : List α} (hlow : -1 ≤ i) (hhigh : i < (xs.length : ℤ) - 1) :
    (itemAt xs i).isSome = true := by
  unfold itemAt
  split
  · rw [List.getElem?_eq_getElem (by omega), Option.isSome_some]
  · rw [if_pos (by omega), List.getElem?_eq_getElem (by omega), Option.isSome_some]

theorem signalAt_eq {candle : Kwargs} {benchmark : String} (h : itemAt candles i = some candle) :
    signalAt T candles symbol timeframe cfg benchmarkCandles benchmark i =
      some ((T.signalForBar (slice (i - cfg.lookback + 1) (i + 1) candles)
        (((finiteNum (candle.get "timestamp_ms")).map fun t => t / 1000).getD 0)
        cfg.toRuleConfig).map (labelled T candles symbol timeframe benchmarkCandles benchmark i
          (candle.get "timestamp_ms"))) := by
  rw [signalAt, h]
  rfl

theorem turn_eq {benchmark : String} (h : (itemAt candles i).isSome = true) {s : LoopState}
    (hi : ¬ i < s.cooldownUntil) :
    turn T candles symbol timeframe cfg benchmarkCandles benchmark s i =
      some (match recordAt T candles symbol timeframe cfg benchmarkCandles benchmark i with
        | none => s
        | some r => ⟨i + cfg.cooldownBars,
            s.results ++ if cfg.passesOver r then [] else [(i, r)]⟩) := by
  obtain ⟨candle, hcandle⟩ := Option.isSome_iff_exists.mp h
  rw [turn, if_neg hi, recordAt, signalAt_eq hcandle, Option.bind_eq_bind, Option.bind_some,
    Option.getD_some]
  generalize Option.map _ _ = decision
  cases decision with
  | none => rfl
  | some decision =>
      rw [Option.bind_some]
      dsimp only
      cases scoredRecord T cfg (sliceFrom (i + 1) candles) decision with
      | none => rfl
      | some r =>
          dsimp only
          by_cases hpass : cfg.passesOver r = true
          · rw [if_pos hpass, if_pos hpass, List.append_nil]
            rfl
          · rw [if_neg hpass, if_neg hpass]
            rfl

open Cooldown

/-- The loop over bars that are there, or that it never looks at. -/
theorem foldlM_turn {benchmark : String} {is : List ℤ} (hsorted : is.Pairwise (· < ·))
    (hitem : ∀ i ∈ is, -1 ≤ i → (itemAt candles i).isSome = true) {s : LoopState}
    (hclosed : ∀ i ∈ is, ¬ i < s.cooldownUntil → -1 ≤ i) :
    (is.foldlM (turn T candles symbol timeframe cfg benchmarkCandles benchmark) s).map
        LoopState.results =
      some (s.results ++ (walk (recordAt T candles symbol timeframe cfg benchmarkCandles benchmark)
        cfg.cooldownBars s.cooldownUntil is).filter fun p => !cfg.passesOver p.2) := by
  induction is generalizing s with
  | nil => simp [walk]
  | cons i is ih =>
      obtain ⟨hfirst, hrest⟩ := List.pairwise_cons.mp hsorted
      obtain ⟨hitemi, hitem⟩ := List.forall_mem_cons.mp hitem
      obtain ⟨hclosedi, hclosed⟩ := List.forall_mem_cons.mp hclosed
      rw [List.foldlM_cons]
      by_cases hi : i < s.cooldownUntil
      · rw [turn, if_pos hi, Option.bind_eq_bind, Option.bind_some, ih hrest hitem hclosed,
          walk_cons_of_lt hi]
      have hlow := hclosedi hi
      rw [turn_eq (hitemi hlow) hi, Option.bind_eq_bind, Option.bind_some]
      cases hr : recordAt T candles symbol timeframe cfg benchmarkCandles benchmark i with
      | none => rw [walk_cons_of_none hr, ih hrest hitem hclosed]
      | some r =>
          -- From a first bar at or after `-1` on, the bars only increase.
          have hlater : ∀ j ∈ is, ¬ j < i + cfg.cooldownBars → -1 ≤ j := by
            intro j hj _
            have := hfirst j hj
            omega
          rw [ih hrest hitem hlater, walk_cons_of_some hi hr]
          dsimp only
          by_cases hpass : cfg.passesOver r = true
          · rw [if_pos hpass, List.append_nil, List.filter_cons_of_neg (by simpa using hpass)]
          · rw [if_neg hpass, List.filter_cons_of_pos (by simpa using hpass), List.append_assoc,
              List.singleton_append]

/-- The scored signals of a run, with their bars: each closes the bars of its cooldown. -/
def signals (T : Collaborators) (candles : List Kwargs) (symbol timeframe : String)
    (cfg : BacktestConfig) (benchmarkCandles : Option (List PyVal)) (benchmark : Option String) :
    List (ℤ × Record) :=
  if (candles.length : ℤ) < cfg.lookback + 2 then []
  else walk (recordAt T candles symbol timeframe cfg benchmarkCandles
      (benchmark.getD (T.resolveBenchmark symbol)))
    cfg.cooldownBars (-1) (Int.range (cfg.lookback - 1) (candles.length - 1))

/-- **A run never raises**, and records the signals that it does not pass over. -/
theorem run_eq {benchmark : Option String} :
    run T candles symbol timeframe cfg benchmarkCandles benchmark =
      some ((signals T candles symbol timeframe cfg benchmarkCandles benchmark).filter
        fun p => !cfg.passesOver p.2) := by
  unfold run signals
  dsimp only
  split
  · rfl
  · refine (foldlM_turn (pairwise_range _ _) (fun i hi hlow => ?_) (fun i _ hi => ?_)).trans ?_
    · exact isSome_itemAt hlow (Int.mem_range_iff.mp hi).2
    · exact not_lt.mp hi
    · rw [List.nil_append]

end

end AiTrader.Backtest
