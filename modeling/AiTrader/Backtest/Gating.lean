import AiTrader.Backtest.Generate

/-! # Gated runs

The comparison reports run the backtest with and without a filter, or with and without management,
and take the two to walk one history.  They do: whether a signal can be scored depends neither on
the filters nor on how it is scored (`isSome_scoredRecord`), and every scored signal closes the
same bars. -/

namespace AiTrader.Backtest

open TradeManager Journal Cooldown

section
variable {T : Collaborators} {candles : List Kwargs} {symbol timeframe : String}
  {cfg : BacktestConfig} {benchmarkCandles : Option (List PyVal)} {benchmark : Option String}
  {decision : Signal} {future : List Kwargs}

/-! ### What can be scored -/

theorem isSome_scoreSignal (rounded : ℚ → ℚ) (decision : Decision) (h : ℤ) :
    (scoreSignal rounded decision future h).isSome =
      (decide (decision.entry ≠ decision.stopLoss) && !(sliceTo h future).isEmpty) := by
  unfold scoreSignal
  dsimp only
  by_cases hrisk : decision.entry = decision.stopLoss
  · rw [if_pos (abs_nonpos_iff.mpr (sub_eq_zero.mpr hrisk)), hrisk]
    simp
  · rw [if_neg fun hle => hrisk (sub_eq_zero.mp (abs_nonpos_iff.mp hle)), decide_eq_true hrisk]
    cases (sliceTo h future).isEmpty <;> rfl

theorem isSome_managedOutcome (rounded : ℚ → ℚ) (result : SimulationResult)
    (horizon : List Kwargs) :
    (managedOutcome rounded result horizon).isSome = decide (result.status ≠ .invalid) := by
  unfold managedOutcome
  cases result.status <;> rfl

theorem isSome_scoreSignalManaged (rounded : ℚ → ℚ) (C : Text.Casing) {plan : ManagementPlan}
    {entry stop : ℚ} (hentry : plan.entry = .float (.fin entry))
    (hstop : plan.initialStop = .float (.fin stop)) (h : ℤ) :
    (scoreSignalManaged rounded C plan future h).1.isSome =
      (decide (entry ≠ stop) && !(sliceTo h future).isEmpty) := by
  unfold scoreSignalManaged
  dsimp only
  cases hempty : (sliceTo h future).isEmpty with
  | true => rw [if_pos rfl, Bool.not_true, Bool.and_false, Option.isSome_none]
  | false =>
      rw [if_neg Bool.false_ne_true, Bool.not_false, Bool.and_true, isSome_managedOutcome,
        ← isSome_levelsOf C hentry hstop, Bool.eq_iff_iff, decide_eq_true_iff, Ne,
        simulatePlan_invalid_iff C plan _ (by rw [hentry]; rfl) (by rw [hstop]; rfl),
        Bool.not_eq_false]

/-- Both ways of scoring score the same signals. -/
theorem isSome_scoredRecord :
    (scoredRecord T cfg future decision).isSome =
      (decide (decision.entry ≠ decision.stopLoss) &&
        !(sliceTo cfg.maxHorizonBars future).isEmpty) := by
  have hscored : (scoredRecord T cfg future decision).isSome =
      (scoreDecision T cfg decision future).2.2.isSome := by
    rw [scoredRecord]
    obtain ⟨plan, simResult, scored⟩ := scoreDecision T cfg decision future
    cases scored <;> rfl
  rw [hscored, scoreDecision]
  split
  · exact isSome_scoreSignalManaged T.rounded T.casing rfl rfl cfg.maxHorizonBars
  · exact isSome_scoreSignal T.rounded decision.toDecision cfg.maxHorizonBars

/-! ### Filters -/

/-- The run without filters. -/
def BacktestConfig.ungated (cfg : BacktestConfig) : BacktestConfig :=
  { cfg with
    regimeGateEnabled := false
    rsFilterEnabled := false
    forecastFilterEnabled := false
    sessionFilterEnabled := false }

theorem passesOver_eq (r : Record) :
    cfg.passesOver r = (cfg.drops r.decision || cfg.ungated.passesOver r) := rfl

/-- The filters have no part in what is signalled and scored. -/
theorem signals_ungated :
    signals T candles symbol timeframe cfg.ungated benchmarkCandles benchmark =
      signals T candles symbol timeframe cfg benchmarkCandles benchmark := rfl

/-- The run that keeps every scored signal, managed or not. -/
def BacktestConfig.keepingAll (cfg : BacktestConfig) (managed : Bool) : BacktestConfig :=
  { cfg.ungated with
    recordUnresolved := true
    manageTrades := managed }

theorem passesOver_keepingAll (managed : Bool) (r : Record) :
    (cfg.keepingAll managed).passesOver r = false := by
  rw [passesOver_eq]
  exact Bool.and_false _

theorem run_keepingAll (managed : Bool) :
    run T candles symbol timeframe (cfg.keepingAll managed) benchmarkCandles benchmark =
      some (signals T candles symbol timeframe (cfg.keepingAll managed) benchmarkCandles
        benchmark) := by
  rw [run_eq, List.filter_eq_self.mpr]
  intro p _
  rw [passesOver_keepingAll, Bool.not_false]

theorem map_fst_signals_keepingAll :
    (signals T candles symbol timeframe (cfg.keepingAll true) benchmarkCandles benchmark).map
        Prod.fst =
      (signals T candles symbol timeframe (cfg.keepingAll false) benchmarkCandles benchmark).map
        Prod.fst := by
  unfold signals
  show List.map Prod.fst (if (candles.length : ℤ) < cfg.lookback + 2 then _ else _) =
    List.map Prod.fst (if (candles.length : ℤ) < cfg.lookback + 2 then _ else _)
  split
  · rfl
  · refine map_fst_walk_congr fun i _ => ?_
    rw [recordAt, recordAt]
    show (Option.bind ((signalAt T candles symbol timeframe cfg benchmarkCandles _ i).getD none)
        _).isSome =
      (Option.bind ((signalAt T candles symbol timeframe cfg benchmarkCandles _ i).getD none)
        _).isSome
    cases (signalAt T candles symbol timeframe cfg benchmarkCandles _ i).getD none with
    | none => rfl
    | some decision =>
        rw [Option.bind_some, Option.bind_some, isSome_scoredRecord, isSome_scoredRecord]
        rfl

end

end AiTrader.Backtest
