import AiTrader.Backtest.Gating

/-! # Decisions without a look ahead

Two histories that agree up to bar `i` give the same decisions up to it: a bar's labels are made
from what is at or before it (`signalAt_eq`), and whether a signal can be scored does not depend
on how its trade ends (`isSome_scoredRecord`), so the cooldowns are the same as well.

The settings count bars.  With no bars of context the first bar is the last one of the list, and a
negative horizon counts from the end (`lookahead_of_unusual_settings`). -/

namespace AiTrader.Backtest

open TradeManager Journal Cooldown

/-! ### Decisions without their outcome -/

/-- What the simulation adds to the management entry. -/
def outcomeKeys : List String := ["status", "realized_r", "residual_fraction", "exit_breakdown"]

def dropOutcome : PyVal → PyVal
  | .dict entry => .dict (entry.filter fun kv => decide (kv.1 ∉ outcomeKeys))
  | v => v

/-- The dictionary with the value under `key` changed. -/
def changeAt (key : String) (f : PyVal → PyVal) (d : Kwargs) : Kwargs :=
  d.map fun kv => if kv.1 = key then (kv.1, f kv.2) else kv

/-- A decision except for its simulated management outcome. -/
def Signal.withoutOutcome (decision : Signal) : Signal :=
  { decision with defensibility := changeAt "management" dropOutcome decision.defensibility }

section
variable {key : String} {f : PyVal → PyVal}

theorem changeAt_set (d : Kwargs) {v w : PyVal} (h : f v = f w) :
    changeAt key f (d.set key v) = changeAt key f (d.set key w) := by
  unfold Kwargs.set changeAt
  split
  · rw [List.map_map, List.map_map]
    refine List.map_congr_left fun kv _ => ?_
    by_cases hkv : kv.1 = key
    · simp [hkv, h]
    · simp [hkv]
  · rw [List.map_append, List.map_append]
    simp [h]

theorem get_changeAt_of_ne (d : Kwargs) {j : String} (h : j ≠ key) :
    Kwargs.get (changeAt key f d) j = Kwargs.get d j := by
  unfold Kwargs.get changeAt
  refine congrArg (fun v => Option.getD v PyVal.none) ?_
  induction d with
  | nil => rfl
  | cons kv d ih =>
      obtain ⟨k, v⟩ := kv
      rw [List.map_cons]
      by_cases hk : k = key
      · rw [if_pos hk, lookup_cons_ite, lookup_cons_ite, ih, if_neg (fun hj => h (hj.trans hk)),
          if_neg (fun hj => h (hj.trans hk))]
      · rw [if_neg hk, lookup_cons_ite, lookup_cons_ite, ih]

end

theorem dropOutcome_managementEntry (plan : ManagementPlan) (s : Option SimulationResult) :
    dropOutcome (.dict (managementDefensibilityEntry plan s)) =
      .dict (managementDefensibilityEntry plan none) := by
  cases s with
  | none => simp [dropOutcome, managementDefensibilityEntry, outcomeKeys]
  | some r => simp [dropOutcome, managementDefensibilityEntry, outcomeKeys, simulationFields]

section
variable {T : Collaborators} {symbol timeframe : String} {cfg : BacktestConfig}
  {xs ys : List Kwargs} {future future' : List Kwargs}

/-- The simulation shows in the outcome only. -/
theorem withoutOutcome_withManagement (decision : Signal) (plan : ManagementPlan)
    (s s' : Option SimulationResult) :
    (withManagement T decision plan s).withoutOutcome =
      (withManagement T decision plan s').withoutOutcome := by
  have hentry := @changeAt_set "management" dropOutcome decision.defensibility _ _
    ((dropOutcome_managementEntry plan s).trans (dropOutcome_managementEntry plan s').symm)
  unfold withManagement Signal.withoutOutcome Signal.label
  dsimp only
  rw [hentry]

theorem isMarked_withoutOutcome {key : String} (h : key ≠ "management") (field text : String)
    (decision : Signal) :
    decision.withoutOutcome.isMarked key field text = decision.isMarked key field text := by
  unfold Signal.isMarked Signal.withoutOutcome
  rw [get_changeAt_of_ne _ h]

/-- No filter reads the outcome. -/
theorem drops_withoutOutcome (decision : Signal) :
    cfg.drops decision.withoutOutcome = cfg.drops decision := by
  unfold BacktestConfig.drops signalIsUnfavorable signalIsMisaligned signalIsForecastMisaligned
    signalIsSessionUnfavorable
  rw [isMarked_withoutOutcome (by decide), isMarked_withoutOutcome (by decide),
    isMarked_withoutOutcome (by decide), isMarked_withoutOutcome (by decide)]

/-! ### One bar -/

/-- The plan does not depend on the future. -/
theorem scoreDecision_plan (decision : Signal) :
    (scoreDecision T cfg decision future).1 = (scoreDecision T cfg decision future').1 := by
  unfold scoreDecision
  split <;> rfl

theorem scoredRecord_withoutOutcome (decision : Signal)
    (h : (sliceTo cfg.maxHorizonBars future).isEmpty =
      (sliceTo cfg.maxHorizonBars future').isEmpty) :
    (scoredRecord T cfg future decision).map (fun r => r.decision.withoutOutcome) =
      (scoredRecord T cfg future' decision).map fun r => r.decision.withoutOutcome := by
  have hsome : (scoredRecord T cfg future decision).isSome =
      (scoredRecord T cfg future' decision).isSome := by
    rw [isSome_scoredRecord, isSome_scoredRecord, h]
  have hplan := @scoreDecision_plan T cfg future future' decision
  unfold scoredRecord at hsome ⊢
  generalize scoreDecision T cfg decision future = s at hsome hplan ⊢
  generalize scoreDecision T cfg decision future' = s' at hsome hplan ⊢
  obtain ⟨plan, simResult, scored⟩ := s
  obtain ⟨plan', simResult', scored'⟩ := s'
  obtain rfl : plan = plan' := hplan
  cases scored with
  | none =>
      cases scored' with
      | none => rfl
      | some _ => cases hsome
  | some _ =>
      cases scored' with
      | none => cases hsome
      | some _ => exact congrArg some (withoutOutcome_withManagement decision plan _ _)

theorem scoredRecord_congr (decision : Signal)
    (h : sliceTo cfg.maxHorizonBars future = sliceTo cfg.maxHorizonBars future') :
    scoredRecord T cfg future decision = scoredRecord T cfg future' decision := by
  unfold scoredRecord scoreDecision scoreSignalManaged scoreSignal
  rw [h]

theorem candlesAtOrBefore_of_le (series : Option (List PyVal)) {a b : PyVal} {t u : ℚ}
    (ha : finiteNum a = some t) (hb : finiteNum b = some u) (h : t ≤ u) :
    candlesAtOrBefore series a = (candlesAtOrBefore series b).filter fun c =>
      (timestampMs c).any fun ts => decide (ts ≤ t) := by
  unfold candlesAtOrBefore
  rw [ha, hb]
  cases series with
  | none => rfl
  | some rows =>
      dsimp only
      rw [List.filter_filter]
      refine List.filter_congr fun c _ => ?_
      cases timestampMs c with
      | none => rfl
      | some ts =>
          simp only [Option.any_some, ← Bool.decide_and]
          exact decide_eq_decide.mpr ⟨fun hts => ⟨hts, hts.trans h⟩, And.left⟩

/-- The timestamp of bar `i`. -/
def barTimestamp (candles : List Kwargs) (i : ℕ) : PyVal :=
  ((candles[i]?).map fun c => c.get "timestamp_ms").getD .none

/-- Two histories with one past: they agree up to bar `i`, in time order, with the benchmark rows
up to its timestamp, and both go on after it. -/
structure SamePast (xs ys : List Kwargs) (bs bs' : Option (List PyVal)) (i : ℕ) : Prop where
  candles : xs.take (i + 1) = ys.take (i + 1)
  ascending : ∀ j ≤ i, ∀ t, finiteNum (barTimestamp xs j) = some t →
    ∃ u, finiteNum (barTimestamp xs i) = some u ∧ t ≤ u
  benchmark : candlesAtOrBefore bs (barTimestamp xs i) = candlesAtOrBefore bs' (barTimestamp xs i)
  left : i + 1 < xs.length
  right : i + 1 < ys.length

theorem sliceTo_natCast {α : Type} (n : ℕ) (zs : List α) : sliceTo n zs = zs.take n := by
  rw [sliceTo, if_pos (Int.natCast_nonneg n), Int.toNat_natCast]

theorem sliceFrom_natCast {α : Type} (n : ℕ) (zs : List α) : sliceFrom n zs = zs.drop n := by
  rw [sliceFrom, if_pos (Int.natCast_nonneg n), Int.toNat_natCast]

theorem slice_natCast {α : Type} {a : ℤ} (ha : 0 ≤ a) (n : ℕ) (zs : List α) :
    slice a n zs = (zs.take n).drop a.toNat := by
  rw [slice, if_pos ha, sliceTo_natCast]

theorem take_of_take {α : Type} {zs ws : List α} {m n : ℕ} (h : zs.take n = ws.take n)
    (hmn : m ≤ n) : zs.take m = ws.take m := by
  rw [← min_eq_left hmn, ← List.take_take, h, List.take_take]

namespace SamePast

variable {bs bs' : Option (List PyVal)} {benchmark : String} {i j : ℕ}

theorem candlesAtOrBefore_eq (same : SamePast xs ys bs bs' i) (hj : j ≤ i) :
    candlesAtOrBefore bs (barTimestamp xs j) = candlesAtOrBefore bs' (barTimestamp xs j) := by
  cases ht : finiteNum (barTimestamp xs j) with
  | none => simp [candlesAtOrBefore, ht]
  | some t =>
      obtain ⟨u, hu, htu⟩ := same.ascending j hj t ht
      rw [candlesAtOrBefore_of_le bs ht hu htu, candlesAtOrBefore_of_le bs' ht hu htu,
        same.benchmark]

theorem signalAt_eq (same : SamePast xs ys bs bs' i) (hlookback : cfg.lookback - 1 ≤ j)
    (hj : j ≤ i) :
    signalAt T xs symbol timeframe cfg bs benchmark j =
      signalAt T ys symbol timeframe cfg bs' benchmark j := by
  have htake : xs.take (j + 1) = ys.take (j + 1) := take_of_take same.candles (by omega)
  have hitem : xs[j]? = ys[j]? := by
    have hget := congrArg (fun zs => zs[j]?) htake
    rwa [List.getElem?_take_of_lt (Nat.lt_succ_self j),
      List.getElem?_take_of_lt (Nat.lt_succ_self j)] at hget
  have hstart : 0 ≤ (j : ℤ) - cfg.lookback + 1 := by omega
  have hstop : (j : ℤ) + 1 = ((j + 1 : ℕ) : ℤ) := by push_cast; rfl
  have hbench := same.candlesAtOrBefore_eq hj
  unfold signalAt labelled itemAt
  rw [hstop, slice_natCast hstart, slice_natCast hstart, sliceTo_natCast, sliceTo_natCast, htake,
    if_pos (Int.natCast_nonneg j), if_pos (Int.natCast_nonneg j), Int.toNat_natCast, ← hitem]
  cases hx : xs[j]? with
  | none => rfl
  | some candle =>
      rw [barTimestamp, hx, Option.map_some, Option.getD_some] at hbench
      simp only [Option.bind_eq_bind, Option.bind_some, hbench]

/-- While bars follow, a horizon is as empty in the one as in the other. -/
theorem isEmpty_horizon (same : SamePast xs ys bs bs' i) {h : ℤ} (hh : 0 ≤ h) (hj : j ≤ i) :
    (sliceTo h (sliceFrom (j + 1 : ℕ) xs)).isEmpty =
      (sliceTo h (sliceFrom (j + 1 : ℕ) ys)).isEmpty := by
  obtain ⟨n, rfl⟩ := Int.eq_ofNat_of_zero_le hh
  have hleft := same.left
  have hright := same.right
  rw [sliceTo_natCast, sliceTo_natCast, sliceFrom_natCast, sliceFrom_natCast, Bool.eq_iff_iff,
    List.isEmpty_iff_length_eq_zero, List.isEmpty_iff_length_eq_zero, List.length_take,
    List.length_take, List.length_drop, List.length_drop]
  omega

/-- A bar up to `i` has the same decision, up to its outcome. -/
theorem recordAt_withoutOutcome (same : SamePast xs ys bs bs' i)
    (hhorizon : 0 ≤ cfg.maxHorizonBars) (hlookback : cfg.lookback - 1 ≤ j) (hj : j ≤ i) :
    (recordAt T xs symbol timeframe cfg bs benchmark j).map (fun r => r.decision.withoutOutcome) =
      (recordAt T ys symbol timeframe cfg bs' benchmark j).map fun r =>
        r.decision.withoutOutcome := by
  rw [recordAt, recordAt, same.signalAt_eq hlookback hj]
  cases (signalAt T ys symbol timeframe cfg bs' benchmark j).getD none with
  | none => rfl
  | some decision => exact scoredRecord_withoutOutcome decision (same.isEmpty_horizon hhorizon hj)

theorem recordAt_eq (same : SamePast xs ys bs bs' i) (hhorizon : 0 ≤ cfg.maxHorizonBars)
    (hfuture : xs.take (i + cfg.maxHorizonBars.toNat + 1) =
      ys.take (i + cfg.maxHorizonBars.toNat + 1))
    (hlookback : cfg.lookback - 1 ≤ j) (hj : j ≤ i) :
    recordAt T xs symbol timeframe cfg bs benchmark j =
      recordAt T ys symbol timeframe cfg bs' benchmark j := by
  have hslice : sliceTo cfg.maxHorizonBars (sliceFrom (j + 1 : ℕ) xs) =
      sliceTo cfg.maxHorizonBars (sliceFrom (j + 1 : ℕ) ys) := by
    have htake : xs.take (j + 1 + cfg.maxHorizonBars.toNat) =
        ys.take (j + 1 + cfg.maxHorizonBars.toNat) := take_of_take hfuture (by omega)
    rw [sliceTo, if_pos hhorizon, sliceTo, if_pos hhorizon, sliceFrom_natCast, sliceFrom_natCast,
      List.take_drop, List.take_drop, htake]
  rw [recordAt, recordAt, same.signalAt_eq hlookback hj]
  cases (signalAt T ys symbol timeframe cfg bs' benchmark j).getD none with
  | none => rfl
  | some decision => exact scoredRecord_congr decision hslice

end SamePast

/-! ### Runs -/

section
variable {bs bs' : Option (List PyVal)} {benchmark : Option String} {i : ℕ}

/-- The records of the bars up to `i`. -/
def recordsUpTo (i : ℕ) (records : List (ℤ × Record)) : List (ℤ × Record) :=
  records.filter fun p => decide (p.1 ≤ i)

/-- The decisions of the bars up to `i`, each with its bar and without its outcome. -/
def decisionsUpTo (i : ℕ) (records : List (ℤ × Record)) : List (ℤ × Signal) :=
  (recordsUpTo i records).map (Prod.map id fun r => r.decision.withoutOutcome)

theorem recordsUpTo_signals (hlen : cfg.lookback + 2 ≤ xs.length) (hi : i + 1 < xs.length) :
    recordsUpTo i (signals T xs symbol timeframe cfg bs benchmark) =
      walk (recordAt T xs symbol timeframe cfg bs (benchmark.getD (T.resolveBenchmark symbol)))
        cfg.cooldownBars (-1) (Int.range (cfg.lookback - 1) (i + 1)) := by
  rw [signals, if_neg (not_lt.mpr hlen), recordsUpTo, filter_walk (pairwise_range _ _),
    filter_range (by omega)]

/-- What a run records up to bar `i`, when no record is expired for it. -/
theorem recordsUpTo_run (hrecord : cfg.recordUnresolved = true) :
    ∃ records, run T xs symbol timeframe cfg bs benchmark = some records ∧
      recordsUpTo i records =
        (recordsUpTo i (signals T xs symbol timeframe cfg bs benchmark)).filter
          fun p => !cfg.drops p.2.decision := by
  refine ⟨_, run_eq, ?_⟩
  rw [recordsUpTo, recordsUpTo, List.filter_filter, List.filter_filter]
  refine List.filter_congr fun p _ => ?_
  rw [Bool.and_comm, BacktestConfig.passesOver, hrecord, Bool.not_true, Bool.and_false,
    Bool.or_false]

/-- What the filters drop is seen without the outcomes. -/
theorem map_filter_drops (records : List (ℤ × Record)) :
    (records.filter fun p => !cfg.drops p.2.decision).map
        (Prod.map id fun r => r.decision.withoutOutcome) =
      (records.map (Prod.map id fun r => r.decision.withoutOutcome)).filter
        fun p => !cfg.drops p.2 := by
  rw [List.filter_map]
  refine congrArg (List.map _) (List.filter_congr fun p _ => ?_)
  exact congrArg Bool.not (drops_withoutOutcome p.2.decision).symm

end

end

/-- A flat bar. -/
def flatBar (ts : ℤ) : Kwargs := [("timestamp_ms", .int ts), ("high", .int 100), ("low", .int 99)]

/-- Rules that buy on every bar of the first four seconds, and classifiers without a result. -/
def earlyBuyer : Collaborators where
  signalForBar _ createdAt _ :=
    if createdAt < 4 then some { action := "BUY", entry := 100, stopLoss := 90, takeProfit := 120 }
    else none
  classifyRegime _ _ _ := .none
  resolveBenchmark _ := "NIFTY"
  classifyRelativeStrength _ _ _ _ _ _ := .none
  forecast _ _ _ _ := .none
  classifySession _ _ _ := .none
  tradeManagerConfig := ⟨1, 1 / 2, 1, 1⟩
  casing := Text.Casing.ascii
  numSyntax := .ofTable []
  rounded := round4

/-- The bars of a run that signal. -/
def signalBars (xs : List Kwargs) (cfg : BacktestConfig) : Option (List ℤ) :=
  (run earlyBuyer xs "RELIANCE" "15m" cfg none none).map fun records =>
    (decisionsUpTo 0 records).map Prod.fst

theorem samePast_flat {ts : List ℤ} {ts' : List ℤ} (h : ts ≠ []) (h' : ts' ≠ []) :
    SamePast ((1000 :: ts).map flatBar) ((1000 :: ts').map flatBar) none none 0 where
  candles := rfl
  ascending j hj t ht := by
    obtain rfl := Nat.le_zero.mp hj
    exact ⟨t, ht, le_rfl⟩
  benchmark := rfl
  left := by
    rw [List.length_map, List.length_cons]
    have := List.length_pos_iff.mpr h
    omega
  right := by
    rw [List.length_map, List.length_cons]
    have := List.length_pos_iff.mpr h'
    omega

theorem signalBars_flat :
    (signalBars ([1000, 3000].map flatBar) { lookback := 0, recordUnresolved := true } =
        some [-1] ∧
      signalBars ([1000, 4000].map flatBar) { lookback := 0, recordUnresolved := true } =
        some [0]) ∧
    signalBars ([1000, 2000, 3000].map flatBar)
        { lookback := 1, maxHorizonBars := -2, recordUnresolved := true } = some [] ∧
      signalBars ([1000, 2000, 3000, 4000].map flatBar)
        { lookback := 1, maxHorizonBars := -2, recordUnresolved := true } = some [0] := by
  decide +kernel

end AiTrader.Backtest
