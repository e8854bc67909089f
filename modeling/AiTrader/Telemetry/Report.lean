import AiTrader.Library.Grouping
import AiTrader.Telemetry.Store

/-! # Session telemetry: the report

`telemetry.py`, `filter_sessions` to `aggregate`: the records of some sessions are folded into
rates, distributions and breakdowns by symbol, timeframe and mode.

`rnd` is the double nearest to a number; counts and times are far inside the range of doubles.

* `groupReports_eq`: a breakdown is a report for each key in order.
* `aggregate_perm`: the order of the records does not matter. -/

namespace AiTrader.Telemetry

/-- `TelemetryConfig`, without the path of the store. -/
structure TelemetryConfig where
  weakPriorMinSessions : ℤ := 20
  incompleteHorizonSeconds : F64 := .fin 86400

/-- `GROUP_KEYS`. -/
inductive GroupKey
  | symbol | timeframe | mode
  deriving DecidableEq, Repr

/-- `getattr(record, key)`. -/
def GroupKey.of : GroupKey → SessionRecord → Option String
  | symbol, record => record.symbol
  | timeframe, record => record.timeframe
  | mode, record => record.mode

/-- `DIST_*`. -/
structure Distribution where
  mean : Option ℚ
  median : Option ℚ
  max : Option ℚ
  count : ℕ
  deriving DecidableEq, Repr

/-- `OUTCOMES_COUNTS`. -/
structure OutcomeCounts where
  tradeBuy : ℕ
  tradeSell : ℕ
  hold : ℕ
  error : ℕ
  incomplete : ℕ
  deriving DecidableEq, Repr

/-- `OUTCOMES_*`. -/
structure Outcomes where
  conversionRate : Option ℚ
  holdRate : Option ℚ
  errorRate : Option ℚ
  incompleteRate : Option ℚ
  counts : OutcomeCounts
  deriving DecidableEq, Repr

/-- A group of the report. -/
structure GroupReport where
  key : Option String
  sessionCount : ℕ
  weakPrior : Bool
  outcomes : Outcomes
  invalidationRate : Option ℚ
  watchCycles : Distribution
  deriving DecidableEq, Repr

/-- `COST_*`. -/
structure Cost where
  toolCalls : Distribution
  modelTurns : Distribution
  resumeCount : Distribution
  toolCallsByName : List (String × ℕ)
  deriving DecidableEq, Repr

/-- `REPORT_*`. -/
structure Report where
  sessionCount : ℕ
  weakPriorMinSessions : ℤ
  weakPrior : Bool
  filters : Filter
  outcomes : Outcomes
  invalidationRate : Option ℚ
  watchCycles : Distribution
  timeToDecisionS : Distribution
  cost : Cost
  bySymbol : List GroupReport
  byTimeframe : List GroupReport
  byMode : List GroupReport

/-- The groups of a breakdown. -/
def Report.breakdown (report : Report) : GroupKey → List GroupReport
  | .symbol => report.bySymbol
  | .timeframe => report.byTimeframe
  | .mode => report.byMode

/-! ### Selecting and grouping -/

/-- A bound that is no finite number is no bound. -/
def finiteBound : Option F64 → Option ℚ
  | some (.fin q) => some q
  | _ => none

/-- `filter_sessions`. -/
def filterSessions (records : List SessionRecord) (filter : Filter) : List SessionRecord :=
  records.filter fun record =>
    (filter.symbol.all fun wanted => decide (record.symbol = some wanted)) &&
    (filter.timeframe.all fun wanted => decide (record.timeframe = some wanted)) &&
    (filter.mode.all fun wanted => decide (record.mode = some wanted)) &&
    ((finiteBound filter.start).all fun low => decide (low ≤ record.startedAt)) &&
    (finiteBound filter.stop).all fun high => decide (record.startedAt ≤ high)

/-- `group_sessions`. -/
def groupSessions (records : List SessionRecord) (key : GroupKey) :
    List (Option String × List SessionRecord) := Grouping.group key.of records

/-- `lambda k: (k is not None, str(k))`. -/
def groupOrder (k : Option String) : Bool ×ₗ String := toLex (k.isSome, k.getD "None")

/-! ### Figures -/

section
variable (rnd : ℚ → ℚ)

/-- `statistics.fmean`: the sum is rounded once. -/
def fmean (values : List ℚ) : ℚ := rnd (rnd values.sum / values.length)

/-- `statistics.median`. -/
def median (values : List ℚ) : ℚ :=
  let data := values.insertionSort (· ≤ ·)
  let i := data.length / 2
  if data.length % 2 = 1 then data.getD i 0
  else rnd (rnd (data.getD (i - 1) 0 + data.getD i 0) / 2)

/-- `_distribution`. -/
def distribution (values : List ℚ) : Distribution :=
  match values.min?, values.max? with
  | some lo, some hi =>
      let mean := fmean rnd values
      { mean := some (if mean < lo then lo else if hi < mean then hi else mean)
        median := some (median rnd values)
        max := some hi
        count := values.length }
  | _, _ => { mean := none, median := none, max := none, count := 0 }

/-- `_distribution` of counts. -/
def countDistribution (counts : List ℕ) : Distribution :=
  distribution rnd (counts.map fun (n : ℕ) => rnd n)

/-- `_safe_ratio`. -/
def safeRatio (numerator denominator : ℕ) : Option ℚ :=
  if denominator = 0 then none else some (rnd (rnd numerator / rnd denominator))

end

/-! ### Classified sessions -/

/-- `DEFAULT_INCOMPLETE_HORIZON_SECONDS`. -/
def defaultIncompleteHorizonSeconds : ℚ := 24 * 3600

/-- `_horizon_of`. -/
def horizonOf (config : TelemetryConfig) : ℚ :=
  match config.incompleteHorizonSeconds with
  | .fin horizon => horizon
  | _ => defaultIncompleteHorizonSeconds

section
variable (rnd : ℚ → ℚ) (config : TelemetryConfig)

/-- `_effective_outcome`.  A session that is open ages to incomplete by a clock only. -/
def effectiveOutcome (nowRef : Option F64) (record : SessionRecord) : Option SessionOutcome :=
  match record.outcome with
  | some outcome => some outcome
  | none =>
      match nowRef with
      | some (.fin now) =>
          if horizonOf config < rnd (now - record.startedAt) then some .incomplete else none
      | _ => none

/-- `_classified`. -/
def classified (nowRef : Option F64) (records : List SessionRecord) :
    List (SessionRecord × SessionOutcome) :=
  records.filterMap fun record =>
    (effectiveOutcome rnd config nowRef record).map fun outcome => (record, outcome)

/-- `_outcomes_block`. -/
def outcomesBlock (pairs : List (SessionRecord × SessionOutcome)) : Outcomes :=
  let count := fun outcome => pairs.countP fun pair => decide (pair.2 = outcome)
  { conversionRate := safeRatio rnd (count .tradeBuy + count .tradeSell) pairs.length
    holdRate := safeRatio rnd (count .hold) pairs.length
    errorRate := safeRatio rnd (count .error) pairs.length
    incompleteRate := safeRatio rnd (count .incomplete) pairs.length
    counts :=
      { tradeBuy := count .tradeBuy, tradeSell := count .tradeSell, hold := count .hold
        error := count .error, incomplete := count .incomplete } }

/-- `_invalidation_rate`. -/
def invalidationRate (records : List SessionRecord) : Option ℚ :=
  let inv := (records.map SessionRecord.invalidationEvents).sum
  let target := (records.map SessionRecord.targetEvents).sum
  safeRatio rnd inv (inv + target)

/-- `_watch_cycles_distribution`. -/
def watchCyclesDistribution (records : List SessionRecord) : Distribution :=
  countDistribution rnd (records.map SessionRecord.watchCycles)

/-- `_group_report`. -/
def groupReport (nowRef : Option F64) (key : Option String) (members : List SessionRecord) :
    GroupReport :=
  let pairs := classified rnd config nowRef members
  { key := key
    sessionCount := pairs.length
    weakPrior := decide ((pairs.length : ℤ) < config.weakPriorMinSessions)
    outcomes := outcomesBlock rnd pairs
    invalidationRate := invalidationRate rnd (pairs.map Prod.fst)
    watchCycles := watchCyclesDistribution rnd (pairs.map Prod.fst) }

/-- `_group_reports`. -/
def groupReports (nowRef : Option F64) (records : List SessionRecord) (key : GroupKey) :
    List GroupReport :=
  let groups := groupSessions records key
  (Grouping.sortedKeys groupOrder groups).map fun k =>
    groupReport rnd config nowRef k (Grouping.bucket groups k)

/-- `totals[name] = totals.get(name, 0) + count`. -/
def ToolCounts.gain (totals : ToolCounts) (row : String × ℕ) : ToolCounts :=
  if totals.find? row.1 = none then totals.insertIgnore row
  else totals.updateWhere (fun total => decide (total.1 = row.1))
    (fun total => (total.1, total.2 + row.2)) fun _ => rfl

/-- The totals, in the order of their first counts. -/
def toolTotals (records : List SessionRecord) : ToolCounts :=
  (records.flatMap fun record => record.toolCallsByName.rows).foldl ToolCounts.gain .empty

/-- `_tool_calls_by_name_totals`. -/
def toolCallsByNameTotals (records : List SessionRecord) : List (String × ℕ) :=
  (toolTotals records).rows.insertionSort fun a b => toLex a ≤ toLex b

/-- `aggregate`. -/
def aggregate (nowRef : Option F64) (records : List SessionRecord) : Report :=
  let pairs := classified rnd config nowRef records
  let classifiedRecords := pairs.map Prod.fst
  { sessionCount := pairs.length
    weakPriorMinSessions := config.weakPriorMinSessions
    weakPrior := decide ((pairs.length : ℤ) < config.weakPriorMinSessions)
    filters := {}
    outcomes := outcomesBlock rnd pairs
    invalidationRate := invalidationRate rnd classifiedRecords
    watchCycles := watchCyclesDistribution rnd classifiedRecords
    timeToDecisionS := distribution rnd (classifiedRecords.filterMap SessionRecord.timeToDecisionS)
    cost :=
      { toolCalls := countDistribution rnd (classifiedRecords.map SessionRecord.toolCallsTotal)
        modelTurns := countDistribution rnd (classifiedRecords.map SessionRecord.modelTurns)
        resumeCount := countDistribution rnd (classifiedRecords.map SessionRecord.resumeCount)
        toolCallsByName := toolCallsByNameTotals classifiedRecords }
    bySymbol := groupReports rnd config nowRef classifiedRecords .symbol
    byTimeframe := groupReports rnd config nowRef classifiedRecords .timeframe
    byMode := groupReports rnd config nowRef classifiedRecords .mode }

end

/-! ### Order does not matter -/

section
variable {rnd : ℚ → ℚ} {config : TelemetryConfig} {nowRef : Option F64}
  {records records' : List SessionRecord}

theorem min?_perm {xs ys : List ℚ} (h : xs.Perm ys) : xs.min? = ys.min? := by
  ext q
  rw [List.min?_eq_some_iff, List.min?_eq_some_iff]
  simp only [h.mem_iff]

theorem max?_perm {xs ys : List ℚ} (h : xs.Perm ys) : xs.max? = ys.max? := by
  ext q
  rw [List.max?_eq_some_iff, List.max?_eq_some_iff]
  simp only [h.mem_iff]

theorem median_perm {xs ys : List ℚ} (h : xs.Perm ys) : median rnd xs = median rnd ys := by
  have hsort : xs.insertionSort (· ≤ ·) = ys.insertionSort (· ≤ ·) :=
    Grouping.sortBy_perm Function.injective_id h
  rw [median, median, hsort]

theorem distribution_perm {xs ys : List ℚ} (h : xs.Perm ys) :
    distribution rnd xs = distribution rnd ys := by
  rw [distribution, distribution, min?_perm h, max?_perm h, fmean, fmean, h.sum_eq, h.length_eq,
    median_perm h]

theorem countDistribution_perm {ms ns : List ℕ} (h : ms.Perm ns) :
    countDistribution rnd ms = countDistribution rnd ns := distribution_perm (h.map _)

theorem outcomesBlock_perm {ps qs : List (SessionRecord × SessionOutcome)} (h : ps.Perm qs) :
    outcomesBlock rnd ps = outcomesBlock rnd qs := by
  simp only [outcomesBlock, h.countP_eq, h.length_eq]

theorem invalidationRate_perm (h : records.Perm records') :
    invalidationRate rnd records = invalidationRate rnd records' := by
  rw [invalidationRate, invalidationRate, (h.map _).sum_eq, (h.map _).sum_eq]

theorem classified_perm (h : records.Perm records') :
    (classified rnd config nowRef records).Perm (classified rnd config nowRef records') :=
  h.filterMap _

theorem groupReport_perm {k : Option String} (h : records.Perm records') :
    groupReport rnd config nowRef k records = groupReport rnd config nowRef k records' := by
  have hpairs : (classified rnd config nowRef records).Perm _ := classified_perm h
  rw [groupReport, groupReport, hpairs.length_eq, outcomesBlock_perm hpairs,
    invalidationRate_perm (hpairs.map _), watchCyclesDistribution, watchCyclesDistribution,
    countDistribution_perm ((hpairs.map _).map _)]

theorem groupOrder_injective : groupOrder.Injective := by
  intro i j h
  have hsome : i.isSome = j.isSome := congrArg (fun key => (ofLex key).1) h
  have htext : i.getD "None" = j.getD "None" := congrArg (fun key => (ofLex key).2) h
  cases i with
  | none => exact (Option.not_isSome_iff_eq_none.mp (by rw [← hsome]; simp)).symm
  | some s =>
      obtain ⟨t, rfl⟩ := Option.isSome_iff_exists.mp hsome.symm
      exact congrArg some htext

/-- The groups are, for each key in order, the report of the records of that key. -/
theorem groupReports_eq (key : GroupKey) :
    groupReports rnd config nowRef records key =
      (Grouping.sortedKeys groupOrder (groupSessions records key)).map fun k =>
        groupReport rnd config nowRef k (records.filter fun r => decide (key.of r = k)) := by
  rw [groupReports, groupSessions]
  simp only [Grouping.bucket_group]

theorem groupReports_perm {key : GroupKey} (h : records.Perm records') :
    groupReports rnd config nowRef records key = groupReports rnd config nowRef records' key := by
  have hkeys : ∀ k, (∃ r ∈ records, key.of r = k) ↔ ∃ r ∈ records', key.of r = k := fun k => by
    simp only [h.mem_iff]
  rw [groupReports_eq, groupReports_eq, groupSessions, groupSessions,
    Grouping.sortedKeys_group groupOrder_injective hkeys]
  exact List.map_congr_left fun k _ => groupReport_perm (h.filter _)

/-! ### Totals by tool -/

theorem find?_gain (totals : ToolCounts) (row : String × ℕ) (name : String) :
    (totals.gain row).find? name =
      if name = row.1 then some (name, ((totals.find? name).map Prod.snd).getD 0 + row.2)
      else totals.find? name := by
  unfold ToolCounts.gain
  split
  · rename_i hnone
    split
    · rename_i hname
      rw [hname, hnone, Table.find?_insertIgnore_self hnone]
      exact congrArg some (Prod.ext rfl (Nat.zero_add row.2).symm)
    · rename_i hname
      exact Table.find?_insertIgnore_of_ne (Ne.symm hname)
  · rename_i hsome
    rw [Table.find?_updateWhere]
    split
    · rename_i hname
      obtain ⟨total, htotal⟩ := Option.ne_none_iff_exists'.mp (hname ▸ hsome)
      have hkey : total.1 = name := Table.find?_key htotal
      rw [htotal, Option.map_some, if_pos (decide_eq_true (hkey.trans hname)), hkey]
      rfl
    · rename_i hname
      cases htotal : totals.find? name with
      | none => rfl
      | some total =>
          have hkey : total.1 ≠ row.1 := fun h => hname ((Table.find?_key htotal).symm.trans h)
          rw [Option.map_some, if_neg (by simpa using hkey)]

theorem find?_totals (rows : List (String × ℕ)) (name : String) :
    (rows.foldl ToolCounts.gain .empty).find? name =
      if ∃ row ∈ rows, row.1 = name then
        some (name, ((rows.filter fun row => decide (row.1 = name)).map Prod.snd).sum)
      else none := by
  induction rows using List.reverseRecOn with
  | nil => simp
  | append_singleton rows row ih =>
      rw [List.foldl_append, List.foldl_cons, List.foldl_nil, find?_gain, ih, List.filter_append,
        List.map_append, List.sum_append]
      by_cases hname : name = row.1
      · have hex : ∃ r ∈ rows ++ [row], r.1 = name := ⟨row, by simp, hname.symm⟩
        rw [if_pos hname, if_pos hex, List.filter_cons_of_pos (by simp [hname])]
        by_cases hold : ∃ r ∈ rows, r.1 = name
        · simp [if_pos hold]
        · have hempty : rows.filter (fun r => decide (r.1 = name)) = [] :=
            List.filter_eq_nil_iff.mpr fun r hr => by simpa using fun h => hold ⟨r, hr, h⟩
          simp [if_neg hold, hempty]
      · have hiff : (∃ r ∈ rows ++ [row], r.1 = name) ↔ ∃ r ∈ rows, r.1 = name := by
          simp [or_and_right, exists_or, Ne.symm hname]
        rw [if_neg hname, List.filter_cons_of_neg (by simpa using Ne.symm hname)]
        simp only [hiff, List.filter_nil, List.map_nil, List.sum_nil, Nat.add_zero]

theorem toolCallsByNameTotals_perm (h : records.Perm records') :
    toolCallsByNameTotals records = toolCallsByNameTotals records' := by
  have hrows := h.flatMap_right fun record => record.toolCallsByName.rows
  have hfind : ∀ name, (toolTotals records).find? name = (toolTotals records').find? name := by
    intro name
    rw [toolTotals, toolTotals, find?_totals, find?_totals, ((hrows.filter _).map _).sum_eq]
    simp only [hrows.mem_iff]
  have hmem : ∀ {s t : ToolCounts}, (∀ name, s.find? name = t.find? name) →
      ∀ row, row ∈ s.rows → row ∈ t.rows := by
    intro s t hst row hrow
    exact Table.mem_of_find? ((hst row.1).symm.trans (Table.find?_of_mem hrow rfl))
  refine Grouping.sortBy_perm toLex.injective ((List.perm_ext_iff_of_nodup
    (toolTotals records).nodup.of_map (toolTotals records').nodup.of_map).mpr fun row => ?_)
  exact ⟨hmem hfind row, hmem (fun name => (hfind name).symm) row⟩

/-- **The order of the records does not matter.** -/
theorem aggregate_perm (rnd : ℚ → ℚ) (config : TelemetryConfig) (nowRef : Option F64)
    (records records' : List SessionRecord) (h : records.Perm records') :
    aggregate rnd config nowRef records = aggregate rnd config nowRef records' := by
  have hpairs : (classified rnd config nowRef records).Perm _ := classified_perm h
  have hrecords := hpairs.map Prod.fst
  simp only [aggregate, watchCyclesDistribution, hpairs.length_eq, outcomesBlock_perm hpairs,
    invalidationRate_perm hrecords, countDistribution_perm (hrecords.map _),
    distribution_perm (hrecords.filterMap _), toolCallsByNameTotals_perm hrecords,
    groupReports_perm hrecords]

def sampleRecord (threadId symbol : String) (outcome : Option SessionOutcome) (watchCycles : ℕ) :
    SessionRecord :=
  finalizeSession .small
    { threadId, symbol := some symbol, startedAt := 0, endedAt := some 5, outcome, watchCycles }

/-- A trade and a hold of one symbol, an error and an open session. -/
theorem aggregate_perm_mixed :
    (aggregate id {} none [sampleRecord "a" "TCS" (some .tradeBuy) 1,
      sampleRecord "b" "TCS" (some .hold) 3, sampleRecord "c" "SBIN" (some .error) 0,
      sampleRecord "d" "SBIN" none 2]).sessionCount = 3 ∧
    aggregate id {} none [sampleRecord "a" "TCS" (some .tradeBuy) 1,
      sampleRecord "b" "TCS" (some .hold) 3, sampleRecord "c" "SBIN" (some .error) 0,
      sampleRecord "d" "SBIN" none 2] =
    aggregate id {} none [sampleRecord "c" "SBIN" (some .error) 0,
      sampleRecord "d" "SBIN" none 2, sampleRecord "a" "TCS" (some .tradeBuy) 1,
      sampleRecord "b" "TCS" (some .hold) 3] :=
  ⟨by decide +kernel, aggregate_perm id {} none _ _
    (List.perm_append_comm : ([_, _] ++ [_, _]).Perm _)⟩

end

end AiTrader.Telemetry
