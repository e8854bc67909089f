import AiTrader.Library.MonotoneRounding
import AiTrader.Telemetry.Report
import Mathlib.Algebra.Order.BigOperators.Group.List
import Mathlib.Data.List.GetD

/-! # Session telemetry: the figures of a report

* `aggregate_inRange`: rates lie between 0 and 1, means and medians between the extremes, and each
  figure is missing just where there is nothing to take it of.
* `breakdown_partitions`: the groups of a breakdown split the sessions, and each shows what the
  report of its own sessions shows. -/

namespace AiTrader.Telemetry

/-- The rate of a part of `total` things. -/
def IsRate (rate : Option ℚ) (total : ℕ) : Prop :=
  (rate = none ↔ total = 0) ∧ ∀ q ∈ rate, 0 ≤ q ∧ q ≤ 1

/-- A figure between two of the values, if there are any. -/
def IsBetween (figure : Option ℚ) (values : List ℚ) : Prop :=
  (figure = none ↔ values = []) ∧
    ∀ q ∈ figure, (∃ low ∈ values, low ≤ q) ∧ ∃ high ∈ values, q ≤ high

/-- The distribution of the values. -/
structure Distribution.Of (d : Distribution) (values : List ℚ) : Prop where
  count : d.count = values.length
  mean : IsBetween d.mean values
  median : IsBetween d.median values
  max : (d.max = none ↔ values = []) ∧ ∀ q ∈ d.max, q ∈ values ∧ ∀ v ∈ values, v ≤ q

/-- All sessions are counted under one outcome each. -/
structure Outcomes.Of (outcomes : Outcomes) (sessionCount : ℕ) : Prop where
  conversionRate : IsRate outcomes.conversionRate sessionCount
  holdRate : IsRate outcomes.holdRate sessionCount
  errorRate : IsRate outcomes.errorRate sessionCount
  incompleteRate : IsRate outcomes.incompleteRate sessionCount
  counts : outcomes.counts.tradeBuy + outcomes.counts.tradeSell + outcomes.counts.hold +
    outcomes.counts.error + outcomes.counts.incomplete = sessionCount

variable {rnd : ℚ → ℚ} {config : TelemetryConfig} {nowRef : Option F64}
  {records : List SessionRecord} {values : List ℚ}

/-! ### Ranges -/

theorem safeRatio_isRate (h : MonotoneRounding rnd) {part whole : ℕ} (hle : part ≤ whole) :
    IsRate (safeRatio rnd part whole) whole := by
  unfold safeRatio IsRate
  split
  · rename_i hzero
    exact ⟨⟨fun _ => hzero, fun _ => rfl⟩, fun q hq => by cases hq⟩
  · rename_i hpos
    refine ⟨⟨fun hnone => absurd hnone (Option.some_ne_none _), fun hzero => absurd hzero hpos⟩,
      fun q hq => ?_⟩
    cases hq
    exact h.ratio_mem (Nat.cast_nonneg part) (Nat.cast_le.mpr hle)
      (Nat.one_le_cast.mpr (Nat.one_le_iff_ne_zero.mpr hpos))

theorem median_between (h : MonotoneRounding rnd) (hvalues : ∀ v ∈ values, rnd v = v)
    (hne : values ≠ []) :
    (∃ low ∈ values, low ≤ median rnd values) ∧ ∃ high ∈ values, median rnd values ≤ high := by
  have hsorted : (values.insertionSort (· ≤ ·)).Pairwise (· ≤ ·) := values.pairwise_insertionSort _
  have hmem : ∀ v, v ∈ values.insertionSort (· ≤ ·) ↔ v ∈ values := fun v => List.mem_insertionSort _
  have hpos : 0 < (values.insertionSort (· ≤ ·)).length := by
    rw [List.length_insertionSort]
    exact List.length_pos_of_ne_nil hne
  unfold median
  generalize values.insertionSort (· ≤ ·) = data at hsorted hmem hpos ⊢
  have hget : ∀ i < data.length, data.getD i 0 ∈ values := by
    intro i hi
    rw [List.getD_eq_getElem _ _ hi]
    exact (hmem _).mp (List.getElem_mem hi)
  have hi : data.length / 2 < data.length := Nat.div_lt_self hpos one_lt_two
  dsimp only
  split
  · exact ⟨⟨_, hget _ hi, le_refl _⟩, _, hget _ hi, le_refl _⟩
  · rename_i heven
    have hi' : data.length / 2 - 1 < data.length := by omega
    have hle : data.getD (data.length / 2 - 1) 0 ≤ data.getD (data.length / 2) 0 := by
      rw [List.getD_eq_getElem _ _ hi, List.getD_eq_getElem _ _ hi']
      exact List.pairwise_iff_getElem.mp hsorted _ _ hi' hi (by omega)
    have hmid := h.midpoint_mem (hvalues _ (hget _ hi')) (hvalues _ (hget _ hi)) hle
    exact ⟨⟨_, hget _ hi', hmid.1⟩, _, hget _ hi, hmid.2⟩

theorem distribution_count (values : List ℚ) : (distribution rnd values).count = values.length := by
  unfold distribution
  split
  · rfl
  · rename_i hnone
    by_contra hlen
    have hne : values ≠ [] := fun hnil => hlen (by rw [hnil]; rfl)
    obtain ⟨lo, hlo⟩ := Option.ne_none_iff_exists'.mp (mt List.min?_eq_none_iff.mp hne)
    obtain ⟨hi, hhi⟩ := Option.ne_none_iff_exists'.mp (mt List.max?_eq_none_iff.mp hne)
    exact hnone lo hi hlo hhi

theorem distribution_of (h : MonotoneRounding rnd) (hvalues : ∀ v ∈ values, rnd v = v) :
    (distribution rnd values).Of values := by
  by_cases hne : values = []
  · subst hne
    have hnone : ∀ q ∈ (none : Option ℚ), False := fun q hq => by cases hq
    exact ⟨rfl, ⟨⟨fun _ => rfl, fun _ => rfl⟩, fun q hq => (hnone q hq).elim⟩,
      ⟨⟨fun _ => rfl, fun _ => rfl⟩, fun q hq => (hnone q hq).elim⟩,
      ⟨fun _ => rfl, fun _ => rfl⟩, fun q hq => (hnone q hq).elim⟩
  · obtain ⟨lo, hlo⟩ := Option.ne_none_iff_exists'.mp (mt List.min?_eq_none_iff.mp hne)
    obtain ⟨hi, hhi⟩ := Option.ne_none_iff_exists'.mp (mt List.max?_eq_none_iff.mp hne)
    obtain ⟨hlomem, hlole⟩ := List.min?_eq_some_iff.mp hlo
    obtain ⟨hhimem, hhile⟩ := List.max?_eq_some_iff.mp hhi
    have hsome : ∀ q : ℚ, (some q = none ↔ values = []) := fun q =>
      ⟨fun hq => absurd hq (Option.some_ne_none _), fun hq => absurd hq hne⟩
    have hd : distribution rnd values =
        { mean := some (if fmean rnd values < lo then lo
            else if hi < fmean rnd values then hi else fmean rnd values)
          median := some (median rnd values), max := some hi, count := values.length } := by
      rw [distribution, hlo, hhi]
    rw [hd]
    refine ⟨rfl, ⟨hsome _, fun q hq => ?_⟩, ⟨hsome _, fun q hq => ?_⟩, hsome _, fun q hq => ?_⟩
    · cases hq
      split
      · exact ⟨⟨lo, hlomem, le_refl lo⟩, lo, hlomem, le_refl lo⟩
      · rename_i hlow
        split
        · exact ⟨⟨hi, hhimem, le_refl hi⟩, hi, hhimem, le_refl hi⟩
        · rename_i hhigh
          exact ⟨⟨lo, hlomem, not_lt.mp hlow⟩, hi, hhimem, not_lt.mp hhigh⟩
    · cases hq
      exact median_between h hvalues hne
    · cases hq
      exact ⟨hhimem, hhile⟩

theorem countDistribution_of (h : MonotoneRounding rnd) (counts : List ℕ) :
    (countDistribution rnd counts).Of (counts.map fun (n : ℕ) => rnd n) := by
  refine distribution_of h fun v hv => ?_
  obtain ⟨n, -, rfl⟩ := List.mem_map.mp hv
  exact h.idem n

theorem outcomesBlock_of (h : MonotoneRounding rnd) (pairs : List (SessionRecord × SessionOutcome)) :
    (outcomesBlock rnd pairs).Of pairs.length := by
  have hcounts : pairs.countP (fun p => decide (p.2 = .tradeBuy)) +
      pairs.countP (fun p => decide (p.2 = .tradeSell)) +
      pairs.countP (fun p => decide (p.2 = .hold)) + pairs.countP (fun p => decide (p.2 = .error)) +
      pairs.countP (fun p => decide (p.2 = .incomplete)) = pairs.length := by
    induction pairs with
    | nil => rfl
    | cons p pairs ih =>
        obtain ⟨record, outcome⟩ := p
        simp only [List.countP_cons, List.length_cons]
        cases outcome <;> simp <;> omega
  have hconverted : pairs.countP (fun p => decide (p.2 = .tradeBuy)) +
      pairs.countP (fun p => decide (p.2 = .tradeSell)) ≤ pairs.length := by omega
  exact ⟨safeRatio_isRate h hconverted, safeRatio_isRate h List.countP_le_length,
    safeRatio_isRate h List.countP_le_length, safeRatio_isRate h List.countP_le_length, hcounts⟩

theorem invalidationRate_isRate (h : MonotoneRounding rnd) (records : List SessionRecord) :
    IsRate (invalidationRate rnd records) ((records.map SessionRecord.invalidationEvents).sum +
      (records.map SessionRecord.targetEvents).sum) :=
  safeRatio_isRate h (Nat.le_add_right _ _)

/-! ### The report of some of the records -/

theorem classified_filter (p : SessionRecord → Bool) :
    classified rnd config nowRef (records.filter p) =
      (classified rnd config nowRef records).filter fun pair => p pair.1 := by
  induction records with
  | nil => rfl
  | cons record records ih =>
      simp only [classified, List.filter_cons, List.filterMap_cons] at ih ⊢
      cases ho : effectiveOutcome rnd config nowRef record <;> by_cases hp : p record <;>
        simp [hp, ho, ih]

/-- Classified records are classified as before. -/
theorem classified_classified :
    classified rnd config nowRef ((classified rnd config nowRef records).map Prod.fst) =
      classified rnd config nowRef records := by
  induction records with
  | nil => rfl
  | cons record records ih =>
      simp only [classified, List.filterMap_cons] at ih ⊢
      cases ho : effectiveOutcome rnd config nowRef record with
      | none => exact ih
      | some outcome => simp [ho, ih]

theorem mem_classified {p : SessionRecord × SessionOutcome} :
    p ∈ classified rnd config nowRef records ↔
      p.1 ∈ records ∧ effectiveOutcome rnd config nowRef p.1 = some p.2 := by
  obtain ⟨record, outcome⟩ := p
  simp only [classified, List.mem_filterMap, Option.map_eq_some_iff, Prod.mk.injEq]
  constructor
  · rintro ⟨r, hr, o, ho, rfl, rfl⟩
    exact ⟨hr, ho⟩
  · rintro ⟨hr, ho⟩
    exact ⟨record, hr, outcome, ho, rfl, rfl⟩

/-- The group shows what a report shows. -/
structure GroupReport.Shows (group : GroupReport) (report : Report) : Prop where
  sessionCount : group.sessionCount = report.sessionCount
  weakPrior : group.weakPrior = report.weakPrior
  outcomes : group.outcomes = report.outcomes
  invalidationRate : group.invalidationRate = report.invalidationRate
  watchCycles : group.watchCycles = report.watchCycles

/-- The filter by one key. -/
def GroupKey.only (key : GroupKey) (name : String) : Filter :=
  match key with
  | symbol => { symbol := some name }
  | timeframe => { timeframe := some name }
  | mode => { mode := some name }

theorem filterSessions_only (key : GroupKey) (name : String) :
    filterSessions records (key.only name) =
      records.filter fun record => decide (key.of record = some name) := by
  rw [filterSessions]
  refine List.filter_congr fun record _ => ?_
  cases key <;> simp only [GroupKey.only, GroupKey.of, finiteBound, Option.all_none, Option.all_some,
    Bool.and_true, Bool.true_and] <;> exact decide_eq_decide.mpr Iff.rfl

theorem breakdown_eq (key : GroupKey) :
    (aggregate rnd config nowRef records).breakdown key =
      groupReports rnd config nowRef ((classified rnd config nowRef records).map Prod.fst) key := by
  cases key <;> rfl

theorem groupReport_shows (k : Option String) (p : SessionRecord → Bool) :
    (groupReport rnd config nowRef k
      (((classified rnd config nowRef records).map Prod.fst).filter p)).Shows
      (aggregate rnd config nowRef (records.filter p)) := by
  have hpairs : classified rnd config nowRef
      (((classified rnd config nowRef records).map Prod.fst).filter p) =
        classified rnd config nowRef (records.filter p) := by
    rw [classified_filter, classified_classified, ← classified_filter]
  constructor <;> simp only [groupReport, aggregate, hpairs]

/-! ### Every figure -/

/-- Every figure of the report is in its range, for the classified records `rs`. -/
structure Report.InRange (rnd : ℚ → ℚ) (report : Report) (rs : List SessionRecord) : Prop where
  sessionCount : report.sessionCount = rs.length
  outcomes : report.outcomes.Of rs.length
  invalidationRate : IsRate report.invalidationRate
    ((rs.map SessionRecord.invalidationEvents).sum + (rs.map SessionRecord.targetEvents).sum)
  watchCycles : report.watchCycles.Of (rs.map fun r => rnd r.watchCycles)
  timeToDecisionS : report.timeToDecisionS.Of (rs.filterMap SessionRecord.timeToDecisionS)
  toolCalls : report.cost.toolCalls.Of (rs.map fun r => rnd r.toolCallsTotal)
  modelTurns : report.cost.modelTurns.Of (rs.map fun r => rnd r.modelTurns)
  resumeCount : report.cost.resumeCount.Of (rs.map fun r => rnd r.resumeCount)

theorem aggregate_report (h : MonotoneRounding rnd)
    (htimes : ∀ record ∈ records, ∀ t, record.timeToDecisionS = some t → rnd t = t) :
    (aggregate rnd config nowRef records).InRange rnd
      ((classified rnd config nowRef records).map Prod.fst) := by
  have hcounts : ∀ (f : SessionRecord → ℕ) (rs : List SessionRecord),
      (countDistribution rnd (rs.map f)).Of (rs.map fun r => rnd (f r)) := by
    intro f rs
    have hof := countDistribution_of h (rs.map f)
    rwa [List.map_map] at hof
  refine ⟨(List.length_map _).symm, ?_, invalidationRate_isRate h _, hcounts _ _,
    distribution_of h fun t ht => ?_, hcounts _ _, hcounts _ _, hcounts _ _⟩
  · rw [List.length_map]
    exact outcomesBlock_of h _
  · obtain ⟨record, hrecord, ht⟩ := List.mem_filterMap.mp ht
    obtain ⟨p, hp, rfl⟩ := List.mem_map.mp hrecord
    exact htimes _ (mem_classified.mp hp).1 t ht

/-- **Every figure is in its range**, in the report and in each of its groups. -/
theorem aggregate_inRange (rnd : ℚ → ℚ) (h : MonotoneRounding rnd) (config : TelemetryConfig)
    (nowRef : Option F64) (records : List SessionRecord)
    (htimes : ∀ record ∈ records, ∀ t, record.timeToDecisionS = some t → rnd t = t) :
    (aggregate rnd config nowRef records).InRange rnd
        ((classified rnd config nowRef records).map Prod.fst) ∧
      ∀ key, ∀ g ∈ (aggregate rnd config nowRef records).breakdown key, ∃ report rs,
        g.Shows report ∧ report.InRange rnd rs ∧
          rs = ((classified rnd config nowRef records).map Prod.fst).filter
            fun r => decide (key.of r = g.key) := by
  refine ⟨aggregate_report h htimes, fun key g hg => ?_⟩
  rw [breakdown_eq, groupReports_eq] at hg
  obtain ⟨k, -, rfl⟩ := List.mem_map.mp hg
  refine ⟨_, _, groupReport_shows k _, aggregate_report h fun record hrecord => ?_, ?_⟩
  · exact htimes record (List.mem_filter.mp hrecord).1
  · rw [classified_filter, List.filter_map]
    rfl

/-- A trade and a session that is still open. -/
def sampleRecords : List SessionRecord :=
  [finalizeSession .small { threadId := "a", startedAt := 0, endedAt := some 5, outcome := some .tradeBuy },
    finalizeSession .small { threadId := "b", startedAt := 3 }]

theorem aggregate_inRange_sample :
    (aggregate id {} (some (.fin 90000)) sampleRecords).InRange id
      ((classified id {} (some (.fin 90000)) sampleRecords).map Prod.fst) :=
  (aggregate_inRange id .id {} (some (.fin 90000)) sampleRecords fun _ _ _ _ => rfl).1

/-! ### The groups split the sessions -/

theorem countP_eq_sum {α : Type*} (p : α → Bool) (as : List α) :
    as.countP p = (as.map fun a => if p a then 1 else 0).sum := by
  induction as with
  | nil => rfl
  | cons a as ih => rw [List.countP_cons, List.map_cons, List.sum_cons, ih, Nat.add_comm]

/-- What is counted of the classified records is counted over the groups. -/
theorem sum_groups (key : GroupKey) (p : SessionRecord × SessionOutcome → Bool) :
    ((Grouping.sortedKeys groupOrder
        (groupSessions ((classified rnd config nowRef records).map Prod.fst) key)).map fun k =>
      (classified rnd config nowRef (((classified rnd config nowRef records).map Prod.fst).filter
        fun r => decide (key.of r = k))).countP p).sum =
      (classified rnd config nowRef records).countP p := by
  have hcount : ∀ rs : List SessionRecord, (classified rnd config nowRef rs).countP p =
      (rs.map fun r => if ((((effectiveOutcome rnd config nowRef r).map fun o => (r, o)).map p).getD
        false) then 1 else 0).sum := by
    intro rs
    rw [← countP_eq_sum, classified, List.countP_filterMap]
  have htwice : classified rnd config nowRef ((classified rnd config nowRef records).map Prod.fst) =
      classified rnd config nowRef records := classified_classified
  rw [← htwice, hcount, groupSessions]
  simp only [hcount]
  rw [htwice]
  exact Grouping.sum_sortedKeys groupOrder key.of _ _

/-- **The groups of a breakdown split the sessions.**  They stand in order, one for each key of a
classified session; each shows what the report of the records of its key shows; and what they count
adds up. -/
theorem breakdown_partitions (rnd : ℚ → ℚ) (config : TelemetryConfig) (nowRef : Option F64)
    (records : List SessionRecord) (key : GroupKey) :
    let report := aggregate rnd config nowRef records
    let groups := report.breakdown key
    (groups.Pairwise fun g h => groupOrder g.key < groupOrder h.key) ∧
      (∀ k, (∃ g ∈ groups, g.key = k) ↔
        ∃ p ∈ classified rnd config nowRef records, key.of p.1 = k) ∧
      (∀ g ∈ groups, g.Shows (aggregate rnd config nowRef
        (records.filter fun record => decide (key.of record = g.key)))) ∧
      (∀ g ∈ groups, ∀ name, g.key = some name →
        g.Shows (aggregate rnd config nowRef (filterSessions records (key.only name)))) ∧
      (groups.map GroupReport.sessionCount).sum = report.sessionCount ∧
      (∀ count ∈ [OutcomeCounts.tradeBuy, OutcomeCounts.tradeSell, OutcomeCounts.hold,
          OutcomeCounts.error, OutcomeCounts.incomplete],
        (groups.map fun g => count g.outcomes.counts).sum = count report.outcomes.counts) ∧
      (groups.map fun g => g.watchCycles.count).sum = report.watchCycles.count ∧
      (report.weakPrior = true → ∀ g ∈ groups, g.weakPrior = true) := by
  intro report groups
  have hgroups : groups = _ := (breakdown_eq key).trans (groupReports_eq key)
  have hshows : ∀ g ∈ groups, g.Shows (aggregate rnd config nowRef
      (records.filter fun record => decide (key.of record = g.key))) := by
    intro g hg
    rw [hgroups] at hg
    obtain ⟨k, -, rfl⟩ := List.mem_map.mp hg
    exact groupReport_shows k _
  have hsum : ∀ (f : GroupReport → ℕ) (p : SessionRecord × SessionOutcome → Bool),
      (∀ k members, f (groupReport rnd config nowRef k members) =
        (classified rnd config nowRef members).countP p) →
      (groups.map f).sum = (classified rnd config nowRef records).countP p := by
    intro f p hf
    rw [hgroups, List.map_map, ← sum_groups key p]
    congr 1
    exact List.map_congr_left fun k _ => hf k _
  have hcount : (groups.map GroupReport.sessionCount).sum = report.sessionCount := by
    rw [hsum GroupReport.sessionCount (fun _ => true) fun k members => by
      rw [List.countP_true, groupReport], List.countP_true]
    rfl
  have hcycles : ∀ pairs : List (SessionRecord × SessionOutcome),
      (watchCyclesDistribution rnd (pairs.map Prod.fst)).count = pairs.length := by
    intro pairs
    rw [watchCyclesDistribution, countDistribution, distribution_count]
    simp only [List.length_map]
  refine ⟨?_, fun k => ?_, hshows, fun g hg name hname => ?_, hcount, ?_, ?_,
    fun hweak g hg => ?_⟩
  · rw [hgroups, List.pairwise_map]
    exact Grouping.sortedKeys_lt groupOrder_injective _
  · rw [hgroups]
    simp only [List.mem_map, exists_exists_and_eq_and]
    have hkeys : k ∈ Grouping.sortedKeys groupOrder
        (groupSessions ((classified rnd config nowRef records).map Prod.fst) key) ↔ _ :=
      Grouping.mem_sortedKeys
    simpa [groupReport] using hkeys
  · rw [filterSessions_only, ← hname]
    exact hshows g hg
  · intro count hmem
    simp only [List.mem_cons, List.not_mem_nil, or_false] at hmem
    rcases hmem with rfl | rfl | rfl | rfl | rfl
    · exact hsum _ (fun pair => decide (pair.2 = .tradeBuy)) fun k members => rfl
    · exact hsum _ (fun pair => decide (pair.2 = .tradeSell)) fun k members => rfl
    · exact hsum _ (fun pair => decide (pair.2 = .hold)) fun k members => rfl
    · exact hsum _ (fun pair => decide (pair.2 = .error)) fun k members => rfl
    · exact hsum _ (fun pair => decide (pair.2 = .incomplete)) fun k members => rfl
  · rw [hsum (fun g => g.watchCycles.count) (fun _ => true) fun k members => by
      rw [List.countP_true, ← hcycles]; rfl, List.countP_true]
    exact (hcycles _).symm
  · have hle : g.sessionCount ≤ report.sessionCount := by
      rw [← hcount]
      exact List.le_sum_of_mem (List.mem_map_of_mem hg)
    have hlt : (report.sessionCount : ℤ) < config.weakPriorMinSessions := of_decide_eq_true hweak
    have hg' : g.weakPrior = decide ((g.sessionCount : ℤ) < config.weakPriorMinSessions) := by
      rw [hgroups] at hg
      obtain ⟨k, -, rfl⟩ := List.mem_map.mp hg
      rfl
    rw [hg', decide_eq_true_iff]
    omega

end AiTrader.Telemetry
