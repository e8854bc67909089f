import AiTrader.FloatSum
import AiTrader.Journal.SetupKey
import AiTrader.Library.Fallible
import AiTrader.Options.Config
import Mathlib.Data.String.Basic

/-! # What the dimensions of a setup are worth

`attribution.py`: the scored rows of the journal are tallied under every dimension of their
fingerprints, and a dimension whose values do not differ in what they earn is to be down-weighted.

* `buildAttributionReport`: the report; `none` where a square overflows, which raises.
* `report_counts`: every number of the report counts rows. -/

namespace AiTrader.Attribution

open Agent (Host)
open Journal (word parseSetupKey deriveSetupTags setupKeyFromTags doubleOf)
open Options (resolveInt resolveFloat resolveBool)

/-! ### Configuration -/

/-- The part of the configuration that a report shows. -/
structure Thresholds where
  minSampleDimension : ℤ
  minSampleValue : ℤ
  contributionThreshold : F64
  globalMinScored : ℤ
  downWeightFactor : F64

structure AttributionConfig extends Thresholds where
  weightMapEnabled : Bool

def defaultDownWeightFactor : F64 := .fin (1 / 2)

section
variable (h : Host) (env : Options.Environment)

def resolveAttributionConfig : AttributionConfig :=
  let factor := resolveFloat env "ATTRIBUTION_DOWN_WEIGHT_FACTOR" defaultDownWeightFactor
    (.fin 0) (.fin 1)
  { minSampleDimension := resolveInt env "ATTRIBUTION_MIN_SAMPLE_DIMENSION" 30 1
    minSampleValue := resolveInt env "ATTRIBUTION_MIN_SAMPLE_VALUE" 10 1
    contributionThreshold := resolveFloat env "ATTRIBUTION_CONTRIBUTION_THRESHOLD"
      (h.rnd (15 / 100)) (.fin 0) .posInf
    globalMinScored := resolveInt env "ATTRIBUTION_GLOBAL_MIN_SCORED" 50 1
    -- zero is in the range but is no weight
    downWeightFactor := if F64.le factor (.fin 0) then defaultDownWeightFactor else factor
    weightMapEnabled := resolveBool env h.casing.lower "ATTRIBUTION_WEIGHT_MAP_ENABLED" false }

end

/-! ### Statistics of the values of a dimension -/

section
variable (h : Host)

def isScoredTrade : PyVal → Bool
  | .dict row =>
      decide (word h (Kwargs.get row "status") ∈ ["win", "loss"]) &&
        (isFiniteNumber (Kwargs.get row "r_multiple") == some true)
  | _ => false

/-- `_is_backtest_source`. -/
def isBacktestSource : PyVal → Bool
  | .dict row => decide (word h (Kwargs.get row "source") = "backtest")
  | _ => false

/-- A row that won. -/
def isWin : PyVal → Bool
  | .dict row => decide (word h (Kwargs.get row "status") = "win")
  | _ => false

/-- The fingerprint of a row. -/
def fingerprint : PyVal → Dict String String
  | .dict row => parseSetupKey h (Kwargs.get row "setup_key")
  | _ => Table.empty

/-- `float(row["r_multiple"])`, of a scored row. -/
def rMultiple : PyVal → F64
  | .dict row => (doubleOf h (Kwargs.get row "r_multiple")).getD .nan
  | _ => .nan

structure Tally where
  wins : ℕ := 0
  losses : ℕ := 0
  rSum : F64 := .fin 0
  backtest : ℕ := 0
  live : ℕ := 0

def Tally.add (t : Tally) (row : PyVal) : Tally where
  wins := if isWin h row then t.wins + 1 else t.wins
  losses := if isWin h row then t.losses else t.losses + 1
  rSum := F64.add h.rnd t.rSum (rMultiple h row)
  backtest := if isBacktestSource h row then t.backtest + 1 else t.backtest
  live := if isBacktestSource h row then t.live else t.live + 1

/-- A value in the fingerprint of a row. -/
structure Observation where
  row : PyVal
  dimension : String
  value : String

def observations (row : PyVal) : List Observation :=
  if isScoredTrade h row then (fingerprint h row).rows.map fun f => ⟨row, f.1, f.2⟩ else []

/-- The tallies of the values of one dimension. -/
def tallyValue (values : Dict String Tally) (o : Observation) : Dict String Tally :=
  values.modify o.value {} fun t => t.add h o.row

def tallies (rows : List PyVal) : Dict String (Dict String Tally) :=
  Dict.accumulate Observation.dimension Table.empty (tallyValue h) (rows.flatMap (observations h))

structure DimensionStats where
  value : String
  count : ℕ
  wins : ℕ
  losses : ℕ
  winRate : Option F64
  expectancyR : Option F64
  weakPrior : Bool
  backtestCount : ℕ
  liveCount : ℕ

/-- `round(x, 4)`. -/
def round4 : F64 → F64
  | .fin q => .fin (h.round4 q)
  | x => x

def Tally.stats (config : Thresholds) (value : String) (t : Tally) : DimensionStats :=
  let count := t.wins + t.losses
  { value, count, wins := t.wins, losses := t.losses
    winRate := if count = 0 then none else some (round4 h (h.rnd (t.wins / count)))
    expectancyR :=
      if count = 0 then none else some (round4 h (F64.div h.rnd t.rSum (h.rnd count)))
    weakPrior := decide ((count : ℤ) < config.minSampleValue)
    backtestCount := t.backtest, liveCount := t.live }

/-- `compute_dimension_stats`. -/
def computeDimensionStats (config : Thresholds) (rows : List PyVal) :
    List (String × List DimensionStats) :=
  (tallies h rows).rows.map fun d => (d.1, d.2.rows.map fun v => v.2.stats h config v.1)

/-! ### The contribution of a dimension -/

/-- `x ** 2`; `none` where it overflows. -/
def square : F64 → Option F64
  | .fin q =>
      match h.rnd (q * q) with
      | .fin s => some (.fin s)
      | _ => none
  | .nan => some .nan
  | _ => some .posInf

/-- A value with a usable expectancy, and its count. -/
def weighted (s : DimensionStats) : Option (ℕ × F64) :=
  match s.expectancyR with
  | some meanR => if 0 < s.count ∧ meanR.isFinite = true then some (s.count, meanR) else none
  | none => none

/-- `sum(n * x)` over the weighted values, divided by the number of trades. -/
def weightedMean (terms : List (ℕ × F64)) : F64 :=
  F64.div h.rnd
    (F64.pySum h.rnd (terms.map fun t => F64.mul h.rnd (h.rnd t.1) t.2))
    (h.rnd (terms.map Prod.fst).sum)

/-- `compute_contribution`: `none` where it raises, `some none` where it means nothing. -/
def computeContribution (sqrt : F64 → F64) (config : Thresholds) (values : List DimensionStats) :
    Option (Option F64) :=
  let terms := values.filterMap weighted
  let total := (terms.map Prod.fst).sum
  if total = 0 then some none
  else if (total : ℤ) < config.minSampleDimension then some none
  else do
    let mu := weightedMean h terms
    let squares ← terms.mapM fun t => do
      let s ← square h (F64.sub h.rnd t.2 mu)
      return (t.1, s)
    let variance := weightedMean h squares
    return some (round4 h (sqrt (if F64.lt variance (.fin 0) then .fin 0 else variance)))

/-! ### The report -/

inductive Recommendation where
  | keep
  | downWeight
  | insufficientSample
deriving DecidableEq, Repr

structure DimensionReport where
  dimension : String
  values : List DimensionStats
  totalScored : ℕ
  backtestScored : ℕ
  liveScored : ℕ
  contribution : Option F64
  rank : ℕ := 0
  recommendation : Recommendation

def recommend (config : Thresholds) (total : ℕ) (contribution : Option F64) : Recommendation :=
  if (total : ℤ) < config.minSampleDimension then .insufficientSample
  else
    match contribution with
    | none => .insufficientSample
    | some c => if F64.lt c config.contributionThreshold then .downWeight else .keep

def dimensionReport (sqrt : F64 → F64) (config : Thresholds) (d : String × List DimensionStats) :
    Option DimensionReport := do
  let values := d.2.insertionSort fun a b => a.value ≤ b.value
  let totalScored := (values.map DimensionStats.count).sum
  let contribution ← computeContribution h sqrt config d.2
  return { dimension := d.1, values, totalScored, contribution
           backtestScored := (values.map DimensionStats.backtestCount).sum
           liveScored := (values.map DimensionStats.liveCount).sum
           recommendation := recommend config totalScored contribution }

/-- The order of the entries: the highest contribution first, then the name; those without a
contribution are last. -/
def reportLe (a b : DimensionReport) : Bool :=
  match a.contribution, b.contribution with
  | none, none => decide (a.dimension ≤ b.dimension)
  | none, some _ => false
  | some _, none => true
  | some x, some y => if F64.eq x y then decide (a.dimension ≤ b.dimension) else F64.lt y x

/-- `rank_and_recommend`. -/
def rankAndRecommend (sqrt : F64 → F64) (config : Thresholds)
    (stats : List (String × List DimensionStats)) : Option (List DimensionReport) := do
  let reports ← stats.mapM (dimensionReport h sqrt config)
  return (reports.insertionSort fun a b => reportLe a b = true).mapIdx fun i e =>
    { e with rank := i + 1 }

structure Report where
  dimensions : List DimensionReport
  totalScored : ℕ
  backtestScored : ℕ
  liveScored : ℕ
  config : Thresholds
  weakPrior : Bool
  insufficientData : Bool

/-- The entries of a report; without a scored row there are none. -/
def reportDimensions (sqrt : F64 → F64) (config : Thresholds) (rows : List PyVal) :
    Option (List DimensionReport) :=
  if (rows.filter (isScoredTrade h)).length = 0 then some []
  else rankAndRecommend h sqrt config (computeDimensionStats h config rows)

def buildAttributionReport (sqrt : F64 → F64) (config : Thresholds) (rows : List PyVal) :
    Option Report := do
  let scored := rows.filter (isScoredTrade h)
  let dimensions ← reportDimensions h sqrt config rows
  return { dimensions, totalScored := scored.length, config
           backtestScored := (scored.filter (isBacktestSource h)).length
           liveScored := (scored.filter fun row => !isBacktestSource h row).length
           weakPrior := decide ((scored.length : ℤ) < config.globalMinScored)
           insufficientData := decide (scored.length = 0) }

end

/-! ### What the tallies hold -/

section
variable (h : Host)

/-- A scored row with the dimension in its fingerprint. -/
def carries (d : String) (row : PyVal) : Bool :=
  isScoredTrade h row && ((fingerprint h row).get? d).isSome

/-- A scored row with the value at the dimension. -/
def carriesValue (d v : String) (row : PyVal) : Bool :=
  isScoredTrade h row && decide ((fingerprint h row).get? d = some v)

/-- What a row gives for a dimension. -/
def observationAt (d : String) (row : PyVal) : Option Observation :=
  if isScoredTrade h row then ((fingerprint h row).get? d).map fun v => ⟨row, d, v⟩ else none

/-- The tallies of a dimension. -/
def valueTallies (d : String) (rows : List PyVal) : Dict String Tally :=
  Dict.accumulate Observation.value {} (fun t o => Tally.add h t o.row)
    (rows.filterMap (observationAt h d))

end

section
variable {h : Host} {d v : String} {rows : List PyVal} {row : PyVal} {p : PyVal → Bool}

theorem observationAt_isSome : (observationAt h d row).isSome = carries h d row := by
  unfold observationAt carries
  cases isScoredTrade h row with
  | false => rfl
  | true => simp

theorem observations_filter (d : String) (rows : List PyVal) :
    (rows.flatMap (observations h)).filter (fun o => decide (o.dimension = d)) =
      rows.filterMap (observationAt h d) := by
  rw [List.filter_flatMap]
  induction rows with
  | nil => rfl
  | cons row rows ih =>
      rw [List.flatMap_cons, ih, List.filterMap_cons, observations, observationAt]
      cases isScoredTrade h row with
      | false => rfl
      | true =>
          have hkey := Dict.filter_key (fingerprint h row) d
          simp only [if_true, List.filter_map, Function.comp_def, hkey]
          cases (fingerprint h row).get? d with
          | none => rfl
          | some v => rfl

theorem tallies_get? : (tallies h rows).get? d =
    if ∃ row ∈ rows, carries h d row = true then some (valueTallies h d rows) else none := by
  have hex : (∃ o ∈ rows.flatMap (observations h), o.dimension = d) ↔
      ∃ row ∈ rows, carries h d row = true := by
    have hfilter := observations_filter (h := h) d rows
    constructor
    · rintro ⟨o, ho, hd⟩
      have hmem : o ∈ rows.filterMap (observationAt h d) := by
        rw [← hfilter]
        exact List.mem_filter.mpr ⟨ho, decide_eq_true hd⟩
      obtain ⟨row, hrow, hat⟩ := List.mem_filterMap.mp hmem
      exact ⟨row, hrow, by rw [← observationAt_isSome, hat]; rfl⟩
    · rintro ⟨row, hrow, hcarries⟩
      rw [← observationAt_isSome] at hcarries
      obtain ⟨o, hat⟩ := Option.isSome_iff_exists.mp hcarries
      have hmem := List.mem_filterMap.mpr ⟨row, hrow, hat⟩
      rw [← hfilter] at hmem
      exact ⟨o, (List.mem_filter.mp hmem).1, of_decide_eq_true (List.mem_filter.mp hmem).2⟩
  rw [tallies, Dict.get?_accumulate, observations_filter]
  simp only [hex]
  rfl

theorem foldl_add {get : Tally → ℕ} (hget : ∀ t row, get (t.add h row) = get t + (p row).toNat)
    (os : List Observation) (t : Tally) :
    get (os.foldl (fun t o => Tally.add h t o.row) t) = get t + os.countP fun o => p o.row := by
  induction os generalizing t with
  | nil => rfl
  | cons o os ih =>
      rw [List.foldl_cons, ih, hget, List.countP_cons]
      cases p o.row with
      | false => simp
      | true => simp only [Bool.toNat_true, if_true]; omega

theorem wins_add (t : Tally) (row : PyVal) : (t.add h row).wins = t.wins + (isWin h row).toNat := by
  rw [Tally.add]
  cases isWin h row <;> rfl

theorem losses_add (t : Tally) (row : PyVal) :
    (t.add h row).losses = t.losses + (!isWin h row).toNat := by
  rw [Tally.add]
  cases isWin h row <;> rfl

theorem backtest_add (t : Tally) (row : PyVal) :
    (t.add h row).backtest = t.backtest + (isBacktestSource h row).toNat := by
  rw [Tally.add]
  cases isBacktestSource h row <;> rfl

theorem live_add (t : Tally) (row : PyVal) :
    (t.add h row).live = t.live + (!isBacktestSource h row).toNat := by
  rw [Tally.add]
  cases isBacktestSource h row <;> rfl

theorem countP_observations :
    ((rows.filterMap (observationAt h d)).filter fun o => decide (o.value = v)).countP
        (fun o => p o.row) = rows.countP fun row => carriesValue h d v row && p row := by
  rw [List.countP_filter, List.countP_filterMap]
  refine List.countP_congr fun row _ => ?_
  rw [observationAt, carriesValue]
  cases isScoredTrade h row with
  | false => simp
  | true => cases (fingerprint h row).get? d <;> simp [and_comm]

theorem countP_observations_all :
    (rows.filterMap (observationAt h d)).countP (fun o => p o.row) =
      rows.countP fun row => carries h d row && p row := by
  rw [List.countP_filterMap]
  refine List.countP_congr fun row _ => ?_
  rw [observationAt, carries]
  cases isScoredTrade h row with
  | false => simp
  | true => cases (fingerprint h row).get? d <;> simp

/-- The counters of a value. -/
structure TallyCounts (h : Host) (d v : String) (rows : List PyVal) (t : Tally) : Prop where
  wins : t.wins = rows.countP fun row => carriesValue h d v row && isWin h row
  losses : t.losses = rows.countP fun row => carriesValue h d v row && !isWin h row
  backtest : t.backtest = rows.countP fun row => carriesValue h d v row && isBacktestSource h row
  live : t.live = rows.countP fun row => carriesValue h d v row && !isBacktestSource h row

theorem valueTallies_get? : (valueTallies h d rows).get? v =
    if ∃ o ∈ rows.filterMap (observationAt h d), o.value = v then
      some (((rows.filterMap (observationAt h d)).filter fun o => decide (o.value = v)).foldl
        (fun t o => Tally.add h t o.row) {})
    else none := Dict.get?_accumulate _ _

theorem tallyCounts {t : Tally} (ht : (valueTallies h d rows).get? v = some t) :
    TallyCounts h d v rows t := by
  rw [valueTallies_get?] at ht
  split at ht
  · cases ht
    constructor
    · rw [foldl_add wins_add, countP_observations]
      exact Nat.zero_add _
    · rw [foldl_add losses_add, countP_observations (p := fun row => !isWin h row)]
      exact Nat.zero_add _
    · rw [foldl_add backtest_add, countP_observations]
      exact Nat.zero_add _
    · rw [foldl_add live_add, countP_observations (p := fun row => !isBacktestSource h row)]
      exact Nat.zero_add _
  · cases ht

theorem mem_valueTallies : v ∈ (valueTallies h d rows).rows.map Prod.fst ↔
    ∃ row ∈ rows, carriesValue h d v row = true := by
  rw [Dict.mem_keys, valueTallies_get?]
  have hiff : (∃ o ∈ rows.filterMap (observationAt h d), o.value = v) ↔
      ∃ row ∈ rows, carriesValue h d v row = true := by
    simp only [List.mem_filterMap, carriesValue, Bool.and_eq_true, decide_eq_true_eq]
    constructor
    · rintro ⟨o, ⟨row, hrow, hat⟩, rfl⟩
      rw [observationAt] at hat
      split at hat
      · rename_i hscored
        obtain ⟨w, hw, rfl⟩ := Option.map_eq_some_iff.mp hat
        exact ⟨row, hrow, hscored, hw⟩
      · cases hat
    · rintro ⟨row, hrow, hscored, hw⟩
      exact ⟨⟨row, d, v⟩, ⟨row, hrow, by rw [observationAt, if_pos hscored, hw]; rfl⟩, rfl⟩
  rw [← hiff]
  split <;> simp_all

theorem sum_valueTallies {get : Tally → ℕ} (hget : ∀ t row, get (t.add h row) = get t + (p row).toNat)
    (hinit : get {} = 0) :
    ((valueTallies h d rows).rows.map fun r => get r.2).sum =
      rows.countP fun row => carries h d row && p row := by
  rw [valueTallies, Dict.sum_accumulate (c := fun o => (p o.row).toNat) hinit
    fun t o => hget t o.row, ← countP_observations_all]
  induction rows.filterMap (observationAt h d) with
  | nil => rfl
  | cons o os ih =>
      rw [List.map_cons, List.sum_cons, ih, List.countP_cons, Nat.add_comm]
      cases p o.row <;> rfl

theorem mem_tallies {values : Dict String Tally} (hmem : (d, values) ∈ (tallies h rows).rows) :
    values = valueTallies h d rows := by
  have hget := Dict.get?_of_mem hmem
  rw [tallies_get?] at hget
  split at hget
  · exact (Option.some_inj.mp hget).symm
  · cases hget

/-! ### What the report holds -/

/-- What a row of the report counts. -/
structure StatsCount (h : Host) (d : String) (rows : List PyVal) (s : DimensionStats) : Prop where
  count : s.count = rows.countP (carriesValue h d s.value)
  wins : s.wins = rows.countP fun row => carriesValue h d s.value row && isWin h row
  losses : s.wins + s.losses = s.count
  backtest :
    s.backtestCount = rows.countP fun row => carriesValue h d s.value row && isBacktestSource h row
  live : s.backtestCount + s.liveCount = s.count

/-- What an entry of the report counts. -/
structure EntryCounts (h : Host) (rows : List PyVal) (e : DimensionReport) : Prop where
  total : e.totalScored = rows.countP (carries h e.dimension)
  backtest : e.backtestScored =
    rows.countP fun row => carries h e.dimension row && isBacktestSource h row
  live : e.backtestScored + e.liveScored = e.totalScored
  nodup : (e.values.map DimensionStats.value).Nodup
  values : ∀ v, v ∈ e.values.map DimensionStats.value ↔
    ∃ row ∈ rows, carriesValue h e.dimension v row = true
  stats : ∀ s ∈ e.values, StatsCount h e.dimension rows s

/-- Rows that meet a condition, split by another. -/
theorem countP_split (p q : PyVal → Bool) (rows : List PyVal) :
    (rows.countP fun row => p row && q row) + (rows.countP fun row => p row && !q row) =
      rows.countP p := by
  rw [List.countP_eq_countP_filter_add rows p q, List.countP_filter, List.countP_filter]

theorem TallyCounts.stats {t : Tally} (ht : TallyCounts h d v rows t) (config : Thresholds) :
    StatsCount h d rows (t.stats h config v) := by
  have hcount : t.wins + t.losses = rows.countP (carriesValue h d v) := by
    rw [ht.wins, ht.losses, countP_split]
  have hlive : t.backtest + t.live = t.wins + t.losses := by
    rw [ht.backtest, ht.live, countP_split, hcount]
  exact ⟨hcount, ht.wins, rfl, ht.backtest, hlive⟩

/-- The statistics of a dimension. -/
def valueStats (h : Host) (config : Thresholds) (d : String) (rows : List PyVal) :
    List DimensionStats :=
  (valueTallies h d rows).rows.map fun v => v.2.stats h config v.1

theorem valueStats_count {config : Thresholds} {s : DimensionStats}
    (hs : s ∈ valueStats h config d rows) : StatsCount h d rows s := by
  obtain ⟨⟨v, t⟩, hmem, rfl⟩ := List.mem_map.mp hs
  exact (tallyCounts (Dict.get?_of_mem hmem)).stats config

theorem valueStats_values {config : Thresholds} :
    (valueStats h config d rows).map DimensionStats.value =
      (valueTallies h d rows).rows.map Prod.fst := by
  rw [valueStats, List.map_map]
  rfl

theorem sum_valueStats {config : Thresholds} {get : DimensionStats → ℕ} {count : Tally → ℕ}
    (hget : ∀ (t : Tally) v, get (t.stats h config v) = count t)
    (hadd : ∀ t row, count (t.add h row) = count t + (p row).toNat) (hinit : count {} = 0) :
    ((valueStats h config d rows).map get).sum =
      rows.countP fun row => carries h d row && p row := by
  rw [← sum_valueTallies hadd hinit, valueStats, List.map_map]
  congr 1
  exact List.map_congr_left fun r _ => hget r.2 r.1

variable {sqrt : F64 → F64} {config : Thresholds}

theorem dimensionReport_counts {e : DimensionReport}
    (he : dimensionReport h sqrt config (d, valueStats h config d rows) = some e) :
    e.dimension = d ∧ EntryCounts h rows e ∧
      e.recommendation = recommend config e.totalScored e.contribution := by
  obtain ⟨contribution, -, he⟩ := Option.bind_eq_some_iff.mp he
  obtain rfl := Option.some_inj.mp he
  have hperm : ((valueStats h config d rows).insertionSort fun a b => a.value ≤ b.value).Perm
      (valueStats h config d rows) := List.perm_insertionSort _ _
  have htotal := (hperm.map DimensionStats.count).sum_eq
  have hcount : ∀ (t : Tally) v, (t.stats h config v).count = t.wins + t.losses := fun _ _ => rfl
  rw [sum_valueStats (p := fun _ => true) hcount
    (fun t row => by rw [wins_add, losses_add]; cases isWin h row <;> simp <;> omega) rfl] at htotal
  have hback := (hperm.map DimensionStats.backtestCount).sum_eq
  rw [sum_valueStats (fun _ _ => rfl) backtest_add rfl] at hback
  have hlive := (hperm.map DimensionStats.liveCount).sum_eq
  rw [sum_valueStats (p := fun row => !isBacktestSource h row) (fun _ _ => rfl) live_add rfl] at hlive
  simp only [Bool.and_true] at htotal
  refine ⟨rfl, ⟨htotal, hback, ?_, ?_, fun v => ?_, fun s hs => ?_⟩, rfl⟩
  · dsimp only
    rw [hback, hlive, htotal, countP_split]
  · rw [(hperm.map DimensionStats.value).nodup_iff, valueStats_values]
    exact (valueTallies h d rows).nodup
  · rw [(hperm.map DimensionStats.value).mem_iff, valueStats_values]
    exact mem_valueTallies
  · exact valueStats_count (hperm.mem_iff.mp hs)

theorem computeDimensionStats_eq : computeDimensionStats h config rows =
    ((tallies h rows).rows.map Prod.fst).map fun d => (d, valueStats h config d rows) := by
  rw [List.map_map]
  refine List.map_congr_left fun r hr => ?_
  rw [mem_tallies hr]
  rfl

theorem reports_counts {reports : List DimensionReport}
    (hr : (computeDimensionStats h config rows).mapM (dimensionReport h sqrt config) = some reports) :
    reports.map DimensionReport.dimension = (tallies h rows).rows.map Prod.fst ∧
      ∀ e ∈ reports, EntryCounts h rows e ∧
        e.recommendation = recommend config e.totalScored e.contribution := by
  have hall := Fallible.forall₂_of_mapM_eq_some hr
  rw [computeDimensionStats_eq, List.forall₂_map_left_iff] at hall
  have hcounts := hall.imp fun _ _ he => dimensionReport_counts he
  constructor
  · rw [← List.forall₂_eq_eq_eq, List.forall₂_map_left_iff]
    exact (hcounts.imp fun _ _ he => he.1).flip
  · intro e he
    obtain ⟨i, hi, rfl⟩ := List.mem_iff_getElem.mp he
    exact ((List.forall₂_iff_get.mp hcounts).2 i (by rw [hcounts.length_eq]; exact hi) hi).2

theorem EntryCounts.withRank {e : DimensionReport} (he : EntryCounts h rows e) (n : ℕ) :
    EntryCounts h rows { e with rank := n } :=
  ⟨he.total, he.backtest, he.live, he.nodup, he.values, he.stats⟩

theorem mem_tallies_keys : d ∈ (tallies h rows).rows.map Prod.fst ↔
    ∃ row ∈ rows, carries h d row = true := by
  rw [Dict.mem_keys, tallies_get?]
  split <;> simp_all

/-- The entries that a report lists. -/
structure EntriesCount (h : Host) (config : Thresholds) (rows : List PyVal)
    (entries : List DimensionReport) : Prop where
  nodup : (entries.map DimensionReport.dimension).Nodup
  dimensions : ∀ d, d ∈ entries.map DimensionReport.dimension ↔
    ∃ row ∈ rows, carries h d row = true
  ranks : entries.map DimensionReport.rank = List.range' 1 entries.length
  counts : ∀ e ∈ entries, EntryCounts h rows e
  recommended : ∀ e ∈ entries, e.recommendation = recommend config e.totalScored e.contribution

theorem rankAndRecommend_counts {entries : List DimensionReport}
    (he : rankAndRecommend h sqrt config (computeDimensionStats h config rows) = some entries) :
    EntriesCount h config rows entries := by
  obtain ⟨reports, hreports, he⟩ := Option.bind_eq_some_iff.mp he
  obtain rfl := Option.some_inj.mp he
  obtain ⟨hdims, hcounts⟩ := reports_counts hreports
  have hperm : (reports.insertionSort fun a b => reportLe a b = true).Perm reports :=
    List.perm_insertionSort _ _
  have hkeys := hperm.map DimensionReport.dimension
  rw [hdims] at hkeys
  generalize reports.insertionSort (fun a b => reportLe a b = true) = sorted at hperm hkeys
  have hsame : (sorted.mapIdx fun i e => { e with rank := i + 1 }).map DimensionReport.dimension =
      sorted.map DimensionReport.dimension :=
    List.ext_getElem (by simp) fun i _ _ => by simp
  refine ⟨?_, fun d => ?_, ?_, fun e he => ?_, fun e he => ?_⟩
  · rw [hsame, hkeys.nodup_iff]
    exact (tallies h rows).nodup
  · rw [hsame, hkeys.mem_iff]
    exact mem_tallies_keys
  · exact List.ext_getElem (by simp) fun i _ _ => by simp [Nat.add_comm]
  · obtain ⟨i, hi, rfl⟩ := List.mem_mapIdx.mp he
    exact (hcounts _ (hperm.mem_iff.mp (List.getElem_mem hi))).1.withRank _
  · obtain ⟨i, hi, rfl⟩ := List.mem_mapIdx.mp he
    exact (hcounts _ (hperm.mem_iff.mp (List.getElem_mem hi))).2

theorem reportDimensions_counts {entries : List DimensionReport}
    (he : reportDimensions h sqrt config rows = some entries) :
    EntriesCount h config rows entries := by
  unfold reportDimensions at he
  split at he
  · rename_i hnone
    obtain rfl := Option.some_inj.mp he
    rw [← List.countP_eq_length_filter, List.countP_eq_zero] at hnone
    refine ⟨List.nodup_nil, fun d => ?_, rfl, by simp, by simp⟩
    refine iff_of_false (by simp) ?_
    rintro ⟨row, hrow, hcarries⟩
    exact hnone row hrow (Bool.and_eq_true_iff.mp hcarries).1
  · exact rankAndRecommend_counts he

theorem buildAttributionReport_dimensions {report : Report}
    (hr : buildAttributionReport h sqrt config rows = some report) :
    EntriesCount h config rows report.dimensions := by
  obtain ⟨entries, he, hr⟩ := Option.bind_eq_some_iff.mp hr
  obtain rfl := Option.some_inj.mp hr
  exact reportDimensions_counts he

/-- Every number of a report counts rows of the journal. -/
theorem report_counts (h : Host) (sqrt : F64 → F64) (config : Thresholds) (rows : List PyVal)
    (report : Report) (hr : buildAttributionReport h sqrt config rows = some report) :
    report.totalScored = rows.countP (isScoredTrade h) ∧
      report.backtestScored =
        rows.countP (fun row => isScoredTrade h row && isBacktestSource h row) ∧
      report.backtestScored + report.liveScored = report.totalScored ∧
      EntriesCount h config rows report.dimensions := by
  have hdimensions := buildAttributionReport_dimensions hr
  obtain ⟨entries, -, hr⟩ := Option.bind_eq_some_iff.mp hr
  obtain rfl := Option.some_inj.mp hr
  have hscored : ∀ q : PyVal → Bool, ((rows.filter (isScoredTrade h)).filter q).length =
      rows.countP fun row => isScoredTrade h row && q row := by
    intro q
    rw [List.filter_filter, List.countP_eq_length_filter]
    simp only [Bool.and_comm]
  refine ⟨List.countP_eq_length_filter.symm, hscored _, ?_, hdimensions⟩
  dsimp only
  rw [hscored, hscored, countP_split, List.countP_eq_length_filter]

/-- The default thresholds, but for the samples they ask for. -/
def sampleThresholds : Thresholds where
  minSampleDimension := 2
  minSampleValue := 1
  contributionThreshold := .fin (15 / 100)
  globalMinScored := 50
  downWeightFactor := defaultDownWeightFactor

def sampleTrade (setupKey status source : String) (rMultiple : ℚ) : Kwargs :=
  [("setup_key", .str setupKey), ("status", .str status), ("r_multiple", .float (.fin rMultiple)),
    ("source", .str source), ("symbol", .str "RELIANCE")]

/-- A trade won in a trend and a trade lost in a range, both long. -/
def sampleTrades : List Kwargs :=
  [sampleTrade "dir:BUY|regime:trend-favorable" "win" "live" 1,
    sampleTrade "dir:BUY|regime:range-neutral" "loss" "backtest" (-1),
    sampleTrade "dir:BUY|regime:range-neutral" "open" "live" 0]

theorem report_counts_trades : ∃ report,
    buildAttributionReport Agent.sampleHost (fun x => x) sampleThresholds
        (sampleTrades.map .dict) = some report ∧
      report.dimensions.map (fun e => (e.dimension, e.totalScored, e.recommendation)) =
        [("regime", 2, .keep), ("dir", 2, .downWeight)] ∧
      EntriesCount Agent.sampleHost sampleThresholds (sampleTrades.map .dict)
        report.dimensions := by
  have hrun : (buildAttributionReport Agent.sampleHost (fun x => x) sampleThresholds
      (sampleTrades.map .dict)).map (fun report =>
        report.dimensions.map fun e => (e.dimension, e.totalScored, e.recommendation)) =
      some [("regime", 2, .keep), ("dir", 2, .downWeight)] := by decide +kernel
  obtain ⟨report, hreport, hentries⟩ := Option.map_eq_some_iff.mp hrun
  exact ⟨report, hreport, hentries,
    (report_counts Agent.sampleHost _ sampleThresholds _ report hreport).2.2.2⟩

end

end AiTrader.Attribution
