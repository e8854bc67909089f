import AiTrader.Journal.Attribution
import AiTrader.Library.Rounding

/-! # The weights of the dimensions

`derive_weight_map` of `attribution.py` and `_apply_weight_map_to_conviction` of `graph.py`: the
conviction of a decision is scaled by the mean of the weights that the journal gives to the
dimensions of its own fingerprint.

* `applyWeightMap`: the decision after it.
* `weight_map_attenuates`: what the weights can do to a decision. -/

namespace AiTrader.Attribution

open Agent (Host)
open Journal (parseSetupKey deriveSetupTags deriveSetupTags_eq parseSetupKey_fields setupKeyFromTags
  dimensions Plain plain_buy actionText)

/-! ### The weights -/

/-- The factor, or its default when it is no weight. -/
def usableFactor (factor : F64) : F64 :=
  if !factor.isFinite || F64.le factor (.fin 0) || F64.lt (.fin 1) factor then
    defaultDownWeightFactor
  else factor

def weightOf (factor : F64) : Recommendation → F64
  | .downWeight => factor
  | .keep => .fin 1
  | .insufficientSample => .fin 1

def deriveWeightMap (report : Report) (config : Thresholds) : Dict String F64 :=
  report.dimensions.foldl
    (fun weights e => weights.put e.dimension
      (weightOf (usableFactor config.downWeightFactor) e.recommendation)) Table.empty

/-- A row of the symbol. -/
def hasSymbol (symbol : String) (row : Kwargs) : Bool :=
  match row.get "symbol" with
  | .str s => decide (s = symbol)
  | _ => false

/-- `_read_scored_rows(symbol)`; `none` is a failed read. -/
def readScoredRows (trades : Option (List Kwargs)) (symbol : Option String) :
    Option (List PyVal) :=
  trades.map fun rows =>
    (match symbol with
      | none => rows
      | some s => rows.filter (hasSymbol s)).map .dict

section
variable (h : Host) (sqrt : F64 → F64) (config : AttributionConfig)

/-- `attribution_report_from_journal`: a failed read counts as an empty journal. -/
def attributionReportFromJournal (trades : Option (List Kwargs)) (symbol : Option String) :
    Option Report :=
  buildAttributionReport h sqrt config.toThresholds ((readScoredRows trades symbol).getD [])

def weightMapFromJournal (trades : Option (List Kwargs)) (symbol : Option String) :
    Option (Dict String F64) :=
  (attributionReportFromJournal h sqrt config trades symbol).map fun report =>
    deriveWeightMap report config.toThresholds

/-- The weights that a decision gets; a report that raises leaves every one neutral. -/
def journalWeights (trades : Option (List Kwargs)) (symbol : Option String) : Dict String F64 :=
  (weightMapFromJournal h sqrt config trades symbol).getD Table.empty

/-- `int(round(x))`; `none` where it raises. -/
def roundToInt : F64 → Option ℤ
  | .fin q => some (roundHalfEven q)
  | _ => none

/-- `conviction * mean_weight`, for an int or a float that is not a bool; `none` where it raises. -/
def scaleConviction (conviction : PyVal) (meanWeight : F64) : Option F64 :=
  match conviction with
  | .int z => if (h.rnd z).isFinite then some (F64.mul h.rnd (h.rnd z) meanWeight) else none
  | .float x => some (F64.mul h.rnd x meanWeight)
  | _ => none

/-- `sum(applied.values()) / len(applied)`. -/
def meanWeight (applied : List (String × F64)) : F64 :=
  F64.div h.rnd (F64.pySum h.rnd (applied.map Prod.snd)) (h.rnd applied.length)

/-- The weights of the dimensions of a decision. -/
def appliedWeights (weights : Dict String F64) (tags : List String) : List (String × F64) :=
  (parseSetupKey h (.str (setupKeyFromTags tags))).rows.map fun f =>
    (f.1, (weights.get? f.1).getD (.fin 1))

/-- The record with the weights in it. -/
def recordWeights (record : Kwargs) (applied : List (String × F64)) : Kwargs :=
  (record.set "weight_map_applied" (.bool true)).set "weight_map"
    (.dict (applied.map fun w => (w.1, .float w.2)))

/-- The decision with its conviction scaled. -/
def setConviction (decision record : Kwargs) (conviction : PyVal) (scaled : ℤ) : Kwargs :=
  (decision.set "defensibility"
    (.dict ((record.set "conviction_before_weight_map" conviction).set
      "conviction_after_weight_map" (.int scaled)))).set "conviction_score" (.int scaled)

/-- `_apply_weight_map_to_conviction`. -/
def applyWeightMap (trades : Option (List Kwargs)) (symbol : Option String) (decision : Kwargs) :
    Kwargs :=
  if config.weightMapEnabled = false then decision
  else
    match decision.get "defensibility", deriveSetupTags h decision with
    | .dict record, some tags =>
        let applied := appliedWeights h (journalWeights h sqrt config trades symbol) tags
        let record := recordWeights record applied
        let conviction := decision.get "conviction_score"
        match if applied = [] then none
          else (scaleConviction h conviction (meanWeight h applied)).bind roundToInt with
        | none => decision.set "defensibility" (.dict record)
        | some scaled =>
            setConviction decision record conviction
              (if scaled < 0 then 0 else if 100 < scaled then 100 else scaled)
    | _, _ => decision

end

/-! ### The weights that are derived -/

theorem usableFactor_isFraction (factor : F64) : F64.IsFraction (usableFactor factor) := by
  unfold usableFactor
  split
  · exact ⟨1 / 2, rfl, by norm_num, by norm_num⟩
  · rename_i hrange
    simp only [Bool.or_eq_true, Bool.not_eq_true', not_or, Bool.not_eq_false,
      Bool.not_eq_true] at hrange
    obtain ⟨⟨hfinite, hlow⟩, hhigh⟩ := hrange
    obtain ⟨q, rfl⟩ := F64.isFinite_iff.mp hfinite
    exact ⟨q, rfl, by simpa using hlow, by simpa using hhigh⟩

theorem weightOf_isFraction {factor : F64} (hf : F64.IsFraction factor) (rec : Recommendation) :
    F64.IsFraction (weightOf factor rec) := by
  cases rec with
  | downWeight => exact hf
  | keep => exact F64.isFraction_one
  | insufficientSample => exact F64.isFraction_one

theorem weightOf_ne_one {factor : F64} {rec : Recommendation} (h : weightOf factor rec ≠ .fin 1) :
    rec = .downWeight := by
  cases rec with
  | downWeight => rfl
  | keep => exact absurd rfl h
  | insufficientSample => exact absurd rfl h

section
variable {h : Host} {sqrt : F64 → F64} {config : AttributionConfig} {report : Report}
  {trades : Option (List Kwargs)} {symbol : Option String} {weights : Dict String F64}
  {d : String} {w : F64}

theorem deriveWeightMap_get? {thresholds : Thresholds}
    (hw : (deriveWeightMap report thresholds).get? d = some w) :
    ∃ e ∈ report.dimensions, e.dimension = d ∧
      w = weightOf (usableFactor thresholds.downWeightFactor) e.recommendation := by
  have heq : deriveWeightMap report thresholds = Dict.ofList (report.dimensions.map fun e =>
      (e.dimension, weightOf (usableFactor thresholds.downWeightFactor) e.recommendation)) := by
    rw [Dict.ofList, List.foldl_map]
    rfl
  rw [heq] at hw
  obtain ⟨e, he, hpair⟩ := List.mem_map.mp (Dict.mem_of_get?_ofList hw)
  cases hpair
  exact ⟨e, he, rfl, rfl⟩

/-- The journal has enough scored rows that carry the dimension, and what it contributes is below
the threshold. -/
def DownWeighted (h : Host) (sqrt : F64 → F64) (config : AttributionConfig)
    (trades : Option (List Kwargs)) (symbol : Option String) (d : String) : Prop :=
  config.minSampleDimension ≤ (((readScoredRows trades symbol).getD []).countP (carries h d) : ℕ) ∧
    ∃ report e x, attributionReportFromJournal h sqrt config trades symbol = some report ∧
      e ∈ report.dimensions ∧ e.dimension = d ∧ e.contribution = some x ∧
      F64.lt x config.contributionThreshold = true

theorem recommend_downWeight {thresholds : Thresholds} {total : ℕ} {contribution : Option F64}
    (hrec : recommend thresholds total contribution = .downWeight) :
    thresholds.minSampleDimension ≤ total ∧
      ∃ x, contribution = some x ∧ F64.lt x thresholds.contributionThreshold = true := by
  unfold recommend at hrec
  split at hrec
  · cases hrec
  · rename_i hsample
    refine ⟨not_lt.mp hsample, ?_⟩
    cases contribution with
    | none => cases hrec
    | some x =>
        refine ⟨x, rfl, ?_⟩
        dsimp only at hrec
        split at hrec
        · assumption
        · cases hrec

variable (h sqrt config trades symbol) in
theorem journalWeights_spec (d : String) :
    F64.IsFraction (((journalWeights h sqrt config trades symbol).get? d).getD (.fin 1)) ∧
      (((journalWeights h sqrt config trades symbol).get? d).getD (.fin 1) ≠ .fin 1 →
        DownWeighted h sqrt config trades symbol d) := by
  cases hw : (journalWeights h sqrt config trades symbol).get? d with
  | none => exact ⟨F64.isFraction_one, fun hne => absurd rfl hne⟩
  | some w =>
      unfold journalWeights weightMapFromJournal at hw
      cases hreport : attributionReportFromJournal h sqrt config trades symbol with
      | none =>
          rw [hreport] at hw
          cases hw
      | some report =>
          rw [hreport] at hw
          obtain ⟨e, he, rfl, rfl⟩ := deriveWeightMap_get? hw
          refine ⟨weightOf_isFraction (usableFactor_isFraction _) _, fun hne => ?_⟩
          have hentries := buildAttributionReport_dimensions hreport
          have hrec := hentries.recommended e he
          rw [weightOf_ne_one hne] at hrec
          obtain ⟨hsample, x, hx, hlt⟩ := recommend_downWeight hrec.symm
          rw [(hentries.counts e he).total] at hsample
          exact ⟨hsample, report, e, x, hreport, he, rfl, hx, hlt⟩

end

/-! ### The conviction that is scaled -/

section
variable {h : Host} {r : ℚ → ℚ} {ws : List ℚ} {applied : List (String × F64)} {m p : ℚ} {c : ℤ}

open F64 (grain)

theorem mean_le_one (hws : ∀ w ∈ ws, 0 < w ∧ w ≤ 1) :
    0 ≤ ws.sum / ws.length ∧ ws.sum / ws.length ≤ 1 := by
  have hsum : ws.sum ≤ ws.length := by
    have hle := List.sum_le_card_nsmul ws 1 fun w hw => (hws w hw).2
    rwa [nsmul_one] at hle
  exact ⟨div_nonneg (List.sum_nonneg fun w hw => (hws w hw).1.le) (Nat.cast_nonneg _),
    div_le_one_of_le₀ hsum (Nat.cast_nonneg _)⟩

theorem mean_eq_one (hws : ∀ w ∈ ws, w = 1) (hne : ws ≠ []) : ws.sum / ws.length = 1 := by
  rw [List.eq_replicate_of_mem hws, List.sum_replicate, List.length_replicate, nsmul_one]
  exact div_self (Nat.cast_ne_zero.mpr (mt List.length_eq_zero_iff.mp hne))

theorem meanWeight_near (hr : F64.RoundsBy h.rnd r) (hws : ∀ w ∈ ws, 0 < w ∧ w ≤ 1) (hne : ws ≠ [])
    (hn : ws.length ≤ 2 ^ 20) (happlied : applied.map Prod.snd = ws.map F64.fin) :
    ∃ m, meanWeight h applied = .fin m ∧ |m - ws.sum / ws.length| ≤ 7 * grain := by
  have hlen : applied.length = ws.length := by
    have hmap := congrArg List.length happlied
    rwa [List.length_map, List.length_map] at hmap
  obtain ⟨s, hs, hnear⟩ := F64.pySum_near hr
    (fun w hw => abs_le.mpr ⟨by linarith [(hws w hw).1], (hws w hw).2⟩) hne hn
  have hpos : (1 : ℚ) ≤ ws.length :=
    Nat.one_le_cast.mpr (List.length_pos_iff.mpr hne)
  have hn' : (ws.length : ℚ) ≤ 2 ^ 20 := by exact_mod_cast hn
  have hint : r ws.length = ws.length := by
    have hcast := hr.rounding.intCast (k := ws.length) (by
      rw [abs_of_nonneg (Int.natCast_nonneg _)]
      exact (Int.ofNat_le.mpr hn).trans (by norm_num))
    exact_mod_cast hcast
  have hfin : h.rnd ws.length = .fin ws.length := by
    rw [hr.rnd_small (by rw [abs_of_nonneg (by linarith)]; exact hn'), hint]
  have hmean : |s / ws.length - ws.sum / ws.length| ≤ 6 * grain := by
    rw [← sub_div, abs_div, abs_of_nonneg (by linarith : (0 : ℚ) ≤ ws.length),
      div_le_iff₀ (by linarith), mul_comm]
    exact hnear
  have hsize : |ws.sum / ws.length| ≤ 1 := by
    rw [abs_of_nonneg (mean_le_one hws).1]
    exact (mean_le_one hws).2
  have hgrain : grain ≤ 1 := by norm_num [grain]
  obtain ⟨hrnd, hround⟩ := hr.grain_near hmean (by linarith)
  refine ⟨r (s / ws.length), ?_, by linarith⟩
  rw [meanWeight, happlied, hs, hlen, hfin, F64.div_fin (by linarith), hrnd]

theorem scaleConviction_near (hr : F64.RoundsBy h.rnd r) (hc : 0 ≤ c) (hc' : c ≤ 100) {a : ℚ}
    (hm : |m - a| ≤ 7 * grain) (ha : |a| ≤ 1) :
    ∃ p, scaleConviction h (.int c) (.fin m) = some (.fin p) ∧ |p - c * a| ≤ 1 / 4 := by
  have hc₀ : (0 : ℚ) ≤ c := Int.cast_nonneg hc
  have hc₁ : (c : ℚ) ≤ 100 := by exact_mod_cast hc'
  have hsize : |(c : ℚ)| ≤ 100 := by rwa [abs_of_nonneg hc₀]
  have hfin : h.rnd c = .fin c := by
    rw [hr.rnd_small (hsize.trans (by norm_num)), hr.rounding.intCast]
    rw [abs_of_nonneg hc]
    exact hc'.trans (by norm_num)
  have hprod : |c * m - c * a| ≤ 700 * grain := by
    rw [← mul_sub, abs_mul]
    have hle := mul_le_mul hsize hm (abs_nonneg _) (by norm_num)
    linarith
  have hmul : |(c : ℚ) * a| ≤ 100 := by
    rw [abs_mul]
    have hle := mul_le_mul hsize ha (abs_nonneg _) (by norm_num)
    linarith
  have hgrain : 701 * grain ≤ 1 / 4 := by norm_num [grain]
  have hpos := F64.grain_pos
  obtain ⟨hrnd, hround⟩ := hr.grain_near hprod (by linarith)
  refine ⟨r (c * m), ?_, by linarith⟩
  rw [scaleConviction, hfin, if_pos F64.isFinite_fin, F64.mul_fin, hrnd]

/-- A number that is near `c * a`, rounded, is between 0 and `c`, and `c` where `a` is 1. -/
theorem roundHalfEven_scaled {a : ℚ} (hp : |p - c * a| ≤ 1 / 4) (hc : 0 ≤ c) (ha : 0 ≤ a)
    (ha' : a ≤ 1) : 0 ≤ roundHalfEven p ∧ roundHalfEven p ≤ c ∧ (a = 1 → roundHalfEven p = c) := by
  obtain ⟨hlow, hhigh⟩ := abs_le.mp hp
  have hc₀ : (0 : ℚ) ≤ c := Int.cast_nonneg hc
  have hnonneg := mul_nonneg hc₀ ha
  have hle := mul_le_of_le_one_right hc₀ ha'
  have hupper : roundHalfEven p ≤ c := roundHalfEven_le (by linarith)
  refine ⟨le_roundHalfEven (by push_cast; linarith), hupper, ?_⟩
  rintro rfl
  exact le_antisymm hupper (le_roundHalfEven (by linarith))

end

section
variable {h : Host} {r : ℚ → ℚ} {sqrt : F64 → F64} {config : AttributionConfig}
  {trades : Option (List Kwargs)} {symbol : Option String} {decision record : Kwargs}
  {tags : List String} {weights : Dict String F64} {c : ℤ}

/-- The dimensions of a decision are those of every decision. -/
theorem appliedWeights_eq (ht : deriveSetupTags h decision = some tags)
    (haction : Plain h (actionText h decision)) :
    appliedWeights h weights tags =
      dimensions.map fun d => (d, (weights.get? d).getD (.fin 1)) := by
  obtain ⟨fields, hfields, rfl⟩ := deriveSetupTags_eq ht
  rw [appliedWeights, parseSetupKey_fields hfields haction, dimensions, ← hfields.keys,
    List.map_cons, List.map_cons, List.map_map]
  rfl

variable (sqrt config trades symbol) in
theorem scaled_spec (hr : F64.RoundsBy h.rnd r) (hc : 0 ≤ c) (hc' : c ≤ 100)
    (ht : deriveSetupTags h decision = some tags) (haction : Plain h (actionText h decision)) :
    ∃ k, (scaleConviction h (.int c)
        (meanWeight h (appliedWeights h (journalWeights h sqrt config trades symbol) tags))).bind
          roundToInt = some k ∧ 0 ≤ k ∧ k ≤ c ∧
      (k ≠ c → ∃ d ∈ dimensions, DownWeighted h sqrt config trades symbol d) := by
  have hspec := journalWeights_spec h sqrt config trades symbol
  choose q hq hpos hle using fun d => (hspec d).1
  have hws : ∀ w ∈ dimensions.map q, 0 < w ∧ w ≤ 1 := by
    rintro w hw
    obtain ⟨d, -, rfl⟩ := List.mem_map.mp hw
    exact ⟨hpos d, hle d⟩
  have hne : dimensions.map q ≠ [] := by simp [dimensions]
  have happlied : (appliedWeights h (journalWeights h sqrt config trades symbol) tags).map Prod.snd =
      (dimensions.map q).map F64.fin := by
    rw [appliedWeights_eq ht haction, List.map_map, List.map_map]
    exact List.map_congr_left fun d _ => hq d
  obtain ⟨m, hm, hnear⟩ := meanWeight_near hr hws hne (by
    rw [List.length_map]
    exact (by decide : dimensions.length ≤ 13).trans (by norm_num)) happlied
  obtain ⟨hlow, hhigh⟩ := mean_le_one hws
  obtain ⟨p, hp, hscaled⟩ := scaleConviction_near hr hc hc' hnear (by rwa [abs_of_nonneg hlow])
  obtain ⟨hk₀, hkc, hone⟩ := roundHalfEven_scaled hscaled hc hlow hhigh
  refine ⟨roundHalfEven p, ?_, hk₀, hkc, fun hne' => ?_⟩
  · rw [hm, hp]
    rfl
  · by_contra hnone
    push Not at hnone
    refine hne' (hone (mean_eq_one (fun w hw => ?_) hne))
    obtain ⟨d, hd, rfl⟩ := List.mem_map.mp hw
    have hneutral := mt (hspec d).2 (hnone d hd)
    rw [not_not, hq d] at hneutral
    exact F64.fin.inj hneutral

end

/-- The weights of the journal never raise the conviction of a decision and change nothing else
of it but its record, and the conviction falls only where a dimension of its own fingerprint is
down-weighted. -/
theorem weight_map_attenuates {r : ℚ → ℚ} (h : Host) (hr : F64.RoundsBy h.rnd r)
    (sqrt : F64 → F64) (config : AttributionConfig) (trades : Option (List Kwargs))
    (symbol : Option String) (decision : Kwargs) (c : ℤ)
    (hconviction : decision.get "conviction_score" = .int c) (hc : 0 ≤ c) (hc' : c ≤ 100)
    (haction : Plain h (actionText h decision)) :
    (∀ k, k ≠ "conviction_score" → k ≠ "defensibility" →
      (applyWeightMap h sqrt config trades symbol decision).get k = decision.get k) ∧
    ∃ c', (applyWeightMap h sqrt config trades symbol decision).get "conviction_score" = .int c' ∧
      0 ≤ c' ∧ c' ≤ c ∧
      (c' ≠ c → config.weightMapEnabled = true ∧
        ∃ d ∈ dimensions, DownWeighted h sqrt config trades symbol d) := by
  unfold applyWeightMap
  split
  · exact ⟨fun _ _ _ => rfl, c, hconviction, hc, le_rfl, fun hne => absurd rfl hne⟩
  · rename_i henabled
    split
    · rename_i record tags hrecord htags
      obtain ⟨k, hk, hk₀, hkc, hdown⟩ := scaled_spec sqrt config trades symbol hr hc hc' htags
        haction
      have hne : appliedWeights h (journalWeights h sqrt config trades symbol) tags ≠ [] := by
        rw [appliedWeights_eq htags haction]
        simp [dimensions]
      dsimp only
      rw [hconviction, if_neg hne, hk]
      dsimp only
      rw [if_neg (not_lt.mpr hk₀), if_neg (not_lt.mpr (hkc.trans hc'))]
      refine ⟨fun j hj hj' => ?_, k, Kwargs.get_set_self _ _ _, hk₀, hkc, fun hne' => ?_⟩
      · rw [setConviction, Kwargs.get_set_of_ne hj, Kwargs.get_set_of_ne hj']
      · exact ⟨by simpa using henabled, hdown hne'⟩
    · exact ⟨fun _ _ _ => rfl, c, hconviction, hc, le_rfl, fun hne => absurd rfl hne⟩

/-- A configuration that consults the weights of a small journal. -/
def consulting : AttributionConfig where
  toThresholds := sampleThresholds
  weightMapEnabled := true

/-- A long call without evidence. -/
def longDecision : Kwargs :=
  [("action", .str "BUY"), ("conviction_score", .int 80), ("defensibility", .dict [])]

theorem weight_map_attenuates_long : ∃ c',
    (applyWeightMap Agent.sampleHost (fun x => x) consulting (some sampleTrades) (some "RELIANCE")
      longDecision).get "conviction_score" = .int c' ∧ c' < 80 ∧
      ∃ d ∈ dimensions, DownWeighted Agent.sampleHost (fun x => x) consulting (some sampleTrades)
        (some "RELIANCE") d := by
  have hbuy : actionText Agent.sampleHost longDecision = "BUY" := by decide +kernel
  have hplain : Plain Agent.sampleHost (actionText Agent.sampleHost longDecision) :=
    hbuy.symm ▸ plain_buy
  have hscaled : Journal.doubleOf Agent.sampleHost
      ((applyWeightMap Agent.sampleHost (fun x => x) consulting (some sampleTrades)
        (some "RELIANCE") longDecision).get "conviction_score") = some (.fin 77) := by
    decide +kernel
  obtain ⟨-, c', hget, -, hle, hdown⟩ := weight_map_attenuates Agent.sampleHost F64.RoundsBy.exact
    (fun x => x) consulting (some sampleTrades) (some "RELIANCE") longDecision 80 rfl (by norm_num)
    (by norm_num) hplain
  rw [hget] at hscaled
  have hcast : (c' : ℚ) = 77 := F64.fin.inj (Option.some_inj.mp hscaled)
  have hc' : c' = 77 := by exact_mod_cast hcast
  exact ⟨c', hget, by omega, (hdown (by omega)).2⟩

end AiTrader.Attribution
