import AiTrader.Options.Config
import Mathlib.Algebra.BigOperators.Group.List.Basic
import Mathlib.Tactic.Ring

/-! # Open-interest buildup

`classify_oi_buildup`, `aggregate_oi_buildup` and the per-strike labels of `assemble_result`
(`src/agents/deep-quant-loop/options.py`).  The aggregate adds up the numbers of each snapshot and
takes the difference, so a value that only one snapshot has counts as a change from zero, or to
it; a strike of its own has no direction then.  `aggregate_eq_defined_iff` says when the two
readings give one label. -/

namespace AiTrader.Options

open F64 (finiteValue finiteValue_eq_some finiteOrZero)

inductive OiBuildup where
  | longBuildup
  | shortBuildup
  | shortCovering
  | longUnwinding
  | neutral
  deriving DecidableEq

/-- The sign of a change outside its dead band, `0` inside. -/
def deadBandSign (epsilon d : F64) : ℤ :=
  if F64.lt epsilon (F64.abs d) then if F64.lt (.fin 0) d then 1 else -1 else 0

/-- The label of two signs. -/
def quadrant (oiSign priceSign : ℤ) : OiBuildup :=
  if oiSign = 0 ∨ priceSign = 0 then .neutral
  else if oiSign > 0 then if priceSign > 0 then .longBuildup else .shortBuildup
  else if priceSign > 0 then .shortCovering else .longUnwinding

/-- A dead band that is not a number, or is negative, is the default. -/
def usableEpsilon (epsilon default : F64) : F64 :=
  if epsilon.isFinite && F64.le (.fin 0) epsilon then epsilon else default

/-- `classify_oi_buildup`. -/
def classifyOiBuildup (dOi dPrice : F64) (config : OptionsConfig) : OiBuildup :=
  if !(dOi.isFinite && dPrice.isFinite) then .neutral
  else
    let oiEps := usableEpsilon config.buildupOiEpsilon defaultBuildupOiEpsilon
    let priceEps := usableEpsilon config.buildupPriceEpsilon defaultBuildupPriceEpsilon
    quadrant (deadBandSign oiEps dOi) (deadBandSign priceEps dPrice)

def OptionKind.oi : OptionKind → StrikeQuote → Option F64
  | call => StrikeQuote.ceOi
  | put => StrikeQuote.peOi

def OptionKind.price : OptionKind → StrikeQuote → Option F64
  | call => StrikeQuote.cePrice
  | put => StrikeQuote.pePrice

/-- `prior_by_strike.get(strike)`: the first quote with that strike. -/
def priorByStrike (prior : ChainSnapshot) (strike : F64) : Option StrikeQuote :=
  (prior.strikes.filter fun q => q.strike.isFinite).find? fun q => q.strike = strike

/-- The quotes of the latest snapshot with their matches in the prior one. -/
def matchedQuotes (latest prior : ChainSnapshot) : List (StrikeQuote × StrikeQuote) :=
  (latest.strikes.filter fun q => q.strike.isFinite).filterMap fun q =>
    (priorByStrike prior q.strike).map fun p => (q, p)

section
variable (rnd : ℚ → F64) (C : Text.Casing)

/-- The difference of the two totals of a field over the matched quotes. -/
def totalsChange (field : StrikeQuote → Option F64) (pairs : List (StrikeQuote × StrikeQuote)) :
    F64 :=
  F64.sub rnd (sumFinite rnd (pairs.map fun p => field p.1))
    (sumFinite rnd (pairs.map fun p => field p.2))

/-- `aggregate_oi_buildup`. -/
def aggregateOiBuildup (latest : ChainSnapshot) (prior : Option ChainSnapshot)
    (config : OptionsConfig) (side : String) : OiBuildup :=
  match prior with
  | none => .neutral
  | some prior =>
      match normalizeOptionType C side with
      | none => .neutral
      | some kind =>
          if latest.strikes.isEmpty || prior.strikes.isEmpty then .neutral
          else if (prior.strikes.filter fun q => q.strike.isFinite).isEmpty then .neutral
          else
            let pairs := matchedQuotes latest prior
            if pairs.isEmpty then .neutral
            else
              classifyOiBuildup (totalsChange rnd kind.oi pairs) (totalsChange rnd kind.price pairs)
                config

/-- `_signed_delta`. -/
def signedDelta (latestVal priorVal : Option F64) : F64 :=
  match latestVal, priorVal with
  | some a, some b => if a.isFinite && b.isFinite then F64.sub rnd a b else .nan
  | _, _ => .nan

/-- The label of one strike in `assemble_result`. -/
def strikeBuildup (prior : Option ChainSnapshot) (config : OptionsConfig) (kind : OptionKind)
    (q : StrikeQuote) : OiBuildup :=
  match prior with
  | none => .neutral
  | some prior =>
      if q.strike.isFinite then
        match priorByStrike prior q.strike with
        | none => .neutral
        | some p =>
            classifyOiBuildup (signedDelta rnd (kind.oi q) (kind.oi p))
              (signedDelta rnd (kind.price q) (kind.price p)) config
      else .neutral

end

/-! ### The changes over the shared strikes -/

/-- The quotes of two snapshots with the same strike, a number. -/
def sharedQuotes (latest prior : ChainSnapshot) : List (StrikeQuote × StrikeQuote) :=
  latest.strikes.flatMap fun q =>
    (prior.strikes.filter fun p => p.strike.isFinite && decide (p.strike = q.strike)).map fun p =>
      (q, p)

/-- The change of a value, when both snapshots have it. -/
def definedChange (latestVal priorVal : Option F64) : Option ℚ :=
  match finiteValue latestVal, finiteValue priorVal with
  | some a, some b => some (a - b)
  | _, _ => none

/-- The sum of the changes that are defined. -/
def definedChanges (field : StrikeQuote → Option F64)
    (pairs : List (StrikeQuote × StrikeQuote)) : ℚ :=
  (pairs.map fun p => (definedChange (field p.1) (field p.2)).getD 0).sum

/-- The sum of the changes with a missing value read as zero. -/
def netChange (field : StrikeQuote → Option F64) (pairs : List (StrikeQuote × StrikeQuote)) : ℚ :=
  (pairs.map fun p => finiteOrZero (field p.1) - finiteOrZero (field p.2)).sum

/-- No shared strike has the value in one snapshot only. -/
def TwoSided (field : StrikeQuote → Option F64) (pairs : List (StrikeQuote × StrikeQuote)) : Prop :=
  ∀ p ∈ pairs, isFinite (field p.1) = isFinite (field p.2)

/-- The totals of a field over the pairs need no rounding. -/
structure Representable (rnd : ℚ → F64) (field : StrikeQuote → Option F64)
    (pairs : List (StrikeQuote × StrikeQuote)) : Prop where
  latest : TotalsExact rnd (pairs.map fun p => field p.1)
  prior : TotalsExact rnd (pairs.map fun p => field p.2)
  change : rnd (netChange field pairs) = .fin (netChange field pairs)

/-- The two signs that a label is read off. -/
def signs (config : OptionsConfig) (dOi dPrice : ℚ) : ℤ × ℤ :=
  (deadBandSign (usableEpsilon config.buildupOiEpsilon defaultBuildupOiEpsilon) (.fin dOi),
    deadBandSign (usableEpsilon config.buildupPriceEpsilon defaultBuildupPriceEpsilon) (.fin dPrice))

section
variable {rnd : ℚ → F64} {C : Text.Casing} {config : OptionsConfig} {latest prior : ChainSnapshot}
  {field : StrikeQuote → Option F64} {pairs : List (StrikeQuote × StrikeQuote)}
  {latestVal priorVal : Option F64}

theorem netChange_eq_sub (field : StrikeQuote → Option F64)
    (pairs : List (StrikeQuote × StrikeQuote)) :
    netChange field pairs = ((pairs.map fun p => field p.1).map finiteOrZero).sum -
      ((pairs.map fun p => field p.2).map finiteOrZero).sum := by
  induction pairs with
  | nil => simp [netChange]
  | cons p pairs ih =>
      rw [netChange] at ih ⊢
      simp only [List.map_cons, List.sum_cons, ih]
      ring

/-- Without rounding the difference of the totals is the sum of the changes. -/
theorem totalsChange_eq (h : Representable rnd field pairs) :
    totalsChange rnd field pairs = .fin (netChange field pairs) := by
  rw [totalsChange, sumFinite_of_exact h.latest, sumFinite_of_exact h.prior, F64.sub_fin,
    ← netChange_eq_sub, h.change]

theorem representable_exact (field : StrikeQuote → Option F64)
    (pairs : List (StrikeQuote × StrikeQuote)) : Representable F64.fin field pairs where
  latest _ _ := rfl
  prior _ _ := rfl
  change := rfl

/-- A value on one side only is what the two sums differ by. -/
theorem definedChange_of_two_sided (h : isFinite latestVal = isFinite priorVal) :
    (definedChange latestVal priorVal).getD 0 = finiteOrZero latestVal - finiteOrZero priorVal := by
  rw [isFinite_eq, isFinite_eq] at h
  cases hlatest : finiteValue latestVal <;> cases hprior : finiteValue priorVal <;>
    simp_all [definedChange, finiteOrZero]

theorem definedChanges_of_twoSided (h : TwoSided field pairs) :
    definedChanges field pairs = netChange field pairs := by
  rw [definedChanges, netChange]
  congr 1
  exact List.map_congr_left fun p hp => definedChange_of_two_sided (h p hp)

theorem signedDelta_of_one_sided (rnd : ℚ → F64) (h : isFinite latestVal ≠ isFinite priorVal) :
    signedDelta rnd latestVal priorVal = .nan := by
  unfold signedDelta
  split
  · rename_i a b
    rw [isFinite_some, isFinite_some] at h
    rw [if_neg]
    cases ha : a.isFinite <;> simp_all
  · rfl

/-! ### Labels -/

theorem classify_fin (dOi dPrice : ℚ) :
    classifyOiBuildup (.fin dOi) (.fin dPrice) config =
      quadrant (signs config dOi dPrice).1 (signs config dOi dPrice).2 := rfl

theorem deadBandSign_cases (epsilon d : F64) :
    deadBandSign epsilon d = 0 ∨ deadBandSign epsilon d = 1 ∨ deadBandSign epsilon d = -1 := by
  unfold deadBandSign
  split
  · split
    · exact .inr (.inl rfl)
    · exact .inr (.inr rfl)
  · exact .inl rfl

/-- Two pairs of signs have one label when they are the same, or each has a zero. -/
theorem quadrant_eq_iff {a b c d : ℤ} (ha : a = 0 ∨ a = 1 ∨ a = -1) (hb : b = 0 ∨ b = 1 ∨ b = -1)
    (hc : c = 0 ∨ c = 1 ∨ c = -1) (hd : d = 0 ∨ d = 1 ∨ d = -1) :
    quadrant a b = quadrant c d ↔
      (a = c ∧ b = d) ∨ ((a = 0 ∨ b = 0) ∧ (c = 0 ∨ d = 0)) := by
  rcases ha with rfl | rfl | rfl <;> rcases hb with rfl | rfl | rfl <;>
    rcases hc with rfl | rfl | rfl <;> rcases hd with rfl | rfl | rfl <;> decide

theorem classify_zero (dPrice : F64) : classifyOiBuildup (.fin 0) dPrice config = .neutral := by
  have hsign : deadBandSign
      (usableEpsilon config.buildupOiEpsilon defaultBuildupOiEpsilon) (.fin 0) = 0 := by
    rw [deadBandSign, if_neg]
    rw [Bool.not_eq_true, F64.abs_fin, abs_zero]
    apply F64.not_lt_of_le
    rw [usableEpsilon]
    split
    · rename_i h
      exact (Bool.and_eq_true _ _ ▸ h).2
    · rfl
  unfold classifyOiBuildup
  split
  · rfl
  · simp [hsign, quadrant]

/-! ### The matched quotes are the shared ones -/

/-- Under distinct strikes the first match is the only one. -/
theorem priorByStrike_toList (hdistinct : (listedStrikes prior.strikes).Nodup) (strike : F64) :
    (priorByStrike prior strike).toList =
      prior.strikes.filter fun p => p.strike.isFinite && decide (p.strike = strike) := by
  have hfirst : priorByStrike prior strike = (prior.strikes.filter fun p =>
      p.strike.isFinite && decide (p.strike = strike)).head? := by
    rw [priorByStrike, List.find?_filter, List.head?_filter]
    congr 1
    funext p
    simp
  rw [hfirst]
  generalize hmatches : (prior.strikes.filter fun p =>
    p.strike.isFinite && decide (p.strike = strike)) = quotes
  match quotes with
  | [] => rfl
  | [p] => rfl
  | p :: p' :: rest =>
      -- two matches would be one listed strike twice
      have hmem : ∀ x ∈ p :: p' :: rest, x.strike.isFinite ∧ x.strike = strike := by
        intro x hx
        rw [← hmatches, List.mem_filter] at hx
        simpa using hx.2
      obtain ⟨hfinite, hp⟩ := hmem p (by simp)
      obtain ⟨_, hp'⟩ := hmem p' (by simp)
      obtain ⟨k, hk⟩ := F64.isFinite_iff.mp hfinite
      have hsub : (listedStrikes (p :: p' :: rest)).Sublist (listedStrikes prior.strikes) := by
        rw [← hmatches]
        exact List.filter_sublist.filterMap _
      have hnodup := hsub.nodup hdistinct
      rw [hk] at hp
      simp [listedStrikes, hk, hp', ← hp, finiteValue] at hnodup

theorem matchedQuotes_eq (latest : ChainSnapshot)
    (hdistinct : (listedStrikes prior.strikes).Nodup) :
    matchedQuotes latest prior = sharedQuotes latest prior := by
  rw [matchedQuotes, sharedQuotes]
  induction latest.strikes with
  | nil => rfl
  | cons q quotes ih =>
      rw [List.flatMap_cons, ← priorByStrike_toList hdistinct, ← ih]
      by_cases hfinite : q.strike.isFinite = true
      · rw [List.filter_cons_of_pos (by exact hfinite), List.filterMap_cons]
        cases priorByStrike prior q.strike <;> rfl
      · have hnone : priorByStrike prior q.strike = none := by
          rw [priorByStrike, List.find?_eq_none]
          intro p hp heq
          rw [List.mem_filter, of_decide_eq_true heq] at hp
          exact hfinite hp.2
        rw [List.filter_cons_of_neg (by exact hfinite), hnone]
        rfl

/-- With nothing to compare, the label is that of no change. -/
theorem aggregate_eq {side : String} {kind : OptionKind}
    (hdistinct : (listedStrikes prior.strikes).Nodup)
    (hside : normalizeOptionType C side = some kind)
    (hoi : Representable rnd kind.oi (sharedQuotes latest prior))
    (hprice : Representable rnd kind.price (sharedQuotes latest prior)) :
    aggregateOiBuildup rnd C latest (some prior) config side =
      classifyOiBuildup (.fin (netChange kind.oi (sharedQuotes latest prior)))
        (.fin (netChange kind.price (sharedQuotes latest prior))) config := by
  rw [← totalsChange_eq hoi, ← totalsChange_eq hprice]
  have hempty : sharedQuotes latest prior = [] → OiBuildup.neutral =
      classifyOiBuildup (totalsChange rnd kind.oi (sharedQuotes latest prior))
        (totalsChange rnd kind.price (sharedQuotes latest prior)) config := by
    intro hnil
    rw [totalsChange_eq hoi, hnil]
    exact (classify_zero _).symm
  unfold aggregateOiBuildup
  dsimp only
  rw [hside, matchedQuotes_eq latest hdistinct]
  dsimp only
  split
  · rename_i hnone
    apply hempty
    rw [Bool.or_eq_true, List.isEmpty_iff, List.isEmpty_iff] at hnone
    rcases hnone with hnone | hnone
    · rw [sharedQuotes, hnone, List.flatMap_nil]
    · rw [sharedQuotes, List.flatMap_eq_nil_iff]
      intro q _
      rw [hnone]
      rfl
  · split
    · rename_i hnone
      apply hempty
      rw [← matchedQuotes_eq latest hdistinct, matchedQuotes, List.filterMap_eq_nil_iff]
      intro q _
      rw [priorByStrike, List.isEmpty_iff.mp hnone]
      rfl
    · split
      · rename_i hnone
        exact hempty (List.isEmpty_iff.mp hnone)
      · rfl

theorem signs_cases (config : OptionsConfig) (dOi dPrice : ℚ) :
    ((signs config dOi dPrice).1 = 0 ∨ (signs config dOi dPrice).1 = 1 ∨
        (signs config dOi dPrice).1 = -1) ∧
      ((signs config dOi dPrice).2 = 0 ∨ (signs config dOi dPrice).2 = 1 ∨
        (signs config dOi dPrice).2 = -1) :=
  ⟨deadBandSign_cases _ _, deadBandSign_cases _ _⟩

/-- The aggregate is the label of the defined changes exactly when the values on one side only do
not carry a sum across an edge of its dead band, or neither reading has a direction. -/
theorem aggregate_eq_defined_iff {side : String} {kind : OptionKind}
    (hdistinct : (listedStrikes prior.strikes).Nodup)
    (hside : normalizeOptionType C side = some kind)
    (hoi : Representable rnd kind.oi (sharedQuotes latest prior))
    (hprice : Representable rnd kind.price (sharedQuotes latest prior)) :
    let pairs := sharedQuotes latest prior
    let net := signs config (netChange kind.oi pairs) (netChange kind.price pairs)
    let defined := signs config (definedChanges kind.oi pairs) (definedChanges kind.price pairs)
    aggregateOiBuildup rnd C latest (some prior) config side =
        classifyOiBuildup (.fin (definedChanges kind.oi pairs))
          (.fin (definedChanges kind.price pairs)) config ↔
      (net.1 = defined.1 ∧ net.2 = defined.2) ∨
        ((net.1 = 0 ∨ net.2 = 0) ∧ (defined.1 = 0 ∨ defined.2 = 0)) := by
  intro pairs net defined
  rw [aggregate_eq hdistinct hside hoi hprice, classify_fin, classify_fin]
  exact quadrant_eq_iff (signs_cases _ _ _).1 (signs_cases _ _ _).2 (signs_cases _ _ _).1
    (signs_cases _ _ _).2

/-- A strike with a value in one snapshot only has no direction in `assemble_result`. -/
theorem strikeBuildup_of_one_sided (rnd : ℚ → F64) (config : OptionsConfig) {kind : OptionKind}
    (hdistinct : (listedStrikes prior.strikes).Nodup) {p : StrikeQuote × StrikeQuote}
    (hp : p ∈ sharedQuotes latest prior)
    (h : isFinite (kind.oi p.1) ≠ isFinite (kind.oi p.2) ∨
      isFinite (kind.price p.1) ≠ isFinite (kind.price p.2)) :
    strikeBuildup rnd (some prior) config kind p.1 = .neutral := by
  rw [← matchedQuotes_eq latest hdistinct, matchedQuotes, List.mem_filterMap] at hp
  obtain ⟨q, hq, hmatch⟩ := hp
  obtain ⟨p', hp', rfl⟩ := Option.map_eq_some_iff.mp hmatch
  rw [List.mem_filter] at hq
  simp only [strikeBuildup, hq.2, if_true, hp']
  rcases h with h | h
  · rw [signedDelta_of_one_sided rnd h]
    rfl
  · rw [signedDelta_of_one_sided rnd h, classifyOiBuildup, if_pos]
    simp [F64.isFinite]

end

/-! ### A value on one side only -/

/-- **The aggregate label.** It is the label of the changes over the shared strikes with a missing
value read as zero; where every shared strike has both values or neither, that is the label of the
changes that are defined.  A strike with a value on one side only is neutral on its own. -/
theorem aggregate_label (rnd : ℚ → F64) (C : Text.Casing) (latest prior : ChainSnapshot)
    (config : OptionsConfig) (side : String) (hdistinct : (listedStrikes prior.strikes).Nodup)
    (hexact : ∀ kind, normalizeOptionType C side = some kind →
      Representable rnd kind.oi (sharedQuotes latest prior) ∧
        Representable rnd kind.price (sharedQuotes latest prior)) :
    (aggregateOiBuildup rnd C latest (some prior) config side =
      match normalizeOptionType C side with
      | none => .neutral
      | some kind =>
          classifyOiBuildup (.fin (netChange kind.oi (sharedQuotes latest prior)))
            (.fin (netChange kind.price (sharedQuotes latest prior))) config) ∧
    (∀ kind, normalizeOptionType C side = some kind → TwoSided kind.oi (sharedQuotes latest prior) →
      TwoSided kind.price (sharedQuotes latest prior) →
        aggregateOiBuildup rnd C latest (some prior) config side =
          classifyOiBuildup (.fin (definedChanges kind.oi (sharedQuotes latest prior)))
            (.fin (definedChanges kind.price (sharedQuotes latest prior))) config) ∧
    ∀ kind, ∀ p ∈ sharedQuotes latest prior,
      isFinite (kind.oi p.1) ≠ isFinite (kind.oi p.2) ∨
          isFinite (kind.price p.1) ≠ isFinite (kind.price p.2) →
        strikeBuildup rnd (some prior) config kind p.1 = .neutral := by
  refine ⟨?_, ?_, ?_⟩
  · cases hside : normalizeOptionType C side with
    | none =>
        unfold aggregateOiBuildup
        dsimp only
        rw [hside]
    | some kind =>
        obtain ⟨hoi, hprice⟩ := hexact kind hside
        exact aggregate_eq hdistinct hside hoi hprice
  · intro kind hside htwoOi htwoPrice
    obtain ⟨hoi, hprice⟩ := hexact kind hside
    rw [aggregate_eq hdistinct hside hoi hprice, definedChanges_of_twoSided htwoOi,
      definedChanges_of_twoSided htwoPrice]
  · intro kind p hp hone
    exact strikeBuildup_of_one_sided rnd config hdistinct hp hone

/-- The defaults. -/
def defaultConfig : OptionsConfig := resolveOptionsConfig ⟨fun _ => none, fun _ => none, fun _ => none⟩

/-- Two strikes: one unchanged but for its price, and one whose call open interest the prior
snapshot does not have. -/
def latestQuotes : ChainSnapshot :=
  ⟨[{ strike := .fin 100, ceOi := some (.fin 10), cePrice := some (.fin 6) },
    { strike := .fin 110, ceOi := some (.fin 50), cePrice := some (.fin 3) }]⟩

def priorQuotes : ChainSnapshot :=
  ⟨[{ strike := .fin 100, ceOi := some (.fin 10), cePrice := some (.fin 5) },
    { strike := .fin 110, ceOi := none, cePrice := some (.fin 3) }]⟩

theorem aggregate_label_calls :
    aggregateOiBuildup F64.fin .ascii latestQuotes (some priorQuotes) defaultConfig "CE" =
        .longBuildup ∧
      strikeBuildup F64.fin (some priorQuotes) defaultConfig .call
        { strike := .fin 110, ceOi := some (.fin 50), cePrice := some (.fin 3) } = .neutral := by
  obtain ⟨hlabel, _, hstrike⟩ := aggregate_label F64.fin .ascii latestQuotes priorQuotes
    defaultConfig "CE" (by decide +kernel)
    fun kind _ => ⟨representable_exact _ _, representable_exact _ _⟩
  refine ⟨?_, hstrike .call (⟨.fin 110, some (.fin 3), none, some (.fin 50), none⟩,
    ⟨.fin 110, some (.fin 3), none, none, none⟩) (by decide +kernel) (by decide +kernel)⟩
  rw [hlabel]
  decide +kernel

/-- No open interest changed on a strike that has both values, and still the calls are said to
build up. -/
theorem aggregate_not_defined_changes :
    ¬ ∀ (latest prior : ChainSnapshot) (config : OptionsConfig) (side : String),
      (listedStrikes latest.strikes).Nodup → (listedStrikes prior.strikes).Nodup →
        aggregateOiBuildup F64.fin .ascii latest (some prior) config side =
          match normalizeOptionType .ascii side with
          | none => .neutral
          | some kind =>
              classifyOiBuildup (.fin (definedChanges kind.oi (sharedQuotes latest prior)))
                (.fin (definedChanges kind.price (sharedQuotes latest prior))) config := by
  intro h
  have hcalls := h latestQuotes priorQuotes defaultConfig "CE" (by decide +kernel)
    (by decide +kernel)
  revert hcalls
  decide +kernel

end AiTrader.Options
