import AiTrader.TradeManager.BoundedLoss
import AiTrader.TradeManager.SizeConservation
import Mathlib.Algebra.BigOperators.Intervals
import Mathlib.Algebra.Order.BigOperators.Group.Finset

/-! # What the simulation pays of the validated reward

The validator returns the blended reward of all legs.  The simulation pays a leg's share of it when
the leg is filled at its full fraction, and where the fractions make the whole no leg is cut short
(`Sim.Paid`).  What is missing in the end are the legs that no candle filled; together they are at
most as large as the tolerance with which the simulation takes the position for closed. -/

namespace AiTrader.TradeManager

open Agent QuantCore Finset

/-- The number that a field holds. -/
def number (v : PyVal) : ℚ :=
  match comparable v with
  | some (.fin q) => q
  | _ => 0

theorem number_of_comparable {v : PyVal} {q : ℚ} (h : comparable v = some (.fin q)) :
    number v = q := by
  rw [number, h]

namespace Levels

variable (L : Levels)

/-- The fraction of leg `i`. -/
def weight (i : ℕ) : ℚ := (L.legs[i]?).elim 0 fun leg => number leg.fraction

/-- How far the target of leg `i` lies from the entry, in R. -/
def reward (i : ℕ) : ℚ :=
  (L.legs[i]?).elim 0 fun leg => |number leg.target - L.entry| / L.stopDistance

/-- Every leg has a positive fraction and a target off the entry, and the fractions make the
whole. -/
structure Whole : Prop where
  fractions : ∀ leg ∈ L.legs, ∃ q, comparable leg.fraction = some (.fin q) ∧ 0 < q
  targets : ∀ leg ∈ L.legs, number leg.target ≠ L.entry
  total : (L.legs.map fun leg => number leg.fraction).sum = 1

end Levels

/-- The invariant of the loop: the legs that are used up were filled and paid in full, and the
others make the remainder. -/
structure Sim.Paid (L : Levels) (s : Sim) : Prop where
  subset : s.filledIndices.toFinset ⊆ range L.legs.length
  remaining : s.remaining + ∑ i ∈ s.filledIndices.toFinset, L.weight i = 1
  realized : Levels.realizedR s.fills = ∑ i ∈ s.filledIndices.toFinset, L.weight i * L.reward i
  recorded : ∀ i ∈ s.filledIndices, ∃ f ∈ s.fills, f.index = (i : ℤ)

namespace Levels

variable {L : Levels} {s s' : Sim} {row : Row} {leg : ScaleOutLeg} {i : ℕ}

/-! ### The legs -/

theorem weight_eq {q : ℚ} (hleg : L.legs[i]? = some leg)
    (hq : comparable leg.fraction = some (.fin q)) : L.weight i = q := by
  rw [weight, hleg, Option.elim_some, number_of_comparable hq]

theorem weight_pos (hL : L.Whole) (hi : i ∈ range L.legs.length) : 0 < L.weight i := by
  have hget := List.getElem?_eq_getElem (mem_range.mp hi)
  obtain ⟨q, hq, hpos⟩ := hL.fractions _ (List.getElem_mem (mem_range.mp hi))
  rw [weight_eq hget hq]
  exact hpos

theorem reward_pos (hL : L.Whole) (hrisk : 0 < L.stopDistance) (hi : i ∈ range L.legs.length) :
    0 < L.reward i := by
  rw [reward, List.getElem?_eq_getElem (mem_range.mp hi), Option.elim_some]
  have hoff := hL.targets _ (List.getElem_mem (mem_range.mp hi))
  exact div_pos (abs_pos.mpr (sub_ne_zero.mpr hoff)) hrisk

theorem sum_range_legs {α : Type} (l : List α) (f : α → ℚ) :
    ∑ i ∈ range l.length, (l[i]?).elim 0 f = (l.map f).sum := by
  induction l with
  | nil => rfl
  | cons a l ih =>
      rw [List.length_cons, sum_range_succ', List.map_cons, List.sum_cons, add_comm]
      simp only [List.getElem?_cons_succ, List.getElem?_cons_zero, Option.elim_some]
      rw [ih]

theorem sum_weight (hL : L.Whole) : ∑ i ∈ range L.legs.length, L.weight i = 1 :=
  (sum_range_legs L.legs _).trans hL.total

theorem weight_le_remaining (hL : L.Whole) (hs : s.Paid L) (hi : i ∈ range L.legs.length)
    (hopen : i ∉ s.filledIndices) : L.weight i ≤ s.remaining := by
  have hsubset : insert i s.filledIndices.toFinset ⊆ range L.legs.length :=
    insert_subset hi hs.subset
  have hsum := sum_le_sum_of_subset_of_nonneg hsubset
    (fun j hj _ => (weight_pos hL hj).le)
  rw [sum_insert (fun h => hopen (List.mem_toFinset.mp h)), sum_weight hL] at hsum
  linarith [hs.remaining]

/-- The reward of a target on the profit side is the R of its fill. -/
theorem reward_eq {target : ℚ} (hsound : L.Sound) (hleg : L.legs[i]? = some leg)
    (htarget : finiteNum leg.target = some target) : L.reward i = L.rOf target := by
  have hgain := hsound.targets leg (List.mem_of_getElem? hleg) target htarget
  have habs : |target - L.entry| = L.gain target := by
    unfold gain at hgain ⊢
    split
    · rename_i hbuy
      rw [if_pos hbuy] at hgain
      exact abs_of_pos hgain
    · rename_i hsell
      rw [if_neg hsell] at hgain
      rw [abs_sub_comm]
      exact abs_of_pos hgain
  rw [reward, hleg, Option.elim_some,
    number_of_comparable (comparable_of_finiteNum htarget), habs, rOf]

theorem legSize_fin {q remaining : ℚ} :
    legSize (.fin q) remaining = .fin (if q ≤ remaining then q else remaining) := by
  unfold legSize
  rw [F64.le_fin]
  by_cases hle : q ≤ remaining
  · rw [if_pos hle, if_pos (decide_eq_true hle)]
  · rw [if_neg hle, if_neg (fun h => hle (of_decide_eq_true h))]

theorem fillLeg_paid (hsound : L.Sound) (hL : L.Whole) (hleg : L.legs[i]? = some leg)
    (hs : s.Paid L) (h : L.fillLeg row s i leg = some s') : s'.Paid L := by
  obtain ⟨q, hq, hpos⟩ := hL.fractions leg (List.mem_of_getElem? hleg)
  have hrange : i ∈ range L.legs.length := mem_range.mpr (List.getElem?_eq_some_iff.mp hleg).1
  rcases fillLeg_cases h with rfl | ⟨fraction, hi, hopen, hfraction, hnone, -⟩ | hfill
  · exact hs
  · -- a positive fraction of a positive remainder is a size
    rw [hq, Option.some.injEq] at hfraction
    rw [← hfraction, legSize_fin] at hnone
    have hle := hnone _ rfl
    have hrem : 0 < s.remaining := sizeTol_pos.trans hopen
    split at hle <;> linarith
  · obtain ⟨target, fraction, frac, hi, -, htarget, hfraction, hsize, -, rfl⟩ := hfill
    have hweight : L.weight i = q := weight_eq hleg hq
    have hfits : q ≤ s.remaining := hweight ▸ weight_le_remaining hL hs hrange hi
    rw [hq, Option.some.injEq] at hfraction
    rw [← hfraction, legSize_fin, if_pos hfits, F64.fin.injEq] at hsize
    have hnew : i ∉ s.filledIndices.toFinset := fun h => hi (List.mem_toFinset.mp h)
    constructor
    case subset =>
      rw [closedAt, List.toFinset_cons]
      exact insert_subset hrange hs.subset
    case remaining =>
      rw [closedAt, List.toFinset_cons, sum_insert hnew, hweight, ← hsize]
      linarith [hs.remaining]
    case realized =>
      rw [closedAt, List.toFinset_cons, sum_insert hnew, hweight, ← hs.realized,
        reward_eq hsound hleg htarget, hsize]
      rw [realizedR, List.map_append, List.sum_append, List.map_singleton, List.sum_singleton,
        add_comm]
      rfl
    case recorded =>
      intro j hj
      rcases List.mem_cons.mp hj with rfl | hj
      · exact ⟨_, List.mem_append_right s.fills List.mem_cons_self, rfl⟩
      · obtain ⟨f, hf, hindex⟩ := hs.recorded j hj
        exact ⟨f, List.mem_append_left _ hf, hindex⟩

theorem fillLegs_paid (hsound : L.Sound) (hL : L.Whole) (hs : s.Paid L)
    (h : L.fillLegs row s 0 L.legs = some s') : s'.Paid L :=
  fillLegs_induction (fun _ _ _ _ hleg hs h => fillLeg_paid hsound hL hleg hs h)
    (fun k => by rw [Nat.zero_add]) hs h

/-- **One candle** pays in full what it fills. -/
theorem simStep_paid (hsound : L.Sound) (hL : L.Whole) (hs : s.Paid L)
    (h : L.simStep row s = .going s') : s'.Paid L := by
  obtain ⟨t, ht, -, rfl⟩ := simStep_going h
  have hpaid := fillLegs_paid hsound hL hs ht
  constructor
  case subset => simpa using hpaid.subset
  case remaining => simpa using hpaid.remaining
  case realized => simpa using hpaid.realized
  case recorded => simpa using hpaid.recorded

theorem start_paid : L.start.Paid L where
  subset := empty_subset _
  remaining := add_zero 1
  realized := rfl
  recorded _ hi := nomatch hi

/-! ### The end of a run -/

/-- The reward of all legs. -/
def blended (L : Levels) : ℚ := ∑ i ∈ range L.legs.length, L.weight i * L.reward i

/-- All of the reward is paid exactly when every leg was filled. -/
theorem realizedR_eq_blended_iff (hL : L.Whole) (hrisk : 0 < L.stopDistance) (hs : s.Paid L) :
    realizedR s.fills = L.blended ↔ s.filledIndices.toFinset = range L.legs.length := by
  rw [hs.realized, blended]
  constructor
  · intro heq
    by_contra hne
    obtain ⟨i, hi, hopen⟩ := exists_of_ssubset (hs.subset.ssubset_of_ne hne)
    refine absurd heq (sum_lt_sum_of_subset hs.subset hi hopen ?_ fun j hj _ => ?_).ne
    · exact mul_pos (weight_pos hL hi) (reward_pos hL hrisk hi)
    · exact (mul_pos (weight_pos hL hj) (reward_pos hL hrisk hj)).le
  · intro heq
    rw [heq]

/-- A leg that is larger than the tolerance is filled where the targets close the position. -/
theorem filled_of_large (hL : L.Whole) (hs : s.Paid L) (hclosed : s.remaining ≤ sizeTol)
    (hlarge : ∀ i ∈ range L.legs.length, sizeTol < L.weight i) :
    s.filledIndices.toFinset = range L.legs.length := by
  refine Subset.antisymm hs.subset fun i hi => ?_
  by_contra hopen
  have hle := weight_le_remaining hL hs hi (fun h => hopen (List.mem_toFinset.mpr h))
  linarith [hlarge i hi]

/-- A run that resolves without the stop ends in a state whose legs were paid in full. -/
theorem simLoop_paid (hsound : L.Sound) (hL : L.Whole) (rows : List Row)
    (hresolved : (L.simLoop L.start rows).status = .resolved)
    (hstop : ∀ f ∈ (L.simLoop L.start rows).fills, f.index ≠ -1) :
    ∃ t : Sim, t.Paid L ∧ t.Accounted ∧ t.remaining ≤ sizeTol ∧
      (L.simLoop L.start rows).fills = t.fills ∧
      (L.simLoop L.start rows).realizedR = some (realizedR t.fills) := by
  rcases simLoop_cases (I := fun s => s.Paid L ∧ s.Accounted)
    (fun s row s' hs h => ⟨simStep_paid hsound hL hs.1 h, (simStep_accounted hs.2 h).1⟩)
    ⟨start_paid, start_accounted⟩ rows with
    ⟨t, -, hrun⟩ | ⟨t, row, r, ht, hdone, hrun⟩ | ⟨-, -, -, -, hrun⟩
  · rw [hrun] at hresolved
    cases hresolved
  · rw [hrun] at hstop ⊢
    rcases simStep_done_cases hdone with rfl | ⟨t', ht', hclosed, rfl⟩
    · exact absurd rfl (hstop _ (List.mem_append_right t.fills List.mem_cons_self))
    · exact ⟨t', fillLegs_paid hsound hL ht.1 ht', fillLegs_accounted ht.2 ht', hclosed, rfl, rfl⟩
  · rw [hrun] at hresolved
    cases hresolved

end Levels

/-! ### What the validator returns -/

section
variable {rnd : ℚ → F64} {action : Action} {fields : PlanFields} {entry stop : ℚ}
variable {blended : F64}

theorem eq_some_of_getD {o : Option F64} {q : ℚ} (h : o.getD .nan = .fin q) : o = some (.fin q) := by
  cases o with
  | none => cases h
  | some x => exact congrArg some h

theorem fractions_of_legFractionSum {acc sum : F64} {legs : List (QuantCore.ScaleOutLeg F64)}
    (h : legFractionSum rnd acc legs = some sum) :
    ∀ leg ∈ legs, ∃ q, leg.fraction = .fin q ∧ 0 < q := by
  induction legs generalizing acc with
  | nil => exact fun leg hleg => nomatch hleg
  | cons leg legs ih =>
      rw [legFractionSum] at h
      split at h
      · cases h
      rename_i hok
      rw [List.forall_mem_cons]
      refine ⟨?_, ih h⟩
      rw [Bool.or_eq_true, Bool.or_eq_true, not_or, not_or] at hok
      obtain ⟨⟨hfinite, hpos⟩, -⟩ := hok
      cases hfraction : leg.fraction with
      | fin q =>
          rw [hfraction, F64.le_fin, decide_eq_true_eq, not_le] at hpos
          exact ⟨q, rfl, hpos⟩
      | nan => exact absurd (by rw [hfraction]; rfl) hfinite
      | posInf => exact absurd (by rw [hfraction]; rfl) hfinite
      | negInf => exact absurd (by rw [hfraction]; rfl) hfinite

theorem targets_finite_of_orderingOk {isBuy : Bool} {entry previous : F64}
    {legs : List (QuantCore.ScaleOutLeg F64)} (h : orderingOk isBuy entry previous legs = true) :
    ∀ leg ∈ legs, ∃ t, leg.target = .fin t := by
  induction legs generalizing previous with
  | nil => exact fun leg hleg => nomatch hleg
  | cons leg legs ih =>
      rw [orderingOk, Bool.and_eq_true, Bool.and_eq_true] at h
      rw [List.forall_mem_cons]
      refine ⟨?_, ih h.2⟩
      have hfinite := h.1.1
      cases htarget : leg.target with
      | fin t => exact ⟨t, rfl⟩
      | nan =>
          rw [htarget] at hfinite
          cases hfinite
      | posInf =>
          rw [htarget] at hfinite
          cases hfinite
      | negInf =>
          rw [htarget] at hfinite
          cases hfinite

theorem blendedReward_eq {dist acc : ℚ} (hdist : dist ≠ 0)
    {legs : List ScaleOutLeg}
    (hfractions : ∀ leg ∈ legs, ∃ q, comparable leg.fraction = some (.fin q))
    (htargets : ∀ leg ∈ legs, ∃ t, comparable leg.target = some (.fin t)) :
    Agent.blendedReward F64.fin (.fin entry) (.fin dist) (.fin acc)
      (legs.map fun leg =>
        ⟨(comparable leg.target).getD .nan, (comparable leg.fraction).getD .nan⟩) =
    .fin (acc + (legs.map fun leg =>
      number leg.fraction * (|number leg.target - entry| / dist)).sum) := by
  induction legs generalizing acc with
  | nil => rw [List.map_nil, List.map_nil, List.sum_nil, add_zero, Agent.blendedReward]
  | cons leg legs ih =>
      obtain ⟨⟨q, hq⟩, hfractions⟩ := List.forall_mem_cons.mp hfractions
      obtain ⟨⟨t, ht⟩, htargets⟩ := List.forall_mem_cons.mp htargets
      rw [List.map_cons, List.map_cons, List.sum_cons, Agent.blendedReward]
      simp only [hq, ht, Option.getD_some, number_of_comparable hq, number_of_comparable ht,
        F64.sub_fin, F64.abs_fin, F64.div_fin hdist, F64.mul_fin, F64.add_fin]
      rw [ih hfractions htargets, add_assoc]

variable {C : Text.Casing} {configured : F64} {levels : Option ExecutionLevels}
variable {atr14 minRiskReward minBlended : Option F64} {plan : ManagementPlan} {L : Levels}

theorem legs_of_validateTrade (hdir : action ≠ .hold)
    (h : validateTrade rnd configured action levels atr14 (some plan.fields) minBlended
      minRiskReward = .pass blended) (hL : levelsOf C plan = some L) :
    (∀ leg ∈ L.legs, ∃ q, comparable leg.fraction = some (.fin q) ∧ 0 < q) ∧
      ∀ leg ∈ L.legs, ∃ t, comparable leg.target = some (.fin t) ∧ t ≠ L.entry := by
  obtain ⟨⟨sum, hsum⟩, -, hordering, -⟩ := spec_of_validateTrade hdir h hL
  obtain ⟨-, -, -, -, -, hlegs⟩ := levelsOf_cases hL
  have hmem : ∀ leg ∈ L.legs, (⟨(comparable leg.target).getD .nan,
      (comparable leg.fraction).getD .nan⟩ : QuantCore.ScaleOutLeg F64) ∈ plan.fields.legs :=
    fun leg hleg => List.mem_map.mpr ⟨leg, hlegs ▸ hleg, rfl⟩
  constructor
  · intro leg hleg
    obtain ⟨q, hq, hpos⟩ := fractions_of_legFractionSum hsum _ (hmem leg hleg)
    exact ⟨q, eq_some_of_getD hq, hpos⟩
  · intro leg hleg
    obtain ⟨t, ht⟩ := targets_finite_of_orderingOk hordering _ (hmem leg hleg)
    have hside := targets_of_orderingOk hordering _ (hmem leg hleg) t ht
    refine ⟨t, eq_some_of_getD ht, ?_⟩
    split at hside
    · exact hside.ne'
    · exact hside.ne

theorem blended_of_validateTrade (hdir : action ≠ .hold)
    (h : validateTrade F64.fin configured action levels atr14 (some plan.fields) minBlended
      minRiskReward = .pass blended) (hL : levelsOf C plan = some L) :
    blended = .fin L.blended := by
  obtain ⟨-, -, -, hblended⟩ := spec_of_validateTrade hdir h hL
  obtain ⟨hfractions, htargets⟩ := legs_of_validateTrade hdir h hL
  obtain ⟨-, -, hdist, hne, -, hlegs⟩ := levelsOf_cases hL
  have hfields : plan.fields.legs = L.legs.map fun leg =>
      ⟨(comparable leg.target).getD .nan, (comparable leg.fraction).getD .nan⟩ := by
    rw [hlegs]
    rfl
  rw [hblended, F64.sub_fin, F64.abs_fin, ← hdist, hfields, blendedReward_eq hne
    (fun leg hleg => (hfractions leg hleg).imp fun _ h => h.1)
    (fun leg hleg => (htargets leg hleg).imp fun _ h => h.1), zero_add, Levels.blended,
    ← Levels.sum_range_legs]
  refine congrArg F64.fin (sum_congr rfl fun i hi => ?_)
  rw [Levels.weight, Levels.reward, List.getElem?_eq_getElem (mem_range.mp hi)]
  rfl

/-- An accepted plan whose fractions sum to one makes the whole. -/
theorem whole_of_validateTrade (hdir : action ≠ .hold)
    (h : validateTrade rnd configured action levels atr14 (some plan.fields) minBlended
      minRiskReward = .pass blended) (hL : levelsOf C plan = some L)
    (hsum : (plan.legs.map fun leg => number leg.fraction).sum = 1) : L.Whole := by
  obtain ⟨hfractions, htargets⟩ := legs_of_validateTrade hdir h hL
  obtain ⟨-, -, -, -, -, hlegs⟩ := levelsOf_cases hL
  refine ⟨hfractions, fun leg hleg => ?_, hlegs ▸ hsum⟩
  obtain ⟨t, ht, hne⟩ := htargets leg hleg
  rw [number_of_comparable ht]
  exact hne

end

theorem Sim.Paid.filled_iff {L : Levels} {t : Sim} (hpaid : t.Paid L) (hacc : t.Accounted) :
    t.filledIndices.toFinset = range L.legs.length ↔
      ∀ i < L.legs.length, ∃ f ∈ t.fills, f.index = (i : ℤ) := by
  constructor
  · intro heq i hi
    rw [← mem_range, ← heq, List.mem_toFinset] at hi
    exact hpaid.recorded i hi
  · intro hall
    refine Subset.antisymm hpaid.subset fun i hi => ?_
    obtain ⟨f, hf, hindex⟩ := hall i (mem_range.mp hi)
    obtain ⟨j, hj, hj'⟩ := hacc.indexed f hf
    have hij : i = j := by omega
    exact List.mem_toFinset.mpr (hij ▸ hj)

/-- Two legs, of which the second is smaller than the tolerance. -/
def crumbPlan : ManagementPlan where
  action := .str "BUY"
  entry := .float (.fin 100)
  initialStop := .float (.fin 90)
  legs := [⟨.float (.fin 130), .float (.fin (1 - 1 / 10 ^ 10))⟩,
    ⟨.float (.fin 140), .float (.fin (1 / 10 ^ 10))⟩]

/-- A candle that reaches the first target. -/
def firstTargetCandle : PyVal :=
  .dict [("timestamp_ms", .int 60000), ("open", .int 100), ("high", .int 131), ("low", .int 95),
    ("close", .int 120)]

/-- **A crumb is not paid**: the first leg closes the position but for less than the tolerance, and
the reward of the second, which the validator counts, is missing. -/
theorem crumbPlan_falls_short :
    ¬ ∀ (C : Text.Casing) (configured : F64) (action : Action) (levels : Option ExecutionLevels)
      (atr14 minBlended minRiskReward : Option F64) (plan : ManagementPlan)
      (candles : List PyVal) (blended : F64), action ≠ .hold → plan.action = .str action.name →
        validateTrade F64.fin configured action levels atr14 (some plan.fields) minBlended
          minRiskReward = .pass blended →
        (plan.legs.map fun leg => number leg.fraction).sum = 1 →
        (simulatePlan C plan candles).status = .resolved →
        (∀ f ∈ (simulatePlan C plan candles).fills, f.index ≠ -1) →
        (simulatePlan C plan candles).realizedR.map F64.fin = some blended := by
  intro h
  have hpaid := h Text.Casing.ascii (.fin 1) .buy (some ⟨.fin 100, .fin 90, .fin 130⟩) none none none
    crumbPlan [firstTargetCandle] (.fin (3 + 1 / 10 ^ 10)) (by decide) rfl (by decide +kernel)
    (by decide +kernel) (by decide +kernel) (by decide +kernel)
  revert hpaid
  decide +kernel

/-- **The validated reward is what the simulation pays.**  Let the validator accept a plan whose
fractions sum to one, and the simulation resolve without the stop.  Then the realized R is the
blended reward that the validator returned exactly when every leg was filled, and so it is when
every fraction is above the tolerance. -/
theorem validated_reward_is_paid (C : Text.Casing) (configured : F64) (action : Action)
    (levels : Option ExecutionLevels) (atr14 minBlended minRiskReward : Option F64)
    (plan : ManagementPlan) (candles : List PyVal) (blended : F64) (hdir : action ≠ .hold)
    (haction : plan.action = .str action.name)
    (hpass : validateTrade F64.fin configured action levels atr14 (some plan.fields) minBlended
      minRiskReward = .pass blended)
    (hsum : (plan.legs.map fun leg => number leg.fraction).sum = 1)
    (hresolved : (simulatePlan C plan candles).status = .resolved)
    (hstop : ∀ f ∈ (simulatePlan C plan candles).fills, f.index ≠ -1) :
    let result := simulatePlan C plan candles
    (result.realizedR.map F64.fin = some blended ↔
        ∀ i < plan.legs.length, ∃ f ∈ result.fills, f.index = (i : ℤ)) ∧
      ((∀ leg ∈ plan.legs, sizeTol < number leg.fraction) →
        result.realizedR.map F64.fin = some blended) := by
  intro result
  obtain ⟨L, hL, hresult⟩ := simulatePlan_resolved hresolved
  rw [hresult] at hresolved hstop
  have hsound : L.Sound := levels_sound hdir haction (by rw [hpass]; rfl) hL
  have hwhole := whole_of_validateTrade hdir hpass hL hsum
  obtain ⟨-, -, -, -, -, hlegs⟩ := levelsOf_cases hL
  obtain ⟨t, hpaid, hacc, hclosed, hfills, hreal⟩ :=
    Levels.simLoop_paid hsound hwhole _ hresolved hstop
  have hiff : result.realizedR.map F64.fin = some blended ↔
      t.filledIndices.toFinset = range L.legs.length := by
    rw [show result = _ from hresult, hreal, Option.map_some,
      blended_of_validateTrade hdir hpass hL, Option.some.injEq, F64.fin.injEq]
    exact Levels.realizedR_eq_blended_iff hwhole hsound.risk hpaid
  constructor
  · rw [hiff, hpaid.filled_iff hacc, show result = _ from hresult, hfills, hlegs]
  · intro hlarge
    refine hiff.mpr (Levels.filled_of_large hwhole hpaid hclosed fun i hi => ?_)
    have hget := List.getElem?_eq_getElem (mem_range.mp hi)
    rw [Levels.weight, hget, Option.elim_some]
    exact hlarge _ (hlegs ▸ List.getElem_mem (mem_range.mp hi))

/-- Two halves, which one candle fills. -/
def halvesPlan : ManagementPlan :=
  { crumbPlan with
    legs := [⟨.float (.fin 130), .float (.fin (1 / 2))⟩,
      ⟨.float (.fin 131), .float (.fin (1 / 2))⟩] }

theorem validated_reward_is_paid_halves :
    let result := simulatePlan Text.Casing.ascii halvesPlan [firstTargetCandle]
    (result.realizedR.map F64.fin = some (.fin (61 / 20)) ↔
        ∀ i < halvesPlan.legs.length, ∃ f ∈ result.fills, f.index = (i : ℤ)) ∧
      ((∀ leg ∈ halvesPlan.legs, sizeTol < number leg.fraction) →
        result.realizedR.map F64.fin = some (.fin (61 / 20))) :=
  validated_reward_is_paid Text.Casing.ascii (.fin 1) .buy (some ⟨.fin 100, .fin 90, .fin 130⟩) none
    none none halvesPlan [firstTargetCandle] (.fin (61 / 20)) (by decide) rfl (by decide +kernel)
    (by decide +kernel) (by decide +kernel) (by decide +kernel)

end AiTrader.TradeManager
