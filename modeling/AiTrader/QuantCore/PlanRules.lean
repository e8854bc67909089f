import AiTrader.QuantCore.ManagementPlan
import Mathlib.Data.List.Chain

/-! # The rules for a management plan

What both plan validators are there to enforce, said of exact numbers (`PlanRules`), and that the
server's validator computing exactly passes the plans that meet them and whose breakeven trigger
is in place (`validateManagementPlan_decides`).

Prices are measured by their `gain`: how far they lie from the entry in the direction of profit. -/

namespace AiTrader.QuantCore

/-- How far `price` lies on the profit side of `entry`. -/
def gain (action : Action) (entry price : ℚ) : ℚ :=
  match action with
  | .sell => entry - price
  | _ => price - entry

namespace ManagementPlan
variable (plan : ManagementPlan ℚ)

/-- The initial stop distance. -/
def risk : ℚ := |plan.entry - plan.initialStop|

/-- The gains of the targets, in the order of the legs. -/
def gains (action : Action) : List ℚ := plan.legs.map fun l => gain action plan.entry l.target

/-- The fraction-weighted reward over the risk. -/
def blended : ℚ := (plan.legs.map fun l => l.fraction * |l.target - plan.entry|).sum / plan.risk

end ManagementPlan

/-- The rules of a directional plan, its breakeven trigger apart. -/
structure PlanRules (action : Action) (plan : ManagementPlan ℚ) (atr14 : Option ℚ) (m : ℚ) :
    Prop where
  legs : plan.legs ≠ []
  fractions : ∀ leg ∈ plan.legs, 0 < leg.fraction ∧ leg.fraction ≤ 1
  total : (plan.legs.map ScaleOutLeg.fraction).sum ≤ 1 + 1 / 10 ^ 9
  stop : gain action plan.entry plan.initialStop < 0
  targets : ∀ g ∈ plan.gains action, 0 < g
  ordered : (plan.gains action).IsChain (· ≤ ·)
  volatility : ∀ atr ∈ atr14, 0 < atr → 3 / 2 * atr ≤ plan.risk
  reward : m ≤ plan.blended

/-- A price or an R-multiple puts the trigger strictly between the entry and the first target. -/
def TriggerPlaced (action : Action) (plan : ManagementPlan ℚ) (be : BreakevenTrigger ℚ) : Prop :=
  ∃ g, (be.price.map (gain action plan.entry)).or (be.rMultiple.map (· * plan.risk)) = some g ∧
    0 < g ∧ ∀ first ∈ (plan.gains action).head?, g < first

/-- The trigger names neither a price nor an R-multiple. -/
def BreakevenTrigger.IsEmpty {α : Type} (be : BreakevenTrigger α) : Prop :=
  be.price = none ∧ be.rMultiple = none

/-- A verdict that passes with `x` where `P` holds, and fails elsewhere. -/
def Decides (o : ValidatorOutcome) (P : Prop) (x : ℚ) : Prop :=
  (P → o = .pass (.fin x)) ∧ (¬ P → o.isPass = false)

section
variable {o : ValidatorOutcome} {P Q : Prop} {x : ℚ} {r : ValidatorReason} {c : Bool}

theorem Decides.fail (h : ¬ P) : Decides (.fail r) P x := ⟨fun hp => absurd hp h, fun _ => rfl⟩

theorem Decides.pass (h : P) : Decides (.pass (.fin x)) P x := ⟨fun _ => rfl, fun hn => absurd h hn⟩

theorem Decides.refuse (hc : c = false ↔ Q) (hP : P → Q) (hok : Q → Decides o P x) :
    Decides (if c then .fail r else o) P x := by
  cases c with
  | true => exact .fail fun hp => Bool.noConfusion (hc.mpr (hP hp))
  | false => exact hok (hc.mp rfl)

theorem Decides.demand (hc : c = true ↔ Q) (hP : P → Q) (hok : Q → Decides o P x) :
    Decides (if !c then .fail r else o) P x :=
  Decides.refuse (by rw [Bool.not_eq_false', hc]) hP hok

end

/-! ### The checks on exact numbers -/

section
variable {action : Action} {plan : ManagementPlan ℚ} {entry a b : ℚ}

theorem lt_eq_false : F64.lt (.fin a) (.fin b) = false ↔ b ≤ a := by simp

theorem le_eq_false : F64.le (.fin a) (.fin b) = false ↔ b < a := by simp

theorem profitSide_iff (h : action ≠ .hold) :
    profitSide action (.fin a) (.fin b) = true ↔ 0 < gain action a b := by
  cases action with
  | buy => simp [profitSide, gain]
  | sell => simp [profitSide, gain]
  | hold => exact absurd rfl h

theorem gain_sub (entry a b : ℚ) :
    gain action a b = gain action entry b - gain action entry a := by
  cases action <;> simp [gain]

theorem gain_neg : gain action a b < 0 ↔ 0 < gain action b a := by
  cases action <;> simp [gain]

theorem notBefore_fin (h : action ≠ .hold) (entry : ℚ) :
    notBefore action (.fin a) (.fin b) =
      decide (gain action entry a ≤ gain action entry b) := by
  cases action with
  | buy => simp [notBefore, gain]
  | sell => simp only [notBefore, gain, F64.le_fin, sub_le_sub_iff_left]
  | hold => exact absurd rfl h

theorem fractionSum_fin (legs : List (ScaleOutLeg ℚ)) (sum : ℚ) :
    ((∀ leg ∈ legs, 0 < leg.fraction ∧ leg.fraction ≤ 1) →
        fractionSum F64.fin (.fin sum) (legs.map (ScaleOutLeg.map F64.fin)) =
          some (.fin (sum + (legs.map ScaleOutLeg.fraction).sum))) ∧
      (¬ (∀ leg ∈ legs, 0 < leg.fraction ∧ leg.fraction ≤ 1) →
        fractionSum F64.fin (.fin sum) (legs.map (ScaleOutLeg.map F64.fin)) = none) := by
  induction legs generalizing sum with
  | nil => simp [fractionSum]
  | cons leg legs ih =>
      rw [List.map_cons, fractionSum, ScaleOutLeg.map, F64.lt_fin, F64.le_fin, F64.add_fin,
        List.forall_mem_cons, List.map_cons, List.sum_cons, ← add_assoc]
      by_cases hleg : 0 < leg.fraction ∧ leg.fraction ≤ 1
      · rw [if_pos (by simp [hleg])]
        simp only [hleg, and_self, true_and]
        exact ih _
      · rw [if_neg (by simpa using hleg)]
        exact ⟨fun h => absurd h.1 hleg, fun _ => rfl⟩

/-- The loop over the targets, with the previous one before it. -/
theorem targetsOk_fin (h : action ≠ .hold) (entry : ℚ) (legs : List (ScaleOutLeg ℚ)) (prev : Option ℚ) :
    targetsOk action (.fin entry) (prev.map F64.fin) (legs.map (ScaleOutLeg.map F64.fin)) = true ↔
      (∀ leg ∈ legs, 0 < gain action entry leg.target) ∧
        ((prev.map (gain action entry)).toList ++
          legs.map fun l => gain action entry l.target).IsChain (· ≤ ·) := by
  induction legs generalizing prev with
  | nil => cases prev <;> simp [targetsOk]
  | cons leg legs ih =>
      have hrest := ih (some leg.target)
      rw [Option.map_some] at hrest
      rw [List.map_cons, targetsOk, Bool.and_eq_true, Bool.and_eq_true]
      show (_ ∧ _) ∧ targetsOk action (.fin entry) (some (.fin leg.target)) _ = true ↔ _
      rw [hrest, ScaleOutLeg.map, profitSide_iff h, List.forall_mem_cons]
      cases prev with
      | none => simp [and_assoc]
      | some p =>
          simp only [Option.map_some, Option.all_some, notBefore_fin h entry, decide_eq_true_eq,
            Option.toList_some, List.map_cons, List.cons_append, List.nil_append,
            List.isChain_cons_cons]
          tauto

theorem targetsOk_iff (h : action ≠ .hold) :
    targetsOk action (.fin plan.entry) none (plan.legs.map (ScaleOutLeg.map F64.fin)) = true ↔
      (∀ g ∈ plan.gains action, 0 < g) ∧ (plan.gains action).IsChain (· ≤ ·) := by
  refine (targetsOk_fin h plan.entry plan.legs none).trans ?_
  rw [ManagementPlan.gains, List.forall_mem_map]
  rfl

theorem stopTooTight_fin {risk : ℚ} {atr14 : Option ℚ} :
    stopTooTight F64.fin (.fin risk) (atr14.map F64.fin) = false ↔
      ∀ atr ∈ atr14, 0 < atr → 3 / 2 * atr ≤ risk := by
  cases atr14 with
  | none => simp [stopTooTight]
  | some atr => simp [stopTooTight, minStop]

theorem foldl_add_fin (xs : List ℚ) (sum : ℚ) :
    (xs.map F64.fin).foldl (F64.add F64.fin) (.fin sum) = .fin (sum + xs.sum) := by
  induction xs generalizing sum with
  | nil => simp
  | cons x xs ih => rw [List.map_cons, List.foldl_cons, F64.add_fin, ih, List.sum_cons, add_assoc]

theorem blendedReward_fin (legs : List (ScaleOutLeg ℚ)) :
    blendedReward F64.fin (.fin entry) (legs.map (ScaleOutLeg.map F64.fin)) =
      .fin (legs.map fun l => l.fraction * |l.target - entry|).sum := by
  have hfold := foldl_add_fin (legs.map fun l => l.fraction * |l.target - entry|) 0
  rw [zero_add, List.map_map] at hfold
  rw [blendedReward, List.map_map, ← hfold]
  congr 1
  refine List.map_congr_left fun l _ => ?_
  simp [ScaleOutLeg.map]

theorem risk_pos (hstop : gain action plan.entry plan.initialStop < 0) : 0 < plan.risk := by
  refine abs_pos.mpr fun h => ?_
  have heq : plan.entry = plan.initialStop := sub_eq_zero.mp h
  cases action <;> simp [gain, heq] at hstop

theorem gain_moved (h : action ≠ .hold) (entry r risk : ℚ) :
    ∃ p, F64.add F64.fin (.fin entry)
        (F64.mul F64.fin (F64.mul F64.fin action.dir (.fin r)) (.fin risk)) = .fin p ∧
      gain action entry p = r * risk := by
  cases action with
  | buy => exact ⟨_, rfl, by simp [gain]⟩
  | sell => exact ⟨_, rfl, by simp [gain]⟩
  | hold => exact absurd rfl h

theorem breakevenOk_fin (h : action ≠ .hold) {first : ScaleOutLeg ℚ} {legs : List (ScaleOutLeg ℚ)}
    (hlegs : plan.legs = first :: legs) :
    breakevenOk F64.fin action (.fin plan.entry) (.fin first.target) (.fin plan.risk)
        (plan.breakeven.map (BreakevenTrigger.map F64.fin)) = true ↔
      ∀ be ∈ plan.breakeven, TriggerPlaced action plan be := by
  have hfirst : ∀ {p g : ℚ}, gain action plan.entry p = g →
      ((profitSide action (.fin plan.entry) (.fin p) &&
        profitSide action (.fin p) (.fin first.target)) = true ↔
        0 < g ∧ ∀ x ∈ (plan.gains action).head?, g < x) := by
    rintro p g rfl
    rw [Bool.and_eq_true, profitSide_iff h, profitSide_iff h, gain_sub plan.entry p, sub_pos,
      ManagementPlan.gains, hlegs]
    simp
  cases plan.breakeven with
  | none => simp [breakevenOk]
  | some be =>
      simp only [Option.map_some, breakevenOk, Option.mem_def, Option.some.injEq, forall_eq']
      cases hp : be.price with
      | some p =>
          simp only [breakevenPrice, BreakevenTrigger.map, TriggerPlaced, hp, Option.map_some,
            Option.filter_some, F64.isFinite_fin, if_true, Option.some_or, Option.any_some,
            Option.some.injEq, exists_eq_left', hfirst rfl]
      | none =>
          cases hr : be.rMultiple with
          | some r =>
              obtain ⟨p, hmoved, hgain⟩ := gain_moved h plan.entry r plan.risk
              simp only [breakevenPrice, BreakevenTrigger.map, TriggerPlaced, hp, hr,
                Option.map_some, Option.map_none, Option.filter_some, Option.filter_none,
                F64.isFinite_fin, if_true, Option.none_or, Option.any_some, hmoved,
                Option.some.injEq, exists_eq_left', hfirst hgain]
          | none => simp [breakevenPrice, BreakevenTrigger.map, TriggerPlaced, hp, hr]

/-! ### The verdict -/

/-- The server, computing exactly, passes the plans that meet the rules and whose trigger, if
there is one, is in place. -/
theorem validateManagementPlan_decides (h : action ≠ .hold) (atr14 : Option ℚ) (m : ℚ) :
    Decides (validateManagementPlan F64.fin action (plan.map F64.fin) (atr14.map F64.fin) (.fin m))
      (PlanRules action plan atr14 m ∧ ∀ be ∈ plan.breakeven, TriggerPlaced action plan be)
      plan.blended := by
  unfold validateManagementPlan
  rw [if_neg h, if_neg (by simp [ManagementPlan.map])]
  cases hlegs : plan.legs with
  | nil =>
      simp only [ManagementPlan.map, hlegs, List.map_nil]
      exact .fail fun hp => hp.1.legs hlegs
  | cons first legs =>
      simp only [ManagementPlan.map, hlegs, List.map_cons]
      rw [if_neg (by simp [ScaleOutLeg.map]), ← List.map_cons, ← hlegs]
      obtain ⟨hsum, hnosum⟩ := fractionSum_fin plan.legs 0
      by_cases hfractions : ∀ leg ∈ plan.legs, 0 < leg.fraction ∧ leg.fraction ≤ 1
      · rw [hsum hfractions, zero_add, F64.sub_fin, F64.abs_fin]
        dsimp only
        rw [blendedReward_fin, maxFractionSum, F64.add_fin]
        refine .refuse lt_eq_false (fun hp => hp.1.total) fun htotal => ?_
        refine .demand (profitSide_iff h) (fun hp => gain_neg.mp hp.1.stop) fun hstop => ?_
        have hstop := gain_neg.mpr hstop
        have hrisk := risk_pos hstop
        refine .demand (targetsOk_iff h) (fun hp => ⟨hp.1.targets, hp.1.ordered⟩) fun htargets => ?_
        refine .refuse le_eq_false (fun _ => hrisk) fun _ => ?_
        refine .refuse stopTooTight_fin (fun hp => hp.1.volatility) fun hatr => ?_
        refine .demand (breakevenOk_fin h hlegs) (fun hp => hp.2) fun hbe => ?_
        have hblended : F64.div F64.fin
            (.fin (plan.legs.map fun l => l.fraction * |l.target - plan.entry|).sum)
            (.fin |plan.entry - plan.initialStop|) = .fin plan.blended := F64.div_fin hrisk.ne'
        rw [hblended]
        refine .refuse lt_eq_false (fun hp => hp.1.reward) fun hreward => ?_
        exact .pass ⟨⟨by simp [hlegs], hfractions, htotal, hstop, htargets.1, htargets.2, hatr,
          hreward⟩, hbe⟩
      · rw [hnosum hfractions]
        exact .fail fun hp => hfractions hp.1.fractions

end

end AiTrader.QuantCore
