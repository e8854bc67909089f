import AiTrader.Agent.Validator
import AiTrader.QuantCore.PlanRules
import Mathlib.Algebra.Order.Field.Rat

/-! # Agreement of the two plan validators

Both validators, computing exactly, pass the plans that meet `PlanRules` and differ in the
breakeven trigger: the agent's takes a trigger without price and R-multiple for none, the
server's wants every trigger to resolve to a price.

* `validateTrade_decides`: what the agent's validator passes, and with which reward-to-risk.
* `plan_validators_agree_iff`: the exact condition for the two verdicts to agree. -/

namespace AiTrader.Agent

open QuantCore

/-! ### Loops that agree whatever the arithmetic -/

section
variable {rnd : ℚ → F64} {action : Action}

theorem legFractionSum_eq (sum : F64) (legs : List (ScaleOutLeg F64)) :
    legFractionSum rnd sum legs = fractionSum rnd sum legs := by
  induction legs generalizing sum with
  | nil => rfl
  | cons leg legs ih =>
      have hcheck : (!leg.fraction.isFinite || F64.le leg.fraction (.fin 0) ||
          F64.lt (.fin 1) leg.fraction) =
            !(F64.lt (.fin 0) leg.fraction && F64.le leg.fraction (.fin 1)) := by
        cases leg.fraction with
        | fin q =>
            have hpos : decide (q ≤ 0) = !decide (0 < q) := by
              rw [← decide_not, decide_eq_decide, not_lt]
            have hle : decide (1 < q) = !decide (q ≤ 1) := by
              rw [← decide_not, decide_eq_decide, not_le]
            rw [F64.isFinite_fin, F64.le_fin, F64.lt_fin, F64.lt_fin, F64.le_fin, hpos, hle,
              Bool.not_and]
            rfl
        | nan => rfl
        | negInf => rfl
        | posInf => rfl
      rw [legFractionSum, fractionSum, hcheck, ih]
      cases F64.lt (.fin 0) leg.fraction && F64.le leg.fraction (.fin 1) <;> rfl

/-- The agent's loop over the targets is the server's with the entry as the previous target. -/
theorem orderingOk_eq (h : action ≠ .hold) (entry previous : F64) (legs : List (ScaleOutLeg F64))
    (hfin : ∀ leg ∈ legs, leg.target.isFinite = true) :
    orderingOk (decide (action = .buy)) entry previous legs =
      targetsOk action entry (some previous) legs := by
  induction legs generalizing previous with
  | nil => rfl
  | cons leg legs ih =>
      obtain ⟨hleg, hlegs⟩ := List.forall_mem_cons.mp hfin
      rw [orderingOk, targetsOk, ih leg.target hlegs, hleg, Bool.true_and, Option.all_some]
      cases action with
      | buy => rfl
      | sell => rfl
      | hold => exact absurd rfl h

end

/-! ### The checks on exact numbers -/

section
variable {action : Action} {plan : ManagementPlan ℚ}

theorem orderingOk_iff (h : action ≠ .hold) :
    orderingOk (decide (action = .buy)) (.fin plan.entry) (.fin plan.entry)
        (plan.legs.map (ScaleOutLeg.map F64.fin)) = true ↔
      (∀ g ∈ plan.gains action, 0 < g) ∧ (plan.gains action).IsChain (· ≤ ·) := by
  have hzero : gain action plan.entry plan.entry = 0 := by cases action <;> simp [gain]
  rw [orderingOk_eq h]
  · refine (targetsOk_fin h plan.entry plan.legs (some plan.entry)).trans ?_
    rw [Option.map_some, Option.toList_some, List.singleton_append, hzero, ← ManagementPlan.gains,
      ← List.forall_mem_map (f := fun l : ScaleOutLeg ℚ => gain action plan.entry l.target)
        (P := fun g => 0 < g), ← ManagementPlan.gains]
    -- the entry itself comes before every target on the profit side
    refine and_congr_right fun hpos => ?_
    cases hg : plan.gains action with
    | nil => simp
    | cons g gs =>
        rw [hg] at hpos
        rw [List.isChain_cons_cons, and_iff_right (hpos g List.mem_cons_self).le]
  · rw [List.forall_mem_map]
    exact fun _ _ => rfl

theorem abs_gain (h : action ≠ .hold) {entry price : ℚ} :
    |gain action entry price| = |price - entry| := by
  cases action with
  | buy => rfl
  | sell => exact abs_sub_comm entry price
  | hold => exact absurd rfl h

theorem placementOk_iff (h : action ≠ .hold) (hrisk : 0 < plan.risk) {first : ScaleOutLeg ℚ}
    {legs : List (ScaleOutLeg ℚ)} (hlegs : plan.legs = first :: legs)
    (hfirst : 0 < gain action plan.entry first.target) :
    placementOk F64.fin (decide (action = .buy)) (.fin plan.entry) (.fin first.target)
        (.fin plan.risk) (plan.breakeven.map (BreakevenTrigger.map F64.fin)) = true ↔
      ∀ be ∈ plan.breakeven, TriggerPlaced action plan be ∨ be.IsEmpty := by
  have hhead : (plan.gains action).head? = some (gain action plan.entry first.target) := by
    rw [ManagementPlan.gains, hlegs]
    rfl
  cases plan.breakeven with
  | none => simp [placementOk]
  | some be =>
      simp only [Option.map_some, placementOk, BreakevenTrigger.map, Option.mem_def,
        Option.some.injEq, forall_eq', TriggerPlaced, BreakevenTrigger.IsEmpty, hhead]
      cases hp : be.price with
      | some p =>
          simp only [Option.map_some, Option.some_or, Option.some.injEq, exists_eq_left',
            reduceCtorEq, false_and, or_false]
          cases action with
          | buy => simp [gain]
          | sell => simp [gain, and_comm]
          | hold => exact absurd rfl h
      | none =>
          cases hr : be.rMultiple with
          | none => simp
          | some r =>
              -- in R-space the entry is at zero and the risk is the unit
              have habs : |first.target - plan.entry| = gain action plan.entry first.target := by
                rw [← abs_gain h, abs_of_pos hfirst]
              simp only [Option.map_some, Option.map_none, Option.none_or, Option.some.injEq,
                exists_eq_left', reduceCtorEq, and_false, or_false, F64.sub_fin, F64.abs_fin,
                F64.div_fin hrisk.ne', habs, F64.isFinite_fin, F64.lt_fin, Bool.true_and,
                Bool.and_eq_true, decide_eq_true_eq, lt_div_iff₀ hrisk,
                mul_pos_iff_of_pos_right hrisk]

theorem blendedReward_eq (legs : List (ScaleOutLeg ℚ)) (entry dist sum : ℚ) (hd : dist ≠ 0) :
    blendedReward F64.fin (.fin entry) (.fin dist) (.fin sum)
        (legs.map (ScaleOutLeg.map F64.fin)) =
      .fin (sum + (legs.map fun l => l.fraction * |l.target - entry|).sum / dist) := by
  induction legs generalizing sum with
  | nil => simp [blendedReward]
  | cons leg legs ih =>
      rw [List.map_cons, blendedReward, ScaleOutLeg.map, F64.sub_fin, F64.abs_fin, F64.div_fin hd,
        F64.mul_fin, F64.add_fin, ih, List.map_cons, List.sum_cons, add_div, mul_div_assoc,
        add_assoc]

theorem directionOk_iff (h : action ≠ .hold) {entry stopLoss takeProfit : ℚ} :
    directionOk action entry stopLoss takeProfit = true ↔
      gain action entry stopLoss < 0 ∧ 0 < gain action entry takeProfit := by
  cases action with
  | buy => simp [directionOk, gain]
  | sell => simp [directionOk, gain, and_comm]
  | hold => exact absurd rfl h

/-! ### The verdicts -/

theorem validateManagementPlan_decides (h : action ≠ .hold) {atr14 : Option ℚ} (m : ℚ)
    (hstop : gain action plan.entry plan.initialStop < 0)
    (hatr : ∀ atr ∈ atr14, 0 < atr → 3 / 2 * atr ≤ plan.risk) :
    Decides (validateManagementPlan F64.fin action (planFields (plan.map F64.fin))
        (.fin plan.entry) (.fin plan.initialStop) (.fin m))
      (PlanRules action plan atr14 m ∧
        ∀ be ∈ plan.breakeven, TriggerPlaced action plan be ∨ be.IsEmpty) plan.blended := by
  have hrisk := risk_pos hstop
  unfold validateManagementPlan
  cases hlegs : plan.legs with
  | nil =>
      simp only [planFields, ManagementPlan.map, hlegs, List.map_nil]
      exact .fail fun hp => hp.1.legs hlegs
  | cons first legs =>
      simp only [planFields, ManagementPlan.map, hlegs, List.map_cons]
      rw [← List.map_cons, ← hlegs, legFractionSum_eq]
      obtain ⟨hsum, hnosum⟩ := fractionSum_fin plan.legs 0
      by_cases hfractions : ∀ leg ∈ plan.legs, 0 < leg.fraction ∧ leg.fraction ≤ 1
      · have hblended : blendedReward F64.fin (.fin plan.entry) (.fin plan.risk) (.fin 0)
            (plan.legs.map (ScaleOutLeg.map F64.fin)) = .fin plan.blended := by
          rw [blendedReward_eq _ _ _ _ hrisk.ne', zero_add]
          rfl
        rw [hsum hfractions, zero_add, F64.sub_fin, F64.abs_fin]
        dsimp only
        rw [← ManagementPlan.risk, hblended, legFractionSumTolerance, F64.add_fin]
        have hside : (if decide (action = .buy) = true then
            F64.lt (.fin plan.initialStop) (.fin plan.entry)
            else F64.lt (.fin plan.entry) (.fin plan.initialStop)) = true := by
          cases action with
          | buy => simpa [gain] using hstop
          | sell => simpa [gain] using hstop
          | hold => exact absurd rfl h
        refine .refuse lt_eq_false (fun hp => hp.1.total) fun htotal => ?_
        rw [F64.isFinite_fin, F64.isFinite_fin, hside, if_neg (by decide), if_neg (by decide)]
        refine .demand (orderingOk_iff h) (fun hp => ⟨hp.1.targets, hp.1.ordered⟩)
          fun htargets => ?_
        have hfirst : 0 < gain action plan.entry first.target :=
          htargets.1 _ (by rw [ManagementPlan.gains, hlegs]; exact List.mem_cons_self)
        refine .demand (placementOk_iff h hrisk hlegs hfirst) (fun hp => hp.2) fun hbe => ?_
        refine .refuse lt_eq_false (fun hp => hp.1.reward) fun hreward => ?_
        exact .pass ⟨⟨by simp [hlegs], hfractions, htotal, hstop, htargets.1, htargets.2, hatr,
          hreward⟩, hbe⟩
      · rw [hnosum hfractions]
        exact .fail fun hp => hfractions hp.1.fractions

/-- The agent, computing exactly, passes the plans that meet the rules and whose trigger is in
place or empty; the take-profit of the bracket is of no account beyond its side. -/
theorem validateTrade_decides (h : action ≠ .hold) {takeProfit : ℚ}
    (htp : 0 < gain action plan.entry takeProfit) (atr14 : Option ℚ) (m : ℚ) (configured : F64)
    (minRr : Option F64) :
    Decides (validateTrade F64.fin configured action
        (some ⟨.fin plan.entry, .fin plan.initialStop, .fin takeProfit⟩) (atr14.map F64.fin)
        (some (planFields (plan.map F64.fin))) (some (.fin m)) minRr)
      (PlanRules action plan atr14 m ∧
        ∀ be ∈ plan.breakeven, TriggerPlaced action plan be ∨ be.IsEmpty) plan.blended := by
  unfold validateTrade
  rw [if_neg h]
  dsimp only
  refine .demand (directionOk_iff h) (fun hp => ⟨hp.1.stop, htp⟩) fun ⟨hstop, _⟩ => ?_
  refine .refuse le_eq_false (fun _ => risk_pos hstop) fun _ => ?_
  refine .refuse stopTooTight_fin (fun hp => hp.1.volatility) fun hatr => ?_
  exact validateManagementPlan_decides h m hstop hatr

end

/-! ### Agreement -/

/-- Both pass or both fail, and what they pass they pass with the same reward-to-risk. -/
def Agree (a b : ValidatorOutcome) : Prop :=
  a.isPass = b.isPass ∧ ∀ x y, a = .pass x → b = .pass y → x = y

theorem agree_iff {a b : ValidatorOutcome} {P Q : Prop} {x : ℚ} (ha : Decides a P x)
    (hb : Decides b Q x) : Agree a b ↔ (P ↔ Q) := by
  by_cases hp : P
  · rw [Agree, ha.1 hp]
    by_cases hq : Q
    · rw [hb.1 hq]
      refine iff_of_true ⟨rfl, fun y z hy hz => ?_⟩ (iff_of_true hp hq)
      cases hy
      cases hz
      rfl
    · refine iff_of_false (fun hagree => ?_) fun hpq => hq (hpq.mp hp)
      rw [hb.2 hq] at hagree
      cases hagree.1
  · by_cases hq : Q
    · rw [Agree, hb.1 hq]
      refine iff_of_false (fun hagree => ?_) fun hpq => hp (hpq.mpr hq)
      rw [ha.2 hp] at hagree
      cases hagree.1
    · refine iff_of_true ⟨(ha.2 hp).trans (hb.2 hq).symm, fun y z hy => ?_⟩ (iff_of_false hp hq)
      have hfail := ha.2 hp
      rw [hy] at hfail
      cases hfail

theorem not_placed_of_empty {action : Action} {plan : ManagementPlan ℚ} {be : BreakevenTrigger ℚ}
    (h : be.IsEmpty) : ¬ TriggerPlaced action plan be := by
  rintro ⟨g, hg, -⟩
  rw [h.1, h.2] at hg
  cases hg

/-- **Parity.** The two validators agree on a plan exactly when the action is HOLD, the plan has
no empty breakeven trigger, or it breaks a rule that both check. -/
theorem plan_validators_agree_iff (action : Action) (plan : ManagementPlan ℚ) (takeProfit : ℚ)
    (htp : action = .hold ∨ 0 < gain action plan.entry takeProfit) (atr14 : Option ℚ) (m : ℚ)
    (configured : F64) (minRr : Option F64) :
    Agree
        (validateTrade F64.fin configured action
          (some ⟨.fin plan.entry, .fin plan.initialStop, .fin takeProfit⟩) (atr14.map F64.fin)
          (some (planFields (plan.map F64.fin))) (some (.fin m)) minRr)
        (QuantCore.validateManagementPlan F64.fin action (plan.map F64.fin) (atr14.map F64.fin)
          (.fin m)) ↔
      action = .hold ∨ (∀ be ∈ plan.breakeven, ¬ be.IsEmpty) ∨
        ¬ PlanRules action plan atr14 m := by
  by_cases h : action = .hold
  · subst h
    exact iff_of_true ⟨rfl, fun x y hx hy => by cases hx; cases hy; rfl⟩ (.inl rfl)
  · have htp := htp.resolve_left h
    rw [agree_iff (validateTrade_decides h htp atr14 m configured minRr)
      (QuantCore.validateManagementPlan_decides h atr14 m), or_iff_right h]
    constructor
    · intro hiff
      by_cases hrules : PlanRules action plan atr14 m
      · refine .inl fun be hbe hempty => ?_
        -- an empty trigger passes the agent only
        have hplaced := hiff.mp ⟨hrules, fun x hx => .inr (Option.mem_unique hbe hx ▸ hempty)⟩
        exact not_placed_of_empty hempty (hplaced.2 be hbe)
      · exact .inr hrules
    · rintro (hempty | hrules)
      · refine and_congr_right fun _ => forall₂_congr fun be hbe => ?_
        exact or_iff_left (hempty be hbe)
      · exact iff_of_false (fun hp => hrules hp.1) fun hp => hrules hp.1

/-! ### An empty trigger -/

/-- One leg of full size, two risks above the entry. -/
def fullTarget : ManagementPlan ℚ :=
  { entry := 100, initialStop := 90, legs := [⟨120, 1⟩], breakeven := none }

def emptyTrigger : ManagementPlan ℚ := { fullTarget with breakeven := some ⟨none, none⟩ }

/-- Two legs, and a stop that moves to the entry after one risk. -/
def stagedTarget : ManagementPlan ℚ :=
  { entry := 100, initialStop := 90, legs := [⟨110, 2 / 5⟩, ⟨120, 3 / 5⟩]
    breakeven := some ⟨none, some 1⟩ }

theorem plan_validators_agree_stagedTarget :
    Agree
      (validateTrade F64.fin (.fin 2) .buy (some ⟨.fin 100, .fin 90, .fin 120⟩) (some (.fin 4))
        (some (planFields (stagedTarget.map F64.fin))) (some (.fin 1)) none)
      (QuantCore.validateManagementPlan F64.fin .buy (stagedTarget.map F64.fin) (some (.fin 4))
        (.fin 1)) := by
  refine (plan_validators_agree_iff .buy stagedTarget 120 (.inr (by decide +kernel)) (some 4) 1
    (.fin 2) none).mpr (.inr (.inl ?_))
  rintro be hbe ⟨-, hmultiple⟩
  obtain rfl := Option.some.inj hbe
  cases hmultiple

/-- The agent passes the plan, the server refuses it. -/
theorem empty_trigger_divides :
    validateTrade F64.fin (.fin 2) .buy (some ⟨.fin 100, .fin 90, .fin 120⟩) none
        (some (planFields (emptyTrigger.map F64.fin))) (some (.fin 2)) none = .pass (.fin 2) ∧
      QuantCore.validateManagementPlan F64.fin .buy (emptyTrigger.map F64.fin) none (.fin 2) =
        .fail .breakevenOutOfRange := by
  decide +kernel

end AiTrader.Agent
