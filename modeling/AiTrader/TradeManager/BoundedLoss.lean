import AiTrader.Agent.Validator
import AiTrader.TradeManager.Steps
import Mathlib.Tactic.Linarith
import Mathlib.Tactic.FieldSimp
import Mathlib.Tactic.Positivity

/-! # The loss of a validated plan is bounded

The validator puts the initial stop on the loss side of the entry and every target on the profit
side (`Levels.Sound`); the simulation only ever moves the stop towards profit.  So the stop loses
at most the initial risk, and after the move to breakeven nothing (`Sim.Bounded`), and what was
scaled out before was scaled out at a profit. -/

namespace AiTrader.TradeManager

/-! ### What the levels of a sound plan meet -/

/-- The stop is one initial stop distance on the loss side of the entry and the targets are on
the profit side. -/
structure Levels.Sound (L : Levels) : Prop where
  risk : 0 < L.stopDistance
  stop : L.gain L.stop = -L.stopDistance
  targets : ∀ leg ∈ L.legs, ∀ t, finiteNum leg.target = some t → 0 < L.gain t

/-- The invariant of the loop: only targets have been filled, at a profit; what was closed and
what remains make the whole; the stop is not behind the initial one, nor behind the entry once
it was moved there. -/
structure Sim.Bounded (L : Levels) (s : Sim) : Prop where
  fills : ∀ f ∈ s.fills, f.kind = .target ∧ 0 ≤ f.fraction ∧ 0 ≤ f.legR
  remaining : 0 ≤ s.remaining
  whole : (s.fills.map LegFill.fraction).sum + s.remaining = 1
  stop : -L.stopDistance ≤ L.gain s.activeStop
  breakeven : s.breakevenMovedAt ≠ none → 0 ≤ L.gain s.activeStop
  origin : s.stopOrigin ≠ .target

/-- What is to hold of a resolved result. -/
structure SimulationResult.Bounded (r : SimulationResult) : Prop where
  realized : ∃ R, r.realizedR = some R ∧ -1 ≤ R ∧ (r.breakevenMovedAt ≠ none → 0 ≤ R)
  stopFill : ∀ f ∈ r.fills, f.kind ≠ .target →
    -1 ≤ f.legR ∧ (r.breakevenMovedAt ≠ none → 0 ≤ f.legR)

namespace Levels

variable {L : Levels} {s s' : Sim} {row : Row} {leg : ScaleOutLeg} {i : ℕ}

theorem gain_entry : L.gain L.entry = 0 := by
  unfold gain
  split <;> exact sub_self _

theorem gain_lt_of_tighter {a b : ℚ} (h : L.tighter a b = true) : L.gain b < L.gain a := by
  unfold tighter at h
  unfold gain
  split at h
  · rename_i hbuy
    rw [if_pos hbuy, if_pos hbuy]
    linarith [of_decide_eq_true h]
  · rename_i hsell
    rw [if_neg hsell, if_neg hsell]
    linarith [of_decide_eq_true h]

theorem not_tighter {a b : ℚ} (h : ¬ L.tighter a b = true) : L.gain a ≤ L.gain b := by
  unfold tighter at h
  unfold gain
  split at h
  · rename_i hbuy
    rw [if_pos hbuy, if_pos hbuy]
    linarith [not_lt.mp fun hlt => h (decide_eq_true hlt)]
  · rename_i hsell
    rw [if_neg hsell, if_neg hsell]
    linarith [not_lt.mp fun hlt => h (decide_eq_true hlt)]

/-! ### One candle -/

theorem fillLeg_bounded (hL : L.Sound) (hleg : leg ∈ L.legs) (hs : s.Bounded L)
    (h : L.fillLeg row s i leg = some s') : s'.Bounded L := by
  rcases fillLeg_cases h with rfl | ⟨-, -, -, -, -, rfl⟩ | hfill
  · exact hs
  · exact ⟨hs.fills, hs.remaining, hs.whole, hs.stop, hs.breakeven, hs.origin⟩
  · obtain ⟨target, fraction, frac, -, -, htarget, -, hsize, hpos, rfl⟩ := hfill
    constructor
    case fills =>
      intro f hf
      rcases List.mem_append.mp hf with hf | hf
      · exact hs.fills f hf
      · rw [List.mem_singleton.mp hf]
        exact ⟨rfl, hpos.le, div_nonneg (hL.targets leg hleg target htarget).le hL.risk.le⟩
    case remaining => exact sub_nonneg.mpr (legSize_le hsize)
    case whole =>
      show ((s.fills ++ [_]).map LegFill.fraction).sum + (s.remaining - frac) = 1
      rw [List.map_append, List.sum_append, List.map_singleton, List.sum_singleton]
      linarith [hs.whole]
    case stop => exact hs.stop
    case breakeven => exact hs.breakeven
    case origin => exact hs.origin

theorem fillLegs_bounded (hL : L.Sound) (hs : s.Bounded L)
    (h : L.fillLegs row s 0 L.legs = some s') : s'.Bounded L :=
  fillLegs_induction
    (fun _ _ _ _ hleg hs h => fillLeg_bounded hL (List.mem_of_getElem? hleg) hs h)
    (fun k => by rw [Nat.zero_add]) hs h

theorem moveToBreakeven_bounded (hs : s.Bounded L) : (L.moveToBreakeven row s).Bounded L := by
  unfold moveToBreakeven
  split
  · exact hs
  split
  · dsimp only
    split
    · rename_i htighter
      have hgain := gain_lt_of_tighter htighter
      rw [gain_entry] at hgain
      constructor
      case fills => exact hs.fills
      case remaining => exact hs.remaining
      case whole => exact hs.whole
      case stop =>
        show -L.stopDistance ≤ L.gain L.entry
        rw [gain_entry]
        linarith [hs.stop]
      case breakeven =>
        intro _
        exact gain_entry.ge
      case origin => exact FillKind.noConfusion
    · rename_i hnot
      have hgain := not_tighter hnot
      rw [gain_entry] at hgain
      exact ⟨hs.fills, hs.remaining, hs.whole, hs.stop, fun _ => hgain, hs.origin⟩
  · exact hs

theorem trail_bounded (hs : s.Bounded L) : (L.trail row s).Bounded L := by
  unfold trail
  split
  · exact hs
  split
  · dsimp only
    split
    · rename_i htighter
      have hgain := gain_lt_of_tighter htighter
      exact ⟨hs.fills, hs.remaining, hs.whole, hs.stop.trans hgain.le,
        fun hmoved => (hs.breakeven hmoved).trans hgain.le, FillKind.noConfusion⟩
    · exact hs
  · exact hs

theorem realizedR_nonneg {fills : List LegFill}
    (h : ∀ f ∈ fills, f.kind = .target ∧ 0 ≤ f.fraction ∧ 0 ≤ f.legR) : 0 ≤ realizedR fills := by
  refine List.sum_nonneg ?_
  rw [List.forall_mem_map]
  exact fun f hf => mul_nonneg (h f hf).2.1 (h f hf).2.2

theorem remaining_le_one (hs : s.Bounded L) : s.remaining ≤ 1 := by
  have hclosed : 0 ≤ (s.fills.map LegFill.fraction).sum := by
    refine List.sum_nonneg ?_
    rw [List.forall_mem_map]
    exact fun f hf => (hs.fills f hf).2.1
  linarith [hs.whole]

theorem rOf_ge (hL : L.Sound) {price : ℚ} (h : -L.stopDistance ≤ L.gain price) :
    -1 ≤ L.rOf price := by
  rw [rOf, le_div_iff₀ hL.risk]
  linarith

/-- The stop is hit: the remainder loses at most its part of the initial risk. -/
theorem stopped_bounded (hL : L.Sound) (hs : s.Bounded L) (t : ℤ) :
    (SimulationResult.mk .resolved
      (some (realizedR (s.fills ++
        [⟨-1, s.activeStop, s.remaining, L.rOf s.activeStop, t, s.stopOrigin⟩])))
      (s.fills ++ [⟨-1, s.activeStop, s.remaining, L.rOf s.activeStop, t, s.stopOrigin⟩])
      s.remaining s.breakevenMovedAt s.trailed).Bounded := by
  have hstop : -1 ≤ L.rOf s.activeStop := rOf_ge hL hs.stop
  have hmoved : s.breakevenMovedAt ≠ none → 0 ≤ L.rOf s.activeStop :=
    fun h => div_nonneg (hs.breakeven h) hL.risk.le
  have hscaled := realizedR_nonneg hs.fills
  have hsum : realizedR (s.fills ++
      [⟨-1, s.activeStop, s.remaining, L.rOf s.activeStop, t, s.stopOrigin⟩]) =
        realizedR s.fills + s.remaining * L.rOf s.activeStop := by
    simp [realizedR]
  constructor
  case realized =>
    refine ⟨_, rfl, ?_, fun h => ?_⟩
    · rw [hsum]
      have hloss : s.remaining * -1 ≤ s.remaining * L.rOf s.activeStop :=
        mul_le_mul_of_nonneg_left hstop hs.remaining
      linarith [remaining_le_one hs]
    · rw [hsum]
      exact add_nonneg hscaled (mul_nonneg hs.remaining (hmoved h))
  case stopFill =>
    intro f hf hkind
    rcases List.mem_append.mp hf with hf | hf
    · exact absurd (hs.fills f hf).1 hkind
    · rw [List.mem_singleton.mp hf]
      exact ⟨hstop, hmoved⟩

/-- **One candle** keeps the invariant. -/
theorem simStep_bounded (hL : L.Sound) (hs : s.Bounded L) (h : L.simStep row s = .going s') :
    s'.Bounded L := by
  obtain ⟨t, ht, -, rfl⟩ := simStep_going h
  exact trail_bounded (moveToBreakeven_bounded (fillLegs_bounded hL hs ht))

theorem result_bounded (hL : L.Sound) (hs : s.Bounded L) {r : SimulationResult}
    (h : L.simStep row s = .done r) : r.Bounded := by
  rcases simStep_done_cases h with rfl | ⟨t, ht, -, rfl⟩
  · exact stopped_bounded hL hs (truncate row.ts)
  · have hs' := fillLegs_bounded hL hs ht
    have hscaled := realizedR_nonneg hs'.fills
    exact ⟨⟨_, rfl, by linarith, fun _ => hscaled⟩,
      fun f hf hkind => absurd (hs'.fills f hf).1 hkind⟩

theorem simLoop_bounded (hL : L.Sound) (hs : s.Bounded L) (rows : List Row)
    (hr : (L.simLoop s rows).status = .resolved) : (L.simLoop s rows).Bounded := by
  rcases simLoop_cases (fun _ _ _ hs h => simStep_bounded hL hs h) hs rows with
    ⟨t, -, hrun⟩ | ⟨t, row, r, ht, hdone, hrun⟩ | ⟨-, -, -, -, hrun⟩
  · rw [hrun] at hr
    cases hr
  · rw [hrun]
    exact result_bounded hL ht hdone
  · rw [hrun] at hr
    cases hr

theorem start_bounded (hL : L.Sound) : L.start.Bounded L where
  fills := by simp [start]
  remaining := zero_le_one
  whole := by simp [start]
  stop := hL.stop.ge
  breakeven h := absurd rfl h
  origin := FillKind.noConfusion

end Levels

/-! ### What the validator guarantees -/

open Agent QuantCore

/-- What the validator reads of a field: `None` is absent, and what is no number meets no
check. -/
def optionalField : PyVal → Option F64
  | .none => none
  | v => some ((comparable v).getD .nan)

/-- The plan as the validator reads it. -/
def ManagementPlan.fields (plan : ManagementPlan) : PlanFields where
  entry := optionalField plan.entry
  initialStop := optionalField plan.initialStop
  legs := plan.legs.map fun leg =>
    ⟨(comparable leg.target).getD .nan, (comparable leg.fraction).getD .nan⟩
  breakeven := plan.breakeven.map fun be => ⟨optionalField be.price, optionalField be.rMultiple⟩

theorem comparable_of_finiteNum {v : PyVal} {q : ℚ} (h : finiteNum v = some q) :
    comparable v = some (.fin q) := by
  unfold finiteNum at h
  split at h
  · split at h
    · cases h
    · cases h
      rfl
  · cases h
    rfl
  · cases h

theorem optionalField_of_finiteNum {v : PyVal} {q : ℚ} (h : finiteNum v = some q) :
    optionalField v = some (.fin q) := by
  have hcomp := comparable_of_finiteNum h
  cases v with
  | none => cases h
  | _ => simp only [optionalField, hcomp, Option.getD_some]

section
variable {rnd : ℚ → F64} {action : Action} {fields : PlanFields} {entry stop : ℚ} {blended : F64}

theorem targets_of_orderingOk {isBuy : Bool} {previous : F64}
    {legs : List (QuantCore.ScaleOutLeg F64)}
    (h : orderingOk isBuy (.fin entry) previous legs = true) :
    ∀ leg ∈ legs, ∀ t, leg.target = .fin t → if isBuy then entry < t else t < entry := by
  induction legs generalizing previous with
  | nil => simp
  | cons leg legs ih =>
      rw [orderingOk, Bool.and_eq_true, Bool.and_eq_true] at h
      rw [List.forall_mem_cons]
      refine ⟨fun t ht => ?_, ih h.2⟩
      have hside := h.1.2
      rw [ht] at hside
      cases isBuy with
      | true =>
          rw [if_pos rfl, Bool.and_eq_true, F64.lt_fin, decide_eq_true_eq] at hside
          exact hside.1
      | false =>
          rw [if_neg Bool.false_ne_true, Bool.and_eq_true, F64.lt_fin, decide_eq_true_eq] at hside
          exact hside.1

theorem exists_pass {o : ValidatorOutcome} (h : o.isPass = true) : ∃ b, o = .pass b := by
  cases o with
  | pass b => exact ⟨b, rfl⟩
  | fail r => cases h

theorem pass_refuse {c : Prop} [Decidable c] {r : ValidatorReason} {o : ValidatorOutcome}
    (h : (if c then .fail r else o) = .pass blended) : ¬ c ∧ o = .pass blended := by
  split at h
  · cases h
  · exact ⟨‹_›, h⟩

/-- A plan that passes has fractions that can be summed up, its stop on the loss side and its
targets in order, and comes with its blended reward. -/
theorem validateManagementPlan_spec {minBlended : F64}
    (h : Agent.validateManagementPlan rnd action fields (.fin entry) (.fin stop) minBlended =
      .pass blended) :
    (∃ sum, Agent.legFractionSum rnd (.fin 0) fields.legs = some sum) ∧
      (if action = .buy then stop < entry else entry < stop) ∧
      orderingOk (decide (action = .buy)) (.fin entry) (.fin entry) fields.legs = true ∧
      blended = Agent.blendedReward rnd (.fin entry)
        (F64.abs (F64.sub rnd (.fin entry) (.fin stop))) (.fin 0) fields.legs := by
  unfold Agent.validateManagementPlan at h
  dsimp only at h
  split at h
  · cases h
  split at h
  · cases h
  rename_i sum hsum
  obtain ⟨-, h⟩ := pass_refuse h
  obtain ⟨-, h⟩ := pass_refuse h
  obtain ⟨hstop, h⟩ := pass_refuse h
  obtain ⟨htargets, h⟩ := pass_refuse h
  obtain ⟨-, h⟩ := pass_refuse h
  obtain ⟨-, h⟩ := pass_refuse h
  rw [Bool.not_eq_true', Bool.not_eq_false] at hstop htargets
  refine ⟨⟨sum, hsum⟩, ?_, htargets, (ValidatorOutcome.pass.inj h).symm⟩
  by_cases hbuy : action = .buy
  · rw [if_pos hbuy]
    rw [if_pos (by simpa using hbuy), F64.lt_fin, decide_eq_true_eq] at hstop
    exact hstop
  · rw [if_neg hbuy]
    rw [if_neg (by simpa using hbuy), F64.lt_fin, decide_eq_true_eq] at hstop
    exact hstop

theorem validateTrade_plan {configured : F64} {levels : Option ExecutionLevels}
    {atr14 minBlended minRiskReward : Option F64} (hdir : action ≠ .hold)
    (h : validateTrade rnd configured action levels atr14 (some fields) minBlended
      minRiskReward = .pass blended) :
    ∃ entry stop : ℚ, Agent.validateManagementPlan rnd action fields
      (fields.entry.getD (.fin entry)) (fields.initialStop.getD (.fin stop))
        (minBlended.getD configured) = .pass blended := by
  unfold validateTrade at h
  rw [if_neg hdir] at h
  split at h
  · rename_i entry stop takeProfit
    obtain ⟨-, h⟩ := pass_refuse h
    dsimp only at h
    obtain ⟨-, h⟩ := pass_refuse h
    obtain ⟨-, h⟩ := pass_refuse h
    exact ⟨entry, stop, h⟩
  · cases h

theorem spec_of_validateTrade {C : Text.Casing} {configured : F64}
    {levels : Option ExecutionLevels} {atr14 minBlended minRiskReward : Option F64}
    {plan : ManagementPlan} {L : Levels} (hdir : action ≠ .hold)
    (h : validateTrade rnd configured action levels atr14 (some plan.fields) minBlended
      minRiskReward = .pass blended) (hL : levelsOf C plan = some L) :
    (∃ sum, Agent.legFractionSum rnd (.fin 0) plan.fields.legs = some sum) ∧
      (if action = .buy then L.stop < L.entry else L.entry < L.stop) ∧
      orderingOk (decide (action = .buy)) (.fin L.entry) (.fin L.entry) plan.fields.legs = true ∧
      blended = Agent.blendedReward rnd (.fin L.entry)
        (F64.abs (F64.sub rnd (.fin L.entry) (.fin L.stop))) (.fin 0) plan.fields.legs := by
  obtain ⟨hentry, hstop, -⟩ := levelsOf_cases hL
  obtain ⟨e, i, hplan⟩ := validateTrade_plan hdir h
  rw [show plan.fields.entry = some (.fin L.entry) from optionalField_of_finiteNum hentry,
    show plan.fields.initialStop = some (.fin L.stop) from optionalField_of_finiteNum hstop,
    Option.getD_some, Option.getD_some] at hplan
  exact validateManagementPlan_spec hplan

theorem isSell_name {C : Text.Casing} (hdir : action ≠ .hold) :
    isSell C (.str action.name) = decide (action = .sell) := by
  cases action with
  | buy =>
      rw [isSell, Action.name, C.upper_of_ascii (by decide)]
      decide
  | sell =>
      rw [isSell, Action.name, C.upper_of_ascii (by decide)]
      decide
  | hold => exact absurd rfl hdir

theorem levels_sound {C : Text.Casing} {configured : F64} {levels : Option ExecutionLevels}
    {atr14 minBlended minRiskReward : Option F64} {plan : ManagementPlan} {L : Levels}
    (hdir : action ≠ .hold) (haction : plan.action = .str action.name)
    (h : (validateTrade rnd configured action levels atr14 (some plan.fields) minBlended
      minRiskReward).isPass = true) (hL : levelsOf C plan = some L) : L.Sound := by
  obtain ⟨-, -, hdist, hne, hbuy, hlegs⟩ := levelsOf_cases hL
  obtain ⟨b, hb⟩ := exists_pass h
  obtain ⟨-, hside, hordering, -⟩ := spec_of_validateTrade hdir hb hL
  have htargets := targets_of_orderingOk hordering
  rw [haction, isSell_name hdir] at hbuy
  have hisBuy : L.isBuy = true ↔ action = .buy := by
    rw [hbuy]
    cases action with
    | buy => decide
    | sell => decide
    | hold => exact absurd rfl hdir
  constructor
  case risk => exact lt_of_le_of_ne (hdist ▸ abs_nonneg _) (Ne.symm hne)
  case stop =>
    rw [hdist, Levels.gain]
    by_cases hb : action = .buy
    · rw [if_pos hb] at hside
      rw [if_pos (hisBuy.mpr hb), abs_of_pos (sub_pos.mpr hside), neg_sub]
    · rw [if_neg hb] at hside
      rw [if_neg (fun h => hb (hisBuy.mp h)), abs_of_neg (sub_neg.mpr hside), neg_neg]
  case targets =>
    intro leg hleg t ht
    have hmem : (⟨(comparable leg.target).getD .nan, (comparable leg.fraction).getD .nan⟩ :
        QuantCore.ScaleOutLeg F64) ∈ plan.fields.legs :=
      List.mem_map_of_mem (f := fun l : ScaleOutLeg => (⟨(comparable l.target).getD .nan,
        (comparable l.fraction).getD .nan⟩ : QuantCore.ScaleOutLeg F64)) (hlegs ▸ hleg)
    have hprofit := htargets _ hmem t (by rw [comparable_of_finiteNum ht]; rfl)
    rw [Levels.gain]
    simp only [decide_eq_true_eq] at hprofit
    by_cases hb : action = .buy
    · rw [if_pos hb] at hprofit
      rw [if_pos (hisBuy.mpr hb)]
      exact sub_pos.mpr hprofit
    · rw [if_neg hb] at hprofit
      rw [if_neg (fun h => hb (hisBuy.mp h))]
      exact sub_pos.mpr hprofit

end

/-- **Bounded loss of a validated plan.**  A plan of the trade's action that the validator accepts
loses at most the initial risk in any simulation: the realized R of a resolved one is at least
`-1`, and so is the R of a fill at the stop; once the stop was moved to breakeven neither is
negative. -/
theorem validated_plan_bounded_loss (C : Text.Casing) (configured : F64) (action : Action)
    (levels : Option ExecutionLevels) (atr14 minBlended minRiskReward : Option F64)
    (plan : ManagementPlan) (candles : List PyVal) (hdir : action ≠ .hold)
    (haction : plan.action = .str action.name)
    (hpass : (validateTrade F64.fin configured action levels atr14 (some plan.fields) minBlended
      minRiskReward).isPass = true)
    (hresolved : (simulatePlan C plan candles).status = .resolved) :
    let result := simulatePlan C plan candles
    (∃ R, result.realizedR = some R ∧ -1 ≤ R ∧ (result.breakevenMovedAt ≠ none → 0 ≤ R)) ∧
      ∀ f ∈ result.fills, f.kind ≠ .target →
        -1 ≤ f.legR ∧ (result.breakevenMovedAt ≠ none → 0 ≤ f.legR) := by
  intro result
  have hbounded : result.Bounded := by
    show (simulatePlan C plan candles).Bounded
    obtain ⟨L, hL, hrun⟩ := simulatePlan_resolved hresolved
    rw [hrun] at hresolved ⊢
    have hsound := levels_sound hdir haction hpass hL
    exact Levels.simLoop_bounded hsound (Levels.start_bounded hsound) _ hresolved
  exact ⟨hbounded.realized, hbounded.stopFill⟩

/-- Half of the position goes at 130, the rest at the entry. -/
def scaledOutPlan : ManagementPlan where
  action := .str "BUY"
  entry := .float (.fin 100)
  initialStop := .float (.fin 90)
  legs := [⟨.float (.fin 130), .float (.fin (1 / 2))⟩]
  breakeven := some { rMultiple := .float (.fin 1) }

/-- A candle that reaches the target and one that comes back to the entry. -/
def scaledOutCandles : List PyVal :=
  [.dict [("timestamp_ms", .int 60000), ("open", .int 100), ("high", .int 131), ("low", .int 95),
    ("close", .int 120)],
   .dict [("timestamp_ms", .int 120000), ("open", .int 120), ("high", .int 121), ("low", .int 99),
    ("close", .int 101)]]

theorem validated_plan_bounded_loss_scaledOut :
    let result := simulatePlan Text.Casing.ascii scaledOutPlan scaledOutCandles
    (∃ R, result.realizedR = some R ∧ -1 ≤ R ∧ (result.breakevenMovedAt ≠ none → 0 ≤ R)) ∧
      ∀ f ∈ result.fills, f.kind ≠ .target →
        -1 ≤ f.legR ∧ (result.breakevenMovedAt ≠ none → 0 ≤ f.legR) :=
  validated_plan_bounded_loss Text.Casing.ascii (.fin 1) .buy
    (some ⟨.fin 100, .fin 90, .fin 130⟩) none none none scaledOutPlan scaledOutCandles
    (by decide) rfl (by decide +kernel) (by decide +kernel)

end AiTrader.TradeManager
