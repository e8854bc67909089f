import AiTrader.Float
import AiTrader.TradeManager.Simulation

/-! # The steps of the exit simulation

What one candle can do, and the induction over a run.

* `fillLeg_cases`: a leg is passed over, used up for nothing, or filled.
* `simStep_going`, `simStep_done_cases`: the ways to go on and to end.
* `simLoop_cases`: an invariant of the steps holds where the run ends. -/

namespace AiTrader.TradeManager

theorem levelsOf_cases {C : Text.Casing} {plan : ManagementPlan} {L : Levels}
    (h : levelsOf C plan = some L) :
    finiteNum plan.entry = some L.entry ∧ finiteNum plan.initialStop = some L.stop ∧
      L.stopDistance = |L.entry - L.stop| ∧ L.stopDistance ≠ 0 ∧
        L.isBuy = !isSell C plan.action ∧ L.legs = plan.legs := by
  obtain ⟨entry, hentry, h⟩ := Option.bind_eq_some_iff.mp h
  obtain ⟨stop, hstop, h⟩ := Option.bind_eq_some_iff.mp h
  dsimp only at h
  split at h
  · cases h
  · rename_i hne
    cases h
    exact ⟨hentry, hstop, rfl, hne, rfl, rfl⟩

namespace Levels

variable {L : Levels} {s s' : Sim} {row : Row} {leg : ScaleOutLeg} {legs : List ScaleOutLeg} {i : ℕ}

theorem legSize_le {fraction : F64} {remaining frac : ℚ}
    (h : legSize fraction remaining = .fin frac) : frac ≤ remaining := by
  unfold legSize at h
  split at h
  · rename_i hle
    rw [h] at hle
    exact of_decide_eq_true (F64.le_fin ▸ hle)
  · cases h
    exact le_rfl

/-- The state after `frac` of the position was closed at the target of leg `i`. -/
def closedAt (L : Levels) (row : Row) (s : Sim) (i : ℕ) (target frac : ℚ) : Sim :=
  { s with
    filledIndices := i :: s.filledIndices
    fills := s.fills ++ [⟨i, target, frac, L.rOf target, truncate row.ts, .target⟩]
    remaining := s.remaining - frac }

/-- What one turn over the legs can do: nothing, use a leg up without a fill because its size is
no positive number, or fill it. -/
theorem fillLeg_cases (h : L.fillLeg row s i leg = some s') :
    s' = s ∨
    (∃ fraction, i ∉ s.filledIndices ∧ sizeTol < s.remaining ∧
      comparable leg.fraction = some fraction ∧
      (∀ frac, legSize fraction s.remaining = .fin frac → frac ≤ 0) ∧
      s' = { s with filledIndices := i :: s.filledIndices }) ∨
    ∃ target fraction frac, i ∉ s.filledIndices ∧ sizeTol < s.remaining ∧
      finiteNum leg.target = some target ∧ comparable leg.fraction = some fraction ∧
      legSize fraction s.remaining = .fin frac ∧ 0 < frac ∧ s' = L.closedAt row s i target frac := by
  unfold fillLeg at h
  split at h
  · exact .inl (Option.some.inj h).symm
  rename_i hopen
  rw [not_or, not_le] at hopen
  split at h
  · cases h
  split at h
  · exact .inl (Option.some.inj h).symm
  rename_i target htarget
  split at h
  · split at h
    · cases h
    rename_i fraction hfraction
    dsimp only at h
    split at h
    · rename_i frac hsize
      split at h
      · rename_i hle
        refine .inr (.inl ⟨fraction, hopen.1, hopen.2, hfraction, fun q hq => ?_,
          (Option.some.inj h).symm⟩)
        rw [hsize] at hq
        cases hq
        exact hle
      · rename_i hpos
        exact .inr (.inr ⟨target, fraction, frac, hopen.1, hopen.2, htarget, hfraction, hsize,
          not_le.mp hpos, (Option.some.inj h).symm⟩)
    · rename_i hsize
      exact .inr (.inl ⟨fraction, hopen.1, hopen.2, hfraction, fun q hq => absurd hq (hsize q),
        (Option.some.inj h).symm⟩)
  · exact .inl (Option.some.inj h).symm

theorem fillLeg_isSome (L : Levels) (row : Row) (s : Sim) (i : ℕ)
    (hsmall : tooLarge leg.target = false)
    (h : (finiteNum leg.target).isSome → (comparable leg.fraction).isSome) :
    ∃ s', L.fillLeg row s i leg = some s' := by
  unfold fillLeg
  rw [hsmall, if_neg Bool.false_ne_true]
  split
  · exact ⟨_, rfl⟩
  split
  · exact ⟨_, rfl⟩
  rename_i target htarget
  rw [htarget] at h
  obtain ⟨fraction, hfraction⟩ := Option.isSome_iff_exists.mp (h rfl)
  rw [hfraction]
  split
  · dsimp only
    split
    · split
      · exact ⟨_, rfl⟩
      · exact ⟨_, rfl⟩
    · exact ⟨_, rfl⟩
  · exact ⟨_, rfl⟩

/-- What every turn over a leg keeps, the loop over the legs keeps. -/
theorem fillLegs_induction {I : Sim → Prop}
    (hstep : ∀ s s' i leg, L.legs[i]? = some leg → I s → L.fillLeg row s i leg = some s' → I s')
    (hlegs : ∀ k, legs[k]? = L.legs[i + k]?) (hs : I s) (h : L.fillLegs row s i legs = some s') :
    I s' := by
  induction legs generalizing s i with
  | nil =>
      rw [fillLegs] at h
      exact Option.some.inj h ▸ hs
  | cons leg legs ih =>
      obtain ⟨t, ht, hrun⟩ := Option.bind_eq_some_iff.mp h
      have hleg : L.legs[i]? = some leg := (hlegs 0).symm
      refine ih (fun k => ?_) (hstep s t i leg hleg hs ht) hrun
      have hk := hlegs (k + 1)
      rw [List.getElem?_cons_succ] at hk
      rw [hk, Nat.add_assoc, Nat.add_comm 1 k]

theorem fillLegs_isSome (L : Levels) (row : Row) (s : Sim) (i : ℕ)
    (hsmall : ∀ leg ∈ legs, tooLarge leg.target = false)
    (h : ∀ leg ∈ legs, (finiteNum leg.target).isSome → (comparable leg.fraction).isSome) :
    ∃ s', L.fillLegs row s i legs = some s' := by
  induction legs generalizing s i with
  | nil => exact ⟨s, rfl⟩
  | cons leg legs ih =>
      obtain ⟨hleg, hrest⟩ := List.forall_mem_cons.mp h
      obtain ⟨htarget, htargets⟩ := List.forall_mem_cons.mp hsmall
      obtain ⟨t, ht⟩ := L.fillLeg_isSome row s i htarget hleg
      obtain ⟨s', hs'⟩ := ih t (i + 1) htargets hrest
      exact ⟨s', by rw [fillLegs, ht, Option.bind_some, hs']⟩

/-! ### The stop moves -/

/-- The move to breakeven happens once, and changes the stop and its mark only. -/
theorem moveToBreakeven_cases (L : Levels) (row : Row) (s : Sim) :
    L.moveToBreakeven row s = s ∨
    s.breakevenMoved = false ∧ ∃ stop origin, L.moveToBreakeven row s =
      { s with
        activeStop := stop
        stopOrigin := origin
        breakevenMoved := true
        breakevenMovedAt := some (truncate row.ts) } := by
  unfold moveToBreakeven
  split
  · exact .inl rfl
  split
  · rename_i hreached
    rw [Bool.and_eq_true, Bool.not_eq_true'] at hreached
    dsimp only
    split
    · exact .inr ⟨hreached.1, _, _, rfl⟩
    · exact .inr ⟨hreached.1, _, _, rfl⟩
  · exact .inl rfl

theorem trail_cases (L : Levels) (row : Row) (s : Sim) : L.trail row s = s ∨
    ∃ stop, L.trail row s =
      { s with activeStop := stop, stopOrigin := .trailStop, trailed := true } := by
  unfold trail
  split
  · exact .inl rfl
  split
  · dsimp only
    split
    · exact .inr ⟨_, rfl⟩
    · exact .inl rfl
  · exact .inl rfl

@[simp] theorem moveToBreakeven_fills : (L.moveToBreakeven row s).fills = s.fills := by
  rcases L.moveToBreakeven_cases row s with h | ⟨-, stop, origin, h⟩ <;> rw [h]

@[simp] theorem moveToBreakeven_filledIndices :
    (L.moveToBreakeven row s).filledIndices = s.filledIndices := by
  rcases L.moveToBreakeven_cases row s with h | ⟨-, stop, origin, h⟩ <;> rw [h]

@[simp] theorem moveToBreakeven_remaining : (L.moveToBreakeven row s).remaining = s.remaining := by
  rcases L.moveToBreakeven_cases row s with h | ⟨-, stop, origin, h⟩ <;> rw [h]

@[simp] theorem trail_fills : (L.trail row s).fills = s.fills := by
  rcases L.trail_cases row s with h | ⟨stop, h⟩ <;> rw [h]

@[simp] theorem trail_filledIndices : (L.trail row s).filledIndices = s.filledIndices := by
  rcases L.trail_cases row s with h | ⟨stop, h⟩ <;> rw [h]

@[simp] theorem trail_remaining : (L.trail row s).remaining = s.remaining := by
  rcases L.trail_cases row s with h | ⟨stop, h⟩ <;> rw [h]

@[simp] theorem trail_breakevenMoved :
    (L.trail row s).breakevenMoved = s.breakevenMoved := by
  rcases L.trail_cases row s with h | ⟨stop, h⟩ <;> rw [h]

@[simp] theorem trail_breakevenMovedAt :
    (L.trail row s).breakevenMovedAt = s.breakevenMovedAt := by
  rcases L.trail_cases row s with h | ⟨stop, h⟩ <;> rw [h]

/-! ### One candle -/

/-- The fill that closes the remainder at the stop. -/
def stopFill (L : Levels) (row : Row) (s : Sim) : LegFill :=
  ⟨-1, s.activeStop, s.remaining, L.rOf s.activeStop, truncate row.ts, s.stopOrigin⟩

/-- A candle that lets the run go on fills legs, leaves something to close and moves the stop. -/
theorem simStep_going (h : L.simStep row s = .going s') :
    ∃ t, L.fillLegs row s 0 L.legs = some t ∧ sizeTol < t.remaining ∧
      s' = L.trail row (L.moveToBreakeven row t) := by
  unfold simStep at h
  split at h
  · cases h
  split at h
  · cases h
  rename_i t ht
  split at h
  · cases h
  · rename_i hopen
    cases h
    exact ⟨t, ht, not_le.mp hopen, rfl⟩

/-- A candle that ends the run reaches the stop, or the targets leave nothing to close. -/
theorem simStep_done_cases {r : SimulationResult} (h : L.simStep row s = .done r) :
    r = ⟨.resolved, some (realizedR (s.fills ++ [L.stopFill row s])), s.fills ++ [L.stopFill row s],
      s.remaining, s.breakevenMovedAt, s.trailed⟩ ∨
    ∃ t, L.fillLegs row s 0 L.legs = some t ∧ t.remaining ≤ sizeTol ∧
      r = ⟨.resolved, some (realizedR t.fills), t.fills, 0, t.breakevenMovedAt, t.trailed⟩ := by
  unfold simStep at h
  split at h
  · exact .inl (StepOutcome.done.inj h).symm
  split at h
  · cases h
  rename_i t ht
  split at h
  · rename_i hclosed
    exact .inr ⟨t, ht, hclosed, (StepOutcome.done.inj h).symm⟩
  · cases h

theorem simStep_raised (h : L.simStep row s = .raised) : L.fillLegs row s 0 L.legs = none := by
  unfold simStep at h
  split at h
  · cases h
  split at h
  · rename_i ht
    exact ht
  split at h
  · cases h
  · cases h

/-! ### A run -/

/-- The result of a run that is out of candles. -/
def openResult (s : Sim) : SimulationResult :=
  ⟨.open, none, s.fills, s.remaining, s.breakevenMovedAt, s.trailed⟩

/-- What every candle keeps holds where the run ends: out of candles, with the last candle, or
where it raised. -/
theorem simLoop_cases {I : Sim → Prop}
    (hstep : ∀ s row s', I s → L.simStep row s = .going s' → I s') (hs : I s) (rows : List Row) :
    (∃ t, I t ∧ L.simLoop s rows = openResult t) ∨
    (∃ t row r, I t ∧ L.simStep row t = .done r ∧ L.simLoop s rows = r) ∨
    ∃ t row, I t ∧ L.simStep row t = .raised ∧ L.simLoop s rows = raisedResult := by
  induction rows generalizing s with
  | nil => exact .inl ⟨s, hs, rfl⟩
  | cons row rows ih =>
      rw [simLoop]
      cases hout : L.simStep row s with
      | going s' => exact ih (hstep s row s' hs hout)
      | done r => exact .inr (.inl ⟨s, row, r, hs, hout, rfl⟩)
      | raised => exact .inr (.inr ⟨s, row, hs, hout, rfl⟩)

end Levels

end AiTrader.TradeManager
