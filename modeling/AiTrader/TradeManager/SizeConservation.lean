import AiTrader.TradeManager.Steps
import Mathlib.Tactic.Linarith

/-! # The size of the position is conserved

What was closed and what remains make the whole position, whatever the fractions of the legs: a
leg closes no more than what remains, and one whose size is no positive number closes nothing
(`Sim.Accounted`).  A run ends with a stop fill of the remainder, or with targets that leave less
than the tolerance. -/

namespace AiTrader.TradeManager

/-- The invariant of the loop over the legs: every fill is of a leg that is used up, no leg has
two, and the closed fractions and the remainder make the whole. -/
structure Sim.Accounted (s : Sim) : Prop where
  positive : ∀ f ∈ s.fills, 0 < f.fraction
  indexed : ∀ f ∈ s.fills, ∃ i ∈ s.filledIndices, f.index = (i : ℤ)
  nodup : (s.fills.map LegFill.index).Nodup
  whole : (s.fills.map LegFill.fraction).sum + s.remaining = 1
  remaining : 0 ≤ s.remaining

/-- What is to hold of a result. -/
structure SimulationResult.Conserved (r : SimulationResult) : Prop where
  positive : ∀ f ∈ r.fills, 0 < f.fraction
  nodup : (r.fills.map LegFill.index).Nodup
  residualLast : ∀ f ∈ r.fills.dropLast, f.index ≠ -1
  opened : r.status = .open → (r.fills.map LegFill.fraction).sum + r.residualFraction = 1
  resolved : r.status = .resolved →
    (r.fills.map LegFill.fraction).sum ≤ 1 ∧ 1 - sizeTol ≤ (r.fills.map LegFill.fraction).sum
  residual : r.status = .resolved →
    (∀ f ∈ r.fills, f.index = -1 → r.residualFraction = f.fraction) ∧
      ((∀ f ∈ r.fills, f.index ≠ -1) → r.residualFraction = 0)

theorem sizeTol_pos : 0 < sizeTol := by
  decide +kernel

theorem sizeTol_lt_one : sizeTol < 1 := by
  decide +kernel

namespace Levels

variable {L : Levels} {s s' : Sim} {row : Row} {leg : ScaleOutLeg} {i : ℕ}

/-! ### The legs -/

theorem closedAt_accounted {target frac : ℚ} (hs : s.Accounted) (hi : i ∉ s.filledIndices)
    (hpos : 0 < frac) (hle : frac ≤ s.remaining) : (L.closedAt row s i target frac).Accounted where
  positive f hf := by
    rcases List.mem_append.mp hf with hf | hf
    · exact hs.positive f hf
    · rw [List.mem_singleton.mp hf]
      exact hpos
  indexed f hf := by
    rcases List.mem_append.mp hf with hf | hf
    · obtain ⟨j, hj, hindex⟩ := hs.indexed f hf
      exact ⟨j, List.mem_cons_of_mem i hj, hindex⟩
    · rw [List.mem_singleton.mp hf]
      exact ⟨i, List.mem_cons_self, rfl⟩
  nodup := by
    show ((s.fills ++ [_]).map LegFill.index).Nodup
    rw [List.map_append]
    refine hs.nodup.append (List.nodup_singleton _) fun index hold hnew => ?_
    -- an earlier fill of this leg would have used it up
    obtain ⟨f, hf, rfl⟩ := List.mem_map.mp hold
    obtain ⟨j, hj, hindex⟩ := hs.indexed f hf
    have hij : (j : ℤ) = i := hindex.symm.trans (List.mem_singleton.mp hnew)
    exact hi (Int.ofNat_inj.mp hij ▸ hj)
  whole := by
    show ((s.fills ++ [_]).map LegFill.fraction).sum + (s.remaining - frac) = 1
    rw [List.map_append, List.sum_append, List.map_singleton, List.sum_singleton]
    linarith [hs.whole]
  remaining := sub_nonneg.mpr hle

theorem fillLeg_accounted (hs : s.Accounted) (h : L.fillLeg row s i leg = some s') :
    s'.Accounted := by
  rcases fillLeg_cases h with rfl | ⟨-, -, -, -, -, rfl⟩ | hfill
  · exact hs
  · refine ⟨hs.positive, fun f hf => ?_, hs.nodup, hs.whole, hs.remaining⟩
    obtain ⟨j, hj, hindex⟩ := hs.indexed f hf
    exact ⟨j, List.mem_cons_of_mem i hj, hindex⟩
  · obtain ⟨target, fraction, frac, hi, -, -, -, hsize, hpos, rfl⟩ := hfill
    exact closedAt_accounted hs hi hpos (legSize_le hsize)

theorem fillLegs_accounted (hs : s.Accounted) (h : L.fillLegs row s 0 L.legs = some s') :
    s'.Accounted :=
  fillLegs_induction (fun _ _ _ _ _ hs h => fillLeg_accounted hs h)
    (fun k => by rw [Nat.zero_add]) hs h

/-! ### A candle -/

theorem trail_accounted (hs : s.Accounted) :
    (L.trail row (L.moveToBreakeven row s)).Accounted := by
  constructor
  case positive => simpa using hs.positive
  case indexed => simpa using hs.indexed
  case nodup => simpa using hs.nodup
  case whole => simpa using hs.whole
  case remaining => simpa using hs.remaining

/-- **One candle** keeps the account open: there is more to close than the tolerance. -/
theorem simStep_accounted (hs : s.Accounted) (h : L.simStep row s = .going s') :
    s'.Accounted ∧ sizeTol < s'.remaining := by
  obtain ⟨t, ht, hopen, rfl⟩ := simStep_going h
  refine ⟨trail_accounted (fillLegs_accounted hs ht), ?_⟩
  rw [trail_remaining, moveToBreakeven_remaining]
  exact hopen

/-! ### The results -/

theorem index_ne (hs : s.Accounted) {f : LegFill} (hf : f ∈ s.fills) : f.index ≠ -1 := by
  obtain ⟨i, -, hindex⟩ := hs.indexed f hf
  omega

theorem openResult_conserved (hs : s.Accounted) : (openResult s).Conserved where
  positive := hs.positive
  nodup := hs.nodup
  residualLast _ hf := index_ne hs (List.mem_of_mem_dropLast hf)
  opened _ := hs.whole
  resolved h := nomatch h
  residual h := nomatch h

theorem closed_conserved (hs : s.Accounted) (hclosed : s.remaining ≤ sizeTol)
    (realized : Option ℚ) (moved : Option ℤ) (trailed : Bool) :
    (SimulationResult.mk .resolved realized s.fills 0 moved trailed).Conserved where
  positive := hs.positive
  nodup := hs.nodup
  residualLast _ hf := index_ne hs (List.mem_of_mem_dropLast hf)
  opened h := nomatch h
  resolved _ := by
    have hwhole := hs.whole
    have hremaining := hs.remaining
    show (s.fills.map LegFill.fraction).sum ≤ 1 ∧ 1 - sizeTol ≤ (s.fills.map LegFill.fraction).sum
    constructor <;> linarith
  residual _ := ⟨fun _ hf hindex => absurd hindex (index_ne hs hf), fun _ => rfl⟩

theorem stopped_conserved (hs : s.Accounted) (hopen : sizeTol < s.remaining)
    (realized : Option ℚ) (moved : Option ℤ) (trailed : Bool) :
    (SimulationResult.mk .resolved realized (s.fills ++ [L.stopFill row s]) s.remaining moved
      trailed).Conserved where
  positive f hf := by
    rcases List.mem_append.mp hf with hf | hf
    · exact hs.positive f hf
    · rw [List.mem_singleton.mp hf]
      exact sizeTol_pos.trans hopen
  nodup := by
    show ((s.fills ++ [_]).map LegFill.index).Nodup
    rw [List.map_append]
    refine hs.nodup.append (List.nodup_singleton _) fun index hold hnew => ?_
    obtain ⟨f, hf, rfl⟩ := List.mem_map.mp hold
    exact index_ne hs hf (List.mem_singleton.mp hnew)
  residualLast _ hf := by
    rw [List.dropLast_concat] at hf
    exact index_ne hs hf
  opened h := nomatch h
  resolved _ := by
    have hsum : ((s.fills ++ [L.stopFill row s]).map LegFill.fraction).sum = 1 := by
      rw [List.map_append, List.sum_append, List.map_singleton, List.sum_singleton]
      exact hs.whole
    show ((s.fills ++ [_]).map LegFill.fraction).sum ≤ 1 ∧
      1 - sizeTol ≤ ((s.fills ++ [_]).map LegFill.fraction).sum
    rw [hsum]
    exact ⟨le_rfl, sub_le_self 1 sizeTol_pos.le⟩
  residual _ := by
    refine ⟨fun f hf hindex => ?_, fun hno => ?_⟩
    · rcases List.mem_append.mp hf with hf | hf
      · exact absurd hindex (index_ne hs hf)
      · rw [List.mem_singleton.mp hf]
        rfl
    · exact absurd rfl (hno _ (List.mem_append_right s.fills List.mem_cons_self))

theorem raisedResult_conserved : raisedResult.Conserved where
  positive _ hf := nomatch hf
  nodup := List.nodup_nil
  residualLast _ hf := nomatch hf
  opened _ := by
    show ([] : List ℚ).sum + 1 = 1
    rw [List.sum_nil, zero_add]
  resolved h := nomatch h
  residual h := nomatch h

theorem start_accounted : L.start.Accounted where
  positive _ hf := nomatch hf
  indexed _ hf := nomatch hf
  nodup := List.nodup_nil
  whole := by
    show ([] : List ℚ).sum + 1 = 1
    rw [List.sum_nil, zero_add]
  remaining := zero_le_one

/-- **A run** conserves the size, however it ends. -/
theorem simLoop_conserved (rows : List Row) : (L.simLoop L.start rows).Conserved := by
  rcases simLoop_cases (I := fun s => s.Accounted ∧ sizeTol < s.remaining)
    (fun s row s' hs h => simStep_accounted hs.1 h) ⟨start_accounted, sizeTol_lt_one⟩ rows with
    ⟨t, ht, hrun⟩ | ⟨t, row, r, ht, hdone, hrun⟩ | ⟨-, -, -, -, hrun⟩
  · rw [hrun]
    exact openResult_conserved ht.1
  · rw [hrun]
    rcases simStep_done_cases hdone with rfl | ⟨t', ht', hclosed, rfl⟩
    · exact stopped_conserved ht.1 ht.2 _ _ _
    · exact closed_conserved (fillLegs_accounted ht.1 ht') hclosed _ _ _
  · rw [hrun]
    exact raisedResult_conserved

end Levels

theorem invalid_conserved : (SimulationResult.mk .invalid none [] 0 none false).Conserved where
  positive _ hf := nomatch hf
  nodup := List.nodup_nil
  residualLast _ hf := nomatch hf
  opened h := nomatch h
  resolved h := nomatch h
  residual h := nomatch h

/-- **Conservation of size**, for every plan and whatever its legs: every fill is of a positive
fraction, no index is filled twice, and only the last fill can be the residual's.  The fills of an
open result and its residual make the whole; those of a resolved one the whole up to the
tolerance, and its residual is the fraction of the residual's fill, if there is one. -/
theorem simulatePlan_conserves_size (C : Text.Casing) (plan : ManagementPlan)
    (candles : List PyVal) :
    let result := simulatePlan C plan candles
    let closed := (result.fills.map LegFill.fraction).sum
    (∀ f ∈ result.fills, 0 < f.fraction) ∧
      (result.fills.map LegFill.index).Nodup ∧
      (∀ f ∈ result.fills.dropLast, f.index ≠ -1) ∧
      (result.status = .open → closed + result.residualFraction = 1) ∧
      (result.status = .resolved → closed ≤ 1 ∧ 1 - 1 / 10 ^ 9 ≤ closed ∧
        (∀ f ∈ result.fills, f.index = -1 → result.residualFraction = f.fraction) ∧
        ((∀ f ∈ result.fills, f.index ≠ -1) → result.residualFraction = 0)) := by
  intro result closed
  have hconserved : result.Conserved := by
    show (simulatePlan C plan candles).Conserved
    unfold simulatePlan
    cases hL : opening C plan with
    | error r =>
        rcases opening_error hL with rfl | ⟨rfl, -⟩
        · exact Levels.raisedResult_conserved
        · exact invalid_conserved
    | ok L =>
        dsimp only
        split
        · exact Levels.raisedResult_conserved
        · exact L.simLoop_conserved (cleanCandles candles)
  refine ⟨hconserved.positive, hconserved.nodup, hconserved.residualLast, hconserved.opened,
    fun h => ?_⟩
  obtain ⟨hle, hge⟩ := hconserved.resolved h
  exact ⟨hle, hge, hconserved.residual h⟩

end AiTrader.TradeManager
