import AiTrader.Float
import Mathlib.Algebra.BigOperators.Intervals
import Mathlib.Algebra.Order.BigOperators.Group.List
import Mathlib.Algebra.Order.Field.Rat
import Mathlib.Tactic.Linarith

/-! # The value area

`_value_area_bounds` (`src/agents/deep-quant-loop/tools.py`) grows a range of rows from the point
of control, always by the larger of the two neighbouring rows.  `grow` is one step of it and
`ValueArea` what the range it ends with is. -/

namespace AiTrader.VolumeProfile

/-- `_normalize_value_percent`; a value that `float` does not take is `none`. -/
def normalizeValuePercent (pct : Option F64) : ℚ :=
  match F64.finiteValue pct with
  | none => 70
  | some v => max 1 (min 100 v)

/-- An inclusive range of rows. -/
structure Area where
  lo : ℕ
  hi : ℕ
  deriving DecidableEq

section
variable (rowVolumes : List ℚ)

/-- The row below the area, as the loop compares it. -/
def below (area : Area) : F64 :=
  if 0 < area.lo then .fin (rowVolumes.getD (area.lo - 1) 0) else .negInf

/-- The row above the area. -/
def above (area : Area) : F64 :=
  if area.hi + 1 < rowVolumes.length then .fin (rowVolumes.getD (area.hi + 1) 0) else .negInf

/-- The loop of `_value_area_bounds`, `none` when the fuel does not suffice. -/
def expandLoop (target : ℚ) : ℕ → Area → ℚ → Option Area
  | 0, area, acc =>
      if acc < target ∧ (0 < area.lo ∨ area.hi + 1 < rowVolumes.length) then none else some area
  | fuel + 1, area, acc =>
      if acc < target ∧ (0 < area.lo ∨ area.hi + 1 < rowVolumes.length) then
        if below rowVolumes area = .negInf ∧ above rowVolumes area = .negInf then some area
        -- the lower row on a tie
        else if F64.le (above rowVolumes area) (below rowVolumes area) then
          expandLoop target fuel ⟨area.lo - 1, area.hi⟩ (acc + rowVolumes.getD (area.lo - 1) 0)
        else
          expandLoop target fuel ⟨area.lo, area.hi + 1⟩ (acc + rowVolumes.getD (area.hi + 1) 0)
      else some area

/-- `_value_area_bounds`. -/
def valueAreaBounds (fuel pocIndex : ℕ) (valuePercent : Option F64) : Option Area :=
  let n := rowVolumes.length
  if n = 0 then some ⟨0, 0⟩
  else
    let poc := min pocIndex (n - 1)
    let total := rowVolumes.sum
    if total ≤ 0 then some ⟨poc, poc⟩
    else
      let target := total * (normalizeValuePercent valuePercent / 100)
      expandLoop rowVolumes target fuel ⟨poc, poc⟩ (rowVolumes.getD poc 0)

/-! ### What the area is -/

/-- The volume of an area. -/
def areaVolume (area : Area) : ℚ := ∑ i ∈ Finset.Ico area.lo (area.hi + 1), rowVolumes.getD i 0

/-- The area with the larger of its two neighbours. -/
def grow (area : Area) : Area :=
  if F64.le (above rowVolumes area) (below rowVolumes area) then ⟨area.lo - 1, area.hi⟩
  else ⟨area.lo, area.hi + 1⟩

/-- A range of rows that the point of control has grown to: the last row was added to a range that
was still below the target. -/
structure Grown (poc : ℕ) (target : ℚ) (area : Area) : Prop where
  lo_le : area.lo ≤ poc
  le_hi : poc ≤ area.hi
  hi_lt : area.hi < rowVolumes.length
  path : ∃ k, area = (grow rowVolumes)^[k] ⟨poc, poc⟩
  last : area = ⟨poc, poc⟩ ∨
    ∃ k before, before = (grow rowVolumes)^[k] ⟨poc, poc⟩ ∧ area = grow rowVolumes before ∧
      ((0 < before.lo ∧ area = ⟨before.lo - 1, before.hi⟩) ∨ area = ⟨before.lo, before.hi + 1⟩) ∧
      areaVolume rowVolumes before < target

/-- The range that holds the target, or everything. -/
structure ValueArea (poc : ℕ) (target : ℚ) (area : Area) : Prop extends
    Grown rowVolumes poc target area where
  reached : target ≤ areaVolume rowVolumes area ∨
    (area.lo = 0 ∧ area.hi + 1 = rowVolumes.length)

end

section
variable {rowVolumes : List ℚ} {area : Area} {poc : ℕ} {target : ℚ}

theorem areaVolume_single (i : ℕ) : areaVolume rowVolumes ⟨i, i⟩ = rowVolumes.getD i 0 := by
  rw [areaVolume, Nat.Ico_succ_singleton, Finset.sum_singleton]

theorem areaVolume_below (hlo : 0 < area.lo) (hle : area.lo ≤ area.hi) :
    areaVolume rowVolumes ⟨area.lo - 1, area.hi⟩ =
      areaVolume rowVolumes area + rowVolumes.getD (area.lo - 1) 0 := by
  rw [areaVolume, areaVolume, Finset.sum_eq_sum_Ico_succ_bot (by simp only; omega), add_comm]
  simp only [Nat.sub_add_cancel hlo]

theorem areaVolume_above (hle : area.lo ≤ area.hi) :
    areaVolume rowVolumes ⟨area.lo, area.hi + 1⟩ =
      areaVolume rowVolumes area + rowVolumes.getD (area.hi + 1) 0 := by
  rw [areaVolume, areaVolume, Finset.sum_Ico_succ_top (by simp only; omega)]

theorem grow_cases (h : 0 < area.lo ∨ area.hi + 1 < rowVolumes.length) :
    (0 < area.lo ∧ F64.le (above rowVolumes area) (below rowVolumes area) = true ∧
        grow rowVolumes area = ⟨area.lo - 1, area.hi⟩) ∨
      (area.hi + 1 < rowVolumes.length ∧
        F64.le (above rowVolumes area) (below rowVolumes area) = false ∧
        grow rowVolumes area = ⟨area.lo, area.hi + 1⟩) := by
  by_cases hle : F64.le (above rowVolumes area) (below rowVolumes area) = true
  · refine .inl ⟨?_, hle, if_pos hle⟩
    by_contra hlo
    have hhi := h.resolve_left hlo
    rw [below, above, if_neg hlo, if_pos hhi] at hle
    cases hle
  · refine .inr ⟨?_, Bool.not_eq_true _ |>.mp hle, if_neg hle⟩
    by_contra hhi
    rw [above, if_neg hhi, below, if_pos (h.resolve_right hhi)] at hle
    exact hle rfl

theorem grown_poc (hpoc : poc < rowVolumes.length) (target : ℚ) :
    Grown rowVolumes poc target ⟨poc, poc⟩ where
  lo_le := le_rfl
  le_hi := le_rfl
  hi_lt := hpoc
  path := ⟨0, rfl⟩
  last := .inl rfl

theorem Grown.lower (h : Grown rowVolumes poc target area) (hpos : 0 < area.lo)
    (hgrow : grow rowVolumes area = ⟨area.lo - 1, area.hi⟩)
    (hbelow : areaVolume rowVolumes area < target) :
    Grown rowVolumes poc target ⟨area.lo - 1, area.hi⟩ := by
  obtain ⟨k, hk⟩ := h.path
  exact
    { lo_le := (Nat.sub_le _ _).trans h.lo_le
      le_hi := h.le_hi
      hi_lt := h.hi_lt
      path := ⟨k + 1, by rw [Function.iterate_succ_apply', ← hk, hgrow]⟩
      last := .inr ⟨k, area, hk, hgrow.symm, .inl ⟨hpos, rfl⟩, hbelow⟩ }

theorem Grown.upper (h : Grown rowVolumes poc target area)
    (hroom : area.hi + 1 < rowVolumes.length)
    (hgrow : grow rowVolumes area = ⟨area.lo, area.hi + 1⟩)
    (hbelow : areaVolume rowVolumes area < target) :
    Grown rowVolumes poc target ⟨area.lo, area.hi + 1⟩ := by
  obtain ⟨k, hk⟩ := h.path
  exact
    { lo_le := h.lo_le
      le_hi := h.le_hi.trans (Nat.le_succ _)
      hi_lt := hroom
      path := ⟨k + 1, by rw [Function.iterate_succ_apply', ← hk, hgrow]⟩
      last := .inr ⟨k, area, hk, hgrow.symm, .inr rfl, hbelow⟩ }

theorem neighbour_ne_negInf (h : 0 < area.lo ∨ area.hi + 1 < rowVolumes.length) :
    ¬ (below rowVolumes area = .negInf ∧ above rowVolumes area = .negInf) := by
  rintro ⟨hbelow, habove⟩
  rcases h with hlo | hhi
  · rw [below, if_pos hlo] at hbelow
    cases hbelow
  · rw [above, if_pos hhi] at habove
    cases habove

/-- The loop from an area on the way.  Induction on the fuel, which covers the rows outside. -/
theorem expandLoop_spec (area : Area) (h : Grown rowVolumes poc target area) (fuel : ℕ)
    (hfuel : area.lo + (rowVolumes.length - 1 - area.hi) ≤ fuel) :
    ∃ final, expandLoop rowVolumes target fuel area (areaVolume rowVolumes area) = some final ∧
      ValueArea rowVolumes poc target final := by
  have hle : area.lo ≤ area.hi := h.lo_le.trans h.le_hi
  have hlt := h.hi_lt
  induction fuel generalizing area with
  | zero =>
      refine ⟨area, ?_, h, .inr ⟨by omega, by omega⟩⟩
      rw [expandLoop, if_neg (by omega)]
  | succ fuel ih =>
      rw [expandLoop]
      split
      · rename_i hgo
        obtain ⟨hbelow, hneighbour⟩ := hgo
        rw [if_neg (neighbour_ne_negInf hneighbour)]
        rcases grow_cases hneighbour with ⟨hpos, hcmp, hgrow⟩ | ⟨hroom, hcmp, hgrow⟩
        · have hnext := h.lower hpos hgrow hbelow
          rw [if_pos hcmp, ← areaVolume_below hpos hle]
          exact ih _ hnext (by simp only; omega) (hnext.lo_le.trans hnext.le_hi) hnext.hi_lt
        · have hnext := h.upper hroom hgrow hbelow
          rw [if_neg (by simp [hcmp]), ← areaVolume_above hle]
          exact ih _ hnext (by simp only; omega) (hnext.lo_le.trans hnext.le_hi) hnext.hi_lt
      · rename_i hstop
        refine ⟨area, rfl, h, ?_⟩
        rw [not_and_or, not_lt, not_or] at hstop
        refine hstop.imp id fun hwhole => ?_
        omega

/-- Fuel for every row is enough, and the result is the value area. -/
theorem valueAreaBounds_spec (hpoc : poc < rowVolumes.length) (htotal : 0 < rowVolumes.sum)
    (valuePercent : Option F64) {fuel : ℕ} (hfuel : rowVolumes.length ≤ fuel) :
    ∃ area, valueAreaBounds rowVolumes fuel poc valuePercent = some area ∧
      ValueArea rowVolumes poc
        (rowVolumes.sum * (normalizeValuePercent valuePercent / 100)) area := by
  have hmin : min poc (rowVolumes.length - 1) = poc := by omega
  have hloop := expandLoop_spec ⟨poc, poc⟩
    (grown_poc hpoc (rowVolumes.sum * (normalizeValuePercent valuePercent / 100))) fuel
    (by simp only; omega)
  rw [areaVolume_single] at hloop
  simp only [valueAreaBounds, hmin]
  rw [if_neg (by omega), if_neg (not_le.mpr htotal)]
  exact hloop

end

end AiTrader.VolumeProfile
