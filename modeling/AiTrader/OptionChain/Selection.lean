import AiTrader.Float
import Mathlib.Data.Finset.Image
import Mathlib.Data.Finset.Lattice.Lemmas
import Mathlib.Data.List.Destutter
import Mathlib.Data.List.Sort

/-! # The bounded option chain of one underlying

`src/aggregator/src/option_chain.rs`.  A strike is a double, an expiry a number of days
(`NaiveDate` compares as that), `rnd` rounds a difference.

The comparison given to `sort_by` treats not-a-number as equal to everything, which is no order:
on such a list the sort may even panic.  So the sort is a parameter (`StrikeSort`) that is the
stable sort on lists of numbers, and of which otherwise only that it adds nothing is known. -/

namespace AiTrader.OptionChain

abbrev Token := UInt32

/-- `NaiveDate`, in days. -/
abbrev Date := ℤ

inductive OptionType
  | ce | pe | fut
  deriving DecidableEq, Repr

/-- A single tradable derivative contract resolved from the instrument master. -/
structure OptionContract where
  token : Token
  tradingsymbol : String
  underlying : String
  optionType : OptionType
  strike : F64
  expiry : Date
  deriving DecidableEq

/-- Resolved scope of the bounded option-chain subscription. -/
structure ChainConfig where
  nearestExpiries : ℕ
  strikeBandHalfWidth : ℕ
  recenterThreshold : F64
  snapshotIntervalSecs : UInt64
  deriving DecidableEq

/-- One instrument chosen for subscription. -/
structure SelectedOption where
  token : Token
  tradingsymbol : String
  underlying : String
  expiry : Date
  strike : F64
  optionType : OptionType
  deriving DecidableEq

/-- The bounded set of instruments chosen for one underlying. -/
structure ChainSelection where
  underlying : String
  atmStrike : F64
  entries : List SelectedOption
  deriving DecidableEq

/-- The expiries of the chosen instruments. -/
def ChainSelection.expiries (s : ChainSelection) : Finset Date :=
  (s.entries.map SelectedOption.expiry).toFinset

/-- `slice::sort_by` with `partial_cmp(..).unwrap_or(Equal)` on a key.  With NaN among the keys the
comparison is no total order and the sort may panic; there it is only said that it adds nothing. -/
structure StrikeSort where
  sortBy : {α : Type} → (α → F64) → List α → List α
  subset : ∀ {α : Type} (key : α → F64) (xs : List α), sortBy key xs ⊆ xs
  stable : ∀ {α : Type} (key : α → F64) (xs : List α), (∀ x ∈ xs, key x ≠ .nan) →
    sortBy key xs = xs.mergeSort (fun a b => F64.le (key a) (key b))

/-- A sort that treats every list alike. -/
def StrikeSort.merge : StrikeSort where
  sortBy key xs := xs.mergeSort (fun a b => F64.le (key a) (key b))
  subset _ xs := (List.mergeSort_perm xs _).subset
  stable _ _ _ := rfl

section
variable (S : StrikeSort) (rnd : ℚ → F64)

/-- `resolve_ladder`: the underlying's calls and puts of one expiry, by strike. -/
def resolveLadder (instruments : List OptionContract) (underlying : String) (expiry : Date) :
    List OptionContract :=
  S.sortBy OptionContract.strike (instruments.filter fun c =>
    c.underlying = underlying ∧ c.expiry = expiry ∧ (c.optionType = .ce ∨ c.optionType = .pe))

/-- One turn of `select_atm`: strictly closer wins, on a tie the lower strike is kept. -/
def nearer (spot : F64) (best : Option (F64 × F64)) (strike : F64) : Option (F64 × F64) :=
  if !strike.isFinite then best
  else
    let dist := F64.abs (F64.sub rnd strike spot)
    match best with
    | none => some (strike, dist)
    | some (current, bestDist) =>
        if F64.lt dist bestDist || (F64.eq dist bestDist && F64.lt strike current) then
          some (strike, dist)
        else best

/-- `select_atm`: the listed strike nearest to `spot`. -/
def selectAtm (strikes : List F64) (spot : F64) : Option F64 :=
  if !spot.isFinite then none
  else (strikes.foldl (nearer rnd spot) none).map Prod.fst

/-- `select_strike_band`: the contiguous strikes around `atm`, at most `m` on either side. -/
def selectStrikeBand (strikes : List F64) (atm : F64) (m : ℕ) : List F64 :=
  if !atm.isFinite then []
  else
    let sorted := S.sortBy id (strikes.filter F64.isFinite)
    let ladder := sorted.destutter (fun a b => F64.eq a b = false)
    if ladder.isEmpty then []
    else match ladder.findIdx? (fun s => F64.eq s atm) with
      | none => []
      | some i =>
          let lo := i - m
          let hi := min (i + m) (ladder.length - 1)
          (ladder.take (hi + 1)).drop lo

/-- `select_nearest_expiries`: the `n` nearest expiries that are not before `today`. -/
def selectNearestExpiries (instruments : List OptionContract) (underlying : String)
    (today : Date) (n : ℕ) : List Date :=
  if n = 0 then []
  else
    let live := instruments.filter fun c => c.underlying = underlying ∧ today ≤ c.expiry
    let expiries := (live.map OptionContract.expiry).insertionSort (· ≤ ·)
    (expiries.destutter (· ≠ ·)).take n

/-- A contract enters the selection unless its token is there already. -/
def addEntry (entries : List SelectedOption) (c : OptionContract) : List SelectedOption :=
  if c.token ∈ entries.map SelectedOption.token then entries
  else entries ++ [⟨c.token, c.tradingsymbol, c.underlying, c.expiry, c.strike, c.optionType⟩]

/-- The listed contracts of the cells `expiries × band × {CE, PE}`, in that order. -/
def bandContracts (instruments : List OptionContract) (underlying : String)
    (expiries : List Date) (band : List F64) : List OptionContract :=
  expiries.flatMap fun exp =>
    let ladder := resolveLadder S instruments underlying exp
    band.flatMap fun strike =>
      [OptionType.ce, OptionType.pe].filterMap fun optType =>
        ladder.find? fun c => F64.eq c.strike strike && decide (c.optionType = optType)

/-- `build_chain_selection`. -/
def buildChainSelection (instruments : List OptionContract) (underlying : String) (spot : F64)
    (today : Date) (cfg : ChainConfig) : ChainSelection :=
  let empty : ChainSelection := ⟨underlying, .fin 0, []⟩
  if !spot.isFinite then empty
  else
    let expiries := selectNearestExpiries instruments underlying today cfg.nearestExpiries
    if expiries.isEmpty then empty
    else
      let unionStrikes := expiries.flatMap fun exp =>
        ((resolveLadder S instruments underlying exp).map OptionContract.strike).filter F64.isFinite
      match selectAtm rnd unionStrikes spot with
      | none => empty
      | some atm =>
          let band := selectStrikeBand S unionStrikes atm cfg.strikeBandHalfWidth
          if band.isEmpty then empty
          else
            let contracts := bandContracts S instruments underlying expiries band
            ⟨underlying, atm, contracts.foldl addEntry []⟩

/-- `should_recenter`: the ATM strike has moved by at least `threshold`. -/
def shouldRecenter (currentAtm newAtm threshold : F64) : Bool :=
  F64.le threshold (F64.abs (F64.sub rnd newAtm currentAtm))

end

/-! ### What a selection holds -/

/-- The strikes of the underlying's calls and puts are numbers. -/
def NumericStrikes (instruments : List OptionContract) (underlying : String) : Prop :=
  ∀ c ∈ instruments, c.underlying = underlying → (c.optionType = .ce ∨ c.optionType = .pe) →
    c.strike ≠ .nan

section
variable {S : StrikeSort} {rnd : ℚ → F64} {instruments : List OptionContract}
  {underlying : String} {today : Date} {n : ℕ} {c : OptionContract} {exp : Date}

theorem of_mem_resolveLadder (h : c ∈ resolveLadder S instruments underlying exp) :
    c ∈ instruments ∧ c.underlying = underlying ∧ c.expiry = exp ∧
      (c.optionType = .ce ∨ c.optionType = .pe) := by
  have hlisted := S.subset _ _ h
  rwa [List.mem_filter, decide_eq_true_eq] at hlisted

theorem mem_resolveLadder (hnum : NumericStrikes instruments underlying) :
    c ∈ resolveLadder S instruments underlying exp ↔
      c ∈ instruments ∧ c.underlying = underlying ∧ c.expiry = exp ∧
        (c.optionType = .ce ∨ c.optionType = .pe) := by
  rw [resolveLadder, S.stable, List.mem_mergeSort, List.mem_filter, decide_eq_true_eq]
  intro d hd
  obtain ⟨hmem, hd⟩ := List.mem_filter.mp hd
  obtain ⟨hunderlying, -, htype⟩ := of_decide_eq_true hd
  exact hnum d hmem hunderlying htype

theorem mem_selectNearestExpiries (h : exp ∈ selectNearestExpiries instruments underlying today n) :
    today ≤ exp := by
  unfold selectNearestExpiries at h
  split at h
  · cases h
  · have hsorted := (List.destutter_sublist _ _).mem (List.mem_of_mem_take h)
    rw [List.mem_insertionSort] at hsorted
    obtain ⟨c, hc, rfl⟩ := List.mem_map.mp hsorted
    have hlive := of_decide_eq_true (List.mem_filter.mp hc).2
    exact hlive.2

theorem bandContracts_expiry {expiries : List Date} {band : List F64}
    (h : c ∈ bandContracts S instruments underlying expiries band) : c.expiry ∈ expiries := by
  obtain ⟨exp, hexp, hc⟩ := List.mem_flatMap.mp h
  obtain ⟨strike, -, hc⟩ := List.mem_flatMap.mp hc
  obtain ⟨optType, -, hfind⟩ := List.mem_filterMap.mp hc
  have hladder := of_mem_resolveLadder (List.mem_of_find?_eq_some hfind)
  rw [hladder.2.2.1]
  exact hexp

theorem mem_addEntry {entries : List SelectedOption} {e : SelectedOption}
    (h : e ∈ addEntry entries c) : e ∈ entries ∨ e.expiry = c.expiry := by
  unfold addEntry at h
  split at h
  · exact .inl h
  · rcases List.mem_append.mp h with h | h
    · exact .inl h
    · rw [List.mem_singleton.mp h]
      exact .inr rfl

theorem mem_foldl_addEntry {contracts : List OptionContract} {entries : List SelectedOption}
    {e : SelectedOption} (h : e ∈ contracts.foldl addEntry entries) :
    e ∈ entries ∨ ∃ c ∈ contracts, e.expiry = c.expiry := by
  induction contracts generalizing entries with
  | nil => exact .inl h
  | cons c contracts ih =>
      rcases ih h with h | ⟨d, hd, hexp⟩
      · rcases mem_addEntry h with h | hexp
        · exact .inl h
        · exact .inr ⟨c, List.mem_cons_self, hexp⟩
      · exact .inr ⟨d, List.mem_cons_of_mem _ hd, hexp⟩

@[simp] theorem buildChainSelection_underlying (spot : F64) (cfg : ChainConfig) :
    (buildChainSelection S rnd instruments underlying spot today cfg).underlying = underlying := by
  unfold buildChainSelection
  dsimp only
  repeat' split
  all_goals rfl

/-- No selected instrument has expired on the day of the selection. -/
theorem today_le_of_mem_expiries {spot : F64} {cfg : ChainConfig}
    (h : exp ∈ (buildChainSelection S rnd instruments underlying spot today cfg).expiries) :
    today ≤ exp := by
  rw [ChainSelection.expiries, List.mem_toFinset] at h
  obtain ⟨e, he, rfl⟩ := List.mem_map.mp h
  unfold buildChainSelection at he
  dsimp only at he
  split at he
  · cases he
  split at he
  · cases he
  split at he
  · cases he
  split at he
  · cases he
  · rcases mem_foldl_addEntry he with h | ⟨c, hc, hexp⟩
    · cases h
    · rw [hexp]
      exact mem_selectNearestExpiries (bandContracts_expiry hc)

end

end AiTrader.OptionChain
