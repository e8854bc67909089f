import AiTrader.Library.Rank
import AiTrader.OptionChain.Selection
import Mathlib.Data.Prod.Lex
import Mathlib.Order.WithBot

/-! # The selection is a cross product

What `build_chain_selection` is for: the calls and puts of the underlying at its nearest expiries
whose strike is in the band around the strike nearest to spot (`Selected`).  The helpers work on
sorted lists and positions; here an expiry is near by its rank among the live expiries, and a strike
is in the band by its rank among the listed strikes. -/

namespace AiTrader.OptionChain

open Rank

/-! ### What is to be selected -/

/-- The expiries of the underlying, of whatever contract, that are not before `today`. -/
def liveExpiries (instruments : List OptionContract) (underlying : String) (today : Date) :
    Finset Date :=
  ((instruments.filter fun c => c.underlying = underlying ∧ today ≤ c.expiry).map
    OptionContract.expiry).toFinset

/-- A call or a put of the underlying at one of the expiries. -/
structure IsOption (underlying : String) (expiries : Finset Date) (c : OptionContract) : Prop where
  underlying : c.underlying = underlying
  expiry : c.expiry ∈ expiries
  optionType : c.optionType = .ce ∨ c.optionType = .pe

instance (underlying : String) (expiries : Finset Date) :
    DecidablePred (IsOption underlying expiries) := fun c =>
  decidable_of_iff (c.underlying = underlying ∧ c.expiry ∈ expiries ∧
    (c.optionType = .ce ∨ c.optionType = .pe)) ⟨fun h => ⟨h.1, h.2.1, h.2.2⟩, fun h => ⟨h.1, h.2, h.3⟩⟩

/-- The number of a finite strike. -/
def strikeValue : F64 → Option ℚ
  | .fin q => some q
  | _ => none

/-- The distinct strikes of the calls and puts at the expiries. -/
def listedStrikes (instruments : List OptionContract) (underlying : String)
    (expiries : Finset Date) : Finset ℚ :=
  ((instruments.filter (IsOption underlying expiries)).filterMap
    fun c => strikeValue c.strike).toFinset

/-- The distance of a strike from spot, as the code computes it. -/
def distanceF64 (rnd : ℚ → F64) (spot strike : ℚ) : F64 :=
  F64.abs (F64.sub rnd (.fin strike) (.fin spot))

/-- A distance as a number; one that overflows is farther than all others. -/
def farness : F64 → WithTop ℚ
  | .fin d => d
  | _ => ⊤

def distance (rnd : ℚ → F64) (spot strike : ℚ) : WithTop ℚ := farness (distanceF64 rnd spot strike)

/-- The strike nearest to spot, the lower one on a tie. -/
structure IsAtm (rnd : ℚ → F64) (strikes : Finset ℚ) (spot atm : ℚ) : Prop where
  listed : atm ∈ strikes
  nearest : ∀ s ∈ strikes, distance rnd spot atm < distance rnd spot s ∨
    distance rnd spot atm = distance rnd spot s ∧ atm ≤ s

/-- A contract of the cross product. -/
def Selected (rnd : ℚ → F64) (instruments : List OptionContract) (underlying : String) (spot : ℚ)
    (today : Date) (cfg : ChainConfig) (c : OptionContract) : Prop :=
  let expiries := least (liveExpiries instruments underlying today) cfg.nearestExpiries
  let strikes := listedStrikes instruments underlying expiries
  c ∈ instruments ∧ IsOption underlying expiries c ∧
    ∃ atm strike, IsAtm rnd strikes spot atm ∧ c.strike = .fin strike ∧
      strike ∈ window strikes atm cfg.strikeBandHalfWidth

section
variable {S : StrikeSort} {rnd : ℚ → F64} {instruments : List OptionContract}
  {underlying : String} {today : Date} {n m : ℕ} {c : OptionContract} {spot atm : ℚ}

/-! ### The expiries -/

theorem selectNearestExpiries_toFinset :
    (selectNearestExpiries instruments underlying today n).toFinset =
      least (liveExpiries instruments underlying today) n := by
  ext exp
  rw [List.mem_toFinset]
  unfold selectNearestExpiries
  split
  · rename_i hn
    rw [mem_least, hn]
    constructor
    · intro h
      cases h
    · exact fun h => absurd h.2 (Nat.not_lt_zero _)
  · obtain ⟨hsorted, hmembers⟩ := pairwise_destutter (List.pairwise_insertionSort (· ≤ ·)
      ((instruments.filter fun c => c.underlying = underlying ∧ today ≤ c.expiry).map
        OptionContract.expiry))
    rw [mem_take_iff hsorted, hmembers, liveExpiries]
    rw [List.toFinset_eq_of_perm _ _ (List.perm_insertionSort (· ≤ ·) _)]

theorem length_selectNearestExpiries_le :
    (selectNearestExpiries instruments underlying today n).length ≤ n := by
  unfold selectNearestExpiries
  split
  · exact Nat.zero_le n
  · exact List.length_take_le n _

/-! ### The strike nearest to spot -/

/-- What the fold compares. -/
def atmKey (rnd : ℚ → F64) (spot strike : ℚ) : WithTop ℚ ×ₗ ℚ :=
  toLex (distance rnd spot strike, strike)

theorem isAtm_iff {strikes : Finset ℚ} : IsAtm rnd strikes spot atm ↔
    atm ∈ strikes ∧ ∀ s ∈ strikes, atmKey rnd spot atm ≤ atmKey rnd spot s := by
  simp only [atmKey, Prod.Lex.toLex_le_toLex]
  exact ⟨fun h => ⟨h.listed, h.nearest⟩, fun h => ⟨h.1, h.2⟩⟩

theorem IsAtm.unique {strikes : Finset ℚ} {atm' : ℚ} (h : IsAtm rnd strikes spot atm)
    (h' : IsAtm rnd strikes spot atm') : atm = atm' := by
  rw [isAtm_iff] at h h'
  have hkey := le_antisymm (h.2 atm' h'.1) (h'.2 atm h.1)
  exact (Prod.mk.inj (toLex.injective hkey)).2

theorem distanceF64_cases (hrnd : ∀ q, rnd q ≠ .nan) (spot strike : ℚ) :
    (∃ d, distanceF64 rnd spot strike = .fin d) ∨ distanceF64 rnd spot strike = .posInf := by
  rw [distanceF64, F64.sub_fin]
  cases h : rnd (strike - spot) with
  | nan => exact absurd h (hrnd _)
  | fin d => exact .inl ⟨|d|, rfl⟩
  | posInf => exact .inr rfl
  | negInf => exact .inr rfl

theorem lt_iff_farness {x y : F64} (hx : (∃ d, x = .fin d) ∨ x = .posInf)
    (hy : (∃ d, y = .fin d) ∨ y = .posInf) :
    (F64.lt x y = true ↔ farness x < farness y) ∧ (F64.eq x y = true ↔ farness x = farness y) := by
  rcases hx with ⟨a, rfl⟩ | rfl <;> rcases hy with ⟨b, rfl⟩ | rfl
  · simp [farness, F64.eq]
  · simp [farness, F64.lt, F64.eq]
  · simp [farness, F64.lt, F64.eq]
  · simp [farness, F64.lt, F64.eq]

theorem nearer_iff (hrnd : ∀ q, rnd q ≠ .nan) {a b : ℚ} :
    (F64.lt (distanceF64 rnd spot a) (distanceF64 rnd spot b) ||
      (F64.eq (distanceF64 rnd spot a) (distanceF64 rnd spot b) &&
        F64.lt (.fin a) (.fin b))) = true ↔
    atmKey rnd spot a < atmKey rnd spot b := by
  obtain ⟨hlt, heq⟩ :=
    lt_iff_farness (distanceF64_cases hrnd spot a) (distanceF64_cases hrnd spot b)
  rw [Bool.or_eq_true, Bool.and_eq_true, hlt, heq, F64.lt_fin, decide_eq_true_eq, atmKey, atmKey,
    Prod.Lex.toLex_lt_toLex]
  rfl

theorem nearer_some (hrnd : ∀ q, rnd q ≠ .nan) (spot a q : ℚ) :
    ∃ b, nearer rnd (.fin spot) (some (.fin a, distanceF64 rnd spot a)) (.fin q) =
        some (.fin b, distanceF64 rnd spot b) ∧
      (b = a ∨ b = q) ∧ atmKey rnd spot b ≤ atmKey rnd spot a ∧
      atmKey rnd spot b ≤ atmKey rnd spot q := by
  by_cases hlt : atmKey rnd spot q < atmKey rnd spot a
  · refine ⟨q, ?_, .inr rfl, hlt.le, le_rfl⟩
    rw [← nearer_iff hrnd] at hlt
    rw [nearer, F64.isFinite_fin]
    exact if_pos hlt
  · refine ⟨a, ?_, .inl rfl, le_rfl, not_lt.mp hlt⟩
    rw [← nearer_iff hrnd] at hlt
    rw [nearer, F64.isFinite_fin]
    exact if_neg hlt

theorem foldl_nearer (hrnd : ∀ q, rnd q ≠ .nan) (spot : ℚ) (qs : List ℚ) (a : ℚ) :
    ∃ b, (qs.map F64.fin).foldl (nearer rnd (.fin spot))
        (some (.fin a, distanceF64 rnd spot a)) = some (.fin b, distanceF64 rnd spot b) ∧
      b ∈ a :: qs ∧ ∀ q ∈ a :: qs, atmKey rnd spot b ≤ atmKey rnd spot q := by
  induction qs generalizing a with
  | nil => exact ⟨a, rfl, List.mem_cons_self, fun q hq => by rw [List.mem_singleton.mp hq]⟩
  | cons q qs ih =>
      obtain ⟨a', hstep, hchoice, hlea, hleq⟩ := nearer_some hrnd spot a q
      obtain ⟨b, hfold, hmem, hbest⟩ := ih a'
      refine ⟨b, ?_, ?_, ?_⟩
      · rw [List.map_cons, List.foldl_cons, hstep]
        exact hfold
      · rcases List.mem_cons.mp hmem with rfl | hmem
        · rcases hchoice with rfl | rfl <;> simp
        · exact List.mem_cons_of_mem a (List.mem_cons_of_mem q hmem)
      · have hba := hbest a' List.mem_cons_self
        intro r hr
        rcases List.mem_cons.mp hr with rfl | hr
        · exact hba.trans hlea
        rcases List.mem_cons.mp hr with rfl | hr
        · exact hba.trans hleq
        · exact hbest r (List.mem_cons_of_mem a' hr)

/-- `select_atm` finds the strike nearest to spot, where there is one. -/
theorem selectAtm_spec (hrnd : ∀ q, rnd q ≠ .nan) (spot : ℚ) (qs : List ℚ) :
    (qs = [] ∧ selectAtm rnd (qs.map F64.fin) (.fin spot) = none) ∨
    ∃ atm, selectAtm rnd (qs.map F64.fin) (.fin spot) = some (.fin atm) ∧
      IsAtm rnd qs.toFinset spot atm := by
  rw [selectAtm, F64.isFinite_fin]
  cases qs with
  | nil => exact .inl ⟨rfl, rfl⟩
  | cons a qs =>
      obtain ⟨b, hfold, hmem, hbest⟩ := foldl_nearer hrnd spot qs a
      refine .inr ⟨b, ?_, isAtm_iff.mpr ⟨List.mem_toFinset.mpr hmem, fun s hs =>
        hbest s (List.mem_toFinset.mp hs)⟩⟩
      have hfirst : nearer rnd (.fin spot) none (.fin a) =
          some (.fin a, distanceF64 rnd spot a) := rfl
      rw [List.map_cons, List.foldl_cons, hfirst, hfold]
      rfl

/-! ### The band -/

theorem eq_fin {a b : ℚ} : F64.eq (.fin a) (.fin b) = decide (a = b) := by
  rw [Bool.eq_iff_iff, decide_eq_true_eq]
  show decide (F64.fin a = F64.fin b) = true ↔ a = b
  rw [decide_eq_true_eq, F64.fin.injEq]

theorem eq_fin_iff {x : F64} {q : ℚ} : F64.eq x (.fin q) = true ↔ x = .fin q := by
  cases x with
  | fin a => rw [eq_fin, decide_eq_true_eq, F64.fin.injEq]
  | _ => constructor <;> intro h <;> cases h

theorem eq_trans_right {x y z : F64} (hxz : F64.eq x z = true) (hyz : F64.eq y z = true) :
    F64.eq x y = true := by
  cases x <;> cases y <;> cases z <;> simp_all [F64.eq]

theorem ladder_eq (qs : List ℚ) :
    (S.sortBy id ((qs.map F64.fin).filter F64.isFinite)).destutter (fun a b => F64.eq a b = false) =
      ((qs.mergeSort).destutter (· ≠ ·)).map F64.fin := by
  have hfinite : (qs.map F64.fin).filter F64.isFinite = qs.map F64.fin := by
    refine List.filter_eq_self.mpr fun x hx => ?_
    obtain ⟨q, -, rfl⟩ := List.mem_map.mp hx
    rfl
  have hnum : ∀ x ∈ qs.map F64.fin, id x ≠ F64.nan := by
    intro x hx
    obtain ⟨q, -, rfl⟩ := List.mem_map.mp hx
    exact F64.noConfusion
  have hsort : (qs.map F64.fin).mergeSort (fun a b => F64.le (id a) (id b)) =
      (qs.mergeSort).map F64.fin := by
    refine (List.map_mergeSort fun a _ b _ => ?_).symm
    rw [id, id, F64.le_fin]
  rw [hfinite, S.stable id _ hnum, hsort]
  refine (List.map_destutter fun a _ b _ => ?_).symm
  rw [eq_fin, decide_eq_false_iff_not]

/-- The band around a listed strike is its window, and has at most `2 * m + 1` strikes. -/
theorem selectStrikeBand_spec {qs : List ℚ} (hatm : atm ∈ qs) (m : ℕ) :
    (∀ x, x ∈ selectStrikeBand S (qs.map F64.fin) (.fin atm) m ↔
      ∃ q ∈ window qs.toFinset atm m, x = .fin q) ∧
    (selectStrikeBand S (qs.map F64.fin) (.fin atm) m).length ≤ 2 * m + 1 := by
  have hle : (qs.mergeSort).Pairwise (· ≤ ·) := by
    refine (List.pairwise_mergeSort ?_ ?_ qs).imp ?_
    · exact fun a b c hab hbc =>
        decide_eq_true ((of_decide_eq_true hab).trans (of_decide_eq_true hbc))
    · intro a b
      rw [Bool.or_eq_true, decide_eq_true_eq, decide_eq_true_eq]
      exact le_total a b
    · exact fun h => of_decide_eq_true h
  obtain ⟨hsorted, hmembers⟩ := pairwise_destutter hle
  rw [List.toFinset_eq_of_perm _ _ (List.mergeSort_perm qs _)] at hmembers
  set strikes := (qs.mergeSort).destutter (· ≠ ·) with hstrikes
  have hlisted : atm ∈ strikes := by
    rw [← List.mem_toFinset, hmembers]
    exact List.mem_toFinset.mpr hatm
  obtain ⟨i, hi, hget⟩ := List.getElem_of_mem hlisted
  have hnodup : strikes.Nodup := hsorted.imp fun h => h.ne
  have hfind : (strikes.map F64.fin).findIdx? (fun s => F64.eq s (.fin atm)) = some i := by
    rw [List.findIdx?_eq_some_iff_getElem]
    refine ⟨by rw [List.length_map]; exact hi, ?_, fun j hji => ?_⟩
    · rw [List.getElem_map, hget, eq_fin]
      exact decide_eq_true rfl
    · rw [List.getElem_map, eq_fin, decide_eq_true_eq, ← hget]
      exact fun heq => hji.ne ((List.Nodup.getElem_inj_iff hnodup).mp heq)
  have hband : selectStrikeBand S (qs.map F64.fin) (.fin atm) m =
      ((strikes.take (min (i + m) (strikes.length - 1) + 1)).drop (i - m)).map F64.fin := by
    have hne : ((strikes.map F64.fin).isEmpty) = false := by
      rw [List.isEmpty_eq_false_iff]
      exact List.ne_nil_of_mem (List.mem_map_of_mem hlisted)
    unfold selectStrikeBand
    dsimp only
    rw [ladder_eq, ← hstrikes, hne, hfind]
    simp only [F64.isFinite_fin, Bool.not_true, Bool.false_eq_true, if_false, List.length_map,
      List.map_drop, List.map_take]
  rw [hband]
  constructor
  · intro x
    rw [List.mem_map]
    simp only [mem_slice_iff hsorted hi, hget, hmembers, eq_comm (a := x)]
  · rw [List.length_map, List.length_drop, List.length_take]
    omega

/-! ### The contracts of the cells -/

/-- A contract of a cell is the only one there. -/
def CellsDistinct (instruments : List OptionContract) (underlying : String) : Prop :=
  ∀ c ∈ instruments, ∀ d ∈ instruments, c.underlying = underlying → d.underlying = underlying →
    (c.optionType = .ce ∨ c.optionType = .pe) → c.optionType = d.optionType →
    c.expiry = d.expiry → F64.eq c.strike d.strike = true → c = d

theorem exists_bandContracts (hnum : NumericStrikes instruments underlying)
    {expiries : List Date} {band : List F64} {strike : F64}
    (hmem : c ∈ instruments) (hoption : IsOption underlying expiries.toFinset c)
    (hstrike : strike ∈ band) (heq : F64.eq c.strike strike = true) :
    ∃ d ∈ bandContracts S instruments underlying expiries band, d ∈ instruments ∧
      d.underlying = underlying ∧ d.expiry = c.expiry ∧ d.optionType = c.optionType ∧
      F64.eq d.strike strike = true := by
  have hladder := (mem_resolveLadder (S := S) hnum).mpr
    ⟨hmem, hoption.underlying, rfl, hoption.optionType⟩
  have hcell : (F64.eq c.strike strike && decide (c.optionType = c.optionType)) = true := by
    rw [heq, decide_eq_true rfl]
    rfl
  have hsome : ((resolveLadder S instruments underlying c.expiry).find? fun d =>
      F64.eq d.strike strike && decide (d.optionType = c.optionType)).isSome :=
    List.find?_isSome.mpr ⟨c, hladder, hcell⟩
  obtain ⟨d, hd⟩ := Option.isSome_iff_exists.mp hsome
  obtain ⟨hdmem, hdunderlying, hdexpiry, -⟩ :=
    of_mem_resolveLadder (List.mem_of_find?_eq_some hd)
  have hdcell := List.find?_some hd
  rw [Bool.and_eq_true, decide_eq_true_eq] at hdcell
  refine ⟨d, ?_, hdmem, hdunderlying, hdexpiry, hdcell.2, hdcell.1⟩
  refine List.mem_flatMap.mpr ⟨c.expiry, List.mem_toFinset.mp hoption.expiry,
    List.mem_flatMap.mpr ⟨strike, hstrike, List.mem_filterMap.mpr ⟨c.optionType, ?_, hd⟩⟩⟩
  rcases hoption.optionType with h | h <;> rw [h] <;> simp

theorem of_mem_bandContracts {expiries : List Date} {band : List F64}
    (h : c ∈ bandContracts S instruments underlying expiries band) :
    c ∈ instruments ∧ IsOption underlying expiries.toFinset c ∧
      ∃ strike ∈ band, F64.eq c.strike strike = true := by
  obtain ⟨exp, hexp, hc⟩ := List.mem_flatMap.mp h
  obtain ⟨strike, hstrike, hc⟩ := List.mem_flatMap.mp hc
  obtain ⟨optType, -, hfind⟩ := List.mem_filterMap.mp hc
  obtain ⟨hmem, hunderlying, hexpiry, htype⟩ :=
    of_mem_resolveLadder (List.mem_of_find?_eq_some hfind)
  have hcell := List.find?_some hfind
  rw [Bool.and_eq_true] at hcell
  exact ⟨hmem, ⟨hunderlying, List.mem_toFinset.mpr (hexpiry ▸ hexp), htype⟩, strike, hstrike,
    hcell.1⟩

theorem mem_bandContracts (hnum : NumericStrikes instruments underlying)
    (hcells : CellsDistinct instruments underlying) {expiries : List Date} {band : List F64} :
    c ∈ bandContracts S instruments underlying expiries band ↔
      c ∈ instruments ∧ IsOption underlying expiries.toFinset c ∧
        ∃ strike ∈ band, F64.eq c.strike strike = true := by
  refine ⟨of_mem_bandContracts, ?_⟩
  rintro ⟨hmem, hoption, strike, hstrike, heq⟩
  -- the search finds a contract of the cell, and there is only one
  obtain ⟨d, hd, hdmem, hdunderlying, hdexpiry, hdtype, hdeq⟩ :=
    exists_bandContracts (S := S) hnum hmem hoption hstrike heq
  rw [hcells c hmem d hdmem hoption.underlying hdunderlying hoption.optionType hdtype.symm
    hdexpiry.symm (eq_trans_right heq hdeq)]
  exact hd

theorem length_flatMap_le {α β : Type} {l : List α} {f : α → List β} {b : ℕ}
    (h : ∀ a ∈ l, (f a).length ≤ b) : (l.flatMap f).length ≤ l.length * b := by
  induction l with
  | nil => exact Nat.zero_le _
  | cons a l ih =>
      obtain ⟨ha, hl⟩ := List.forall_mem_cons.mp h
      have hrest := ih hl
      rw [List.flatMap_cons, List.length_append, List.length_cons, Nat.succ_mul]
      omega

theorem length_bandContracts_le {expiries : List Date} {band : List F64} :
    (bandContracts S instruments underlying expiries band).length ≤
      expiries.length * (band.length * 2) :=
  length_flatMap_le fun _ _ => length_flatMap_le fun _ _ => List.length_filterMap_le _ _

/-! ### The entries -/

/-- The entry of a contract. -/
def entryOf (c : OptionContract) : SelectedOption :=
  ⟨c.token, c.tradingsymbol, c.underlying, c.expiry, c.strike, c.optionType⟩

/-- The guard keeps the tokens distinct, and drops a contract only for its token. -/
theorem foldl_addEntry_spec (contracts : List OptionContract) (entries : List SelectedOption)
    (hnodup : (entries.map SelectedOption.token).Nodup) :
    ((contracts.foldl addEntry entries).map SelectedOption.token).Nodup ∧
    (∀ t, t ∈ (contracts.foldl addEntry entries).map SelectedOption.token ↔
      t ∈ entries.map SelectedOption.token ∨ t ∈ contracts.map OptionContract.token) ∧
    (contracts.foldl addEntry entries).length ≤ entries.length + contracts.length := by
  induction contracts generalizing entries with
  | nil => exact ⟨hnodup, fun t => by simp, le_rfl⟩
  | cons c contracts ih =>
      rw [List.foldl_cons]
      by_cases hseen : c.token ∈ entries.map SelectedOption.token
      · obtain ⟨hdistinct, hmem, hlen⟩ := ih entries hnodup
        rw [addEntry, if_pos hseen]
        refine ⟨hdistinct, fun t => ?_, hlen.trans (Nat.le_succ _)⟩
        rw [hmem, List.map_cons, List.mem_cons]
        constructor
        · exact fun h => h.imp_right .inr
        · rintro (h | rfl | h)
          · exact .inl h
          · exact .inl hseen
          · exact .inr h
      · have hadd : addEntry entries c = entries ++ [entryOf c] := if_neg hseen
        have hnodup' : ((entries ++ [entryOf c]).map SelectedOption.token).Nodup := by
          rw [List.map_append]
          refine hnodup.append (List.nodup_singleton _) fun t ht ht' => ?_
          have hteq : t = c.token := List.mem_singleton.mp ht'
          exact hseen (hteq ▸ ht)
        obtain ⟨hdistinct, hmem, hlen⟩ := ih _ hnodup'
        rw [hadd]
        refine ⟨hdistinct, fun t => ?_, ?_⟩
        · rw [hmem]
          simp only [List.map_append, List.map_cons, List.map_nil, List.mem_append, List.mem_cons,
            List.not_mem_nil, or_false, or_assoc, entryOf]
        · rw [List.length_append, List.length_singleton] at hlen
          rw [List.length_cons]
          omega

/-! ### The pipeline -/

theorem exists_fin {x : F64} (h : x.isFinite = true) : ∃ q, x = .fin q := by
  cases x with
  | fin q => exact ⟨q, rfl⟩
  | _ => cases h

theorem strikeValue_eq_some {x : F64} {q : ℚ} : strikeValue x = some q ↔ x = .fin q := by
  cases x with
  | fin a => rw [strikeValue, Option.some.injEq, F64.fin.injEq]
  | _ => constructor <;> intro h <;> cases h

theorem mem_listedStrikes {expiries : Finset Date} {q : ℚ} :
    q ∈ listedStrikes instruments underlying expiries ↔
      ∃ c ∈ instruments, IsOption underlying expiries c ∧ c.strike = .fin q := by
  rw [listedStrikes, List.mem_toFinset, List.mem_filterMap]
  constructor
  · rintro ⟨c, hc, hvalue⟩
    obtain ⟨hmem, hoption⟩ := List.mem_filter.mp hc
    exact ⟨c, hmem, of_decide_eq_true hoption, strikeValue_eq_some.mp hvalue⟩
  · rintro ⟨c, hc, hoption, hstrike⟩
    exact ⟨c, List.mem_filter.mpr ⟨hc, decide_eq_true hoption⟩, strikeValue_eq_some.mpr hstrike⟩

theorem filter_strikes_eq (contracts : List OptionContract) :
    (contracts.map OptionContract.strike).filter F64.isFinite =
      (contracts.filterMap fun c => strikeValue c.strike).map F64.fin := by
  induction contracts with
  | nil => rfl
  | cons c contracts ih =>
      rw [List.map_cons, List.filter_cons, List.filterMap_cons, ih]
      cases c.strike <;> rfl

theorem unionStrikes_eq (S : StrikeSort) (hnum : NumericStrikes instruments underlying)
    (expiries : List Date) :
    ∃ qs : List ℚ, (expiries.flatMap fun exp =>
        ((resolveLadder S instruments underlying exp).map OptionContract.strike).filter
          F64.isFinite) = qs.map F64.fin ∧
      qs.toFinset = listedStrikes instruments underlying expiries.toFinset := by
  refine ⟨expiries.flatMap fun exp => (resolveLadder S instruments underlying exp).filterMap
    fun c => strikeValue c.strike, ?_, ?_⟩
  · rw [List.map_flatMap]
    refine List.flatMap_congr fun exp _ => ?_
    exact filter_strikes_eq _
  · ext q
    rw [List.mem_toFinset, mem_listedStrikes, List.mem_flatMap]
    constructor
    · rintro ⟨exp, hexp, hq⟩
      obtain ⟨c, hc, hvalue⟩ := List.mem_filterMap.mp hq
      obtain ⟨hmem, hunderlying, hexpiry, htype⟩ := of_mem_resolveLadder hc
      exact ⟨c, hmem, ⟨hunderlying, List.mem_toFinset.mpr (hexpiry ▸ hexp), htype⟩,
        strikeValue_eq_some.mp hvalue⟩
    · rintro ⟨c, hc, hoption, hstrike⟩
      exact ⟨c.expiry, List.mem_toFinset.mp hoption.expiry, List.mem_filterMap.mpr
        ⟨c, (mem_resolveLadder hnum).mpr ⟨hc, hoption.underlying, rfl, hoption.optionType⟩,
          strikeValue_eq_some.mpr hstrike⟩⟩

/-- The pipeline selects nothing where no strike is listed at the nearest expiries, and else the
contracts of the band around the strike nearest to spot. -/
theorem buildChainSelection_cases (S : StrikeSort) (hrnd : ∀ q, rnd q ≠ .nan)
    (hnum : NumericStrikes instruments underlying) (spot : ℚ) (today : Date)
    (cfg : ChainConfig) :
    let expiries := selectNearestExpiries instruments underlying today cfg.nearestExpiries
    let strikes := listedStrikes instruments underlying
      (least (liveExpiries instruments underlying today) cfg.nearestExpiries)
    (strikes = ∅ ∧
      (buildChainSelection S rnd instruments underlying (.fin spot) today cfg).entries = []) ∨
    ∃ atm band, IsAtm rnd strikes spot atm ∧
      (∀ x, x ∈ band ↔ ∃ q ∈ window strikes atm cfg.strikeBandHalfWidth, x = .fin q) ∧
      band.length ≤ 2 * cfg.strikeBandHalfWidth + 1 ∧
      (buildChainSelection S rnd instruments underlying (.fin spot) today cfg).entries =
        (bandContracts S instruments underlying expiries band).foldl addEntry [] := by
  intro expiries strikes
  obtain ⟨qs, hunion, hqs⟩ :=
    unionStrikes_eq S hnum expiries
  have hstrikes : qs.toFinset = strikes := by
    rw [hqs, selectNearestExpiries_toFinset]
  rcases selectAtm_spec hrnd spot qs with ⟨rfl, hatm⟩ | ⟨atm, hatm, hisAtm⟩
  · refine .inl ⟨hstrikes.symm, ?_⟩
    unfold buildChainSelection
    dsimp only
    split
    · rfl
    split
    · rfl
    · rw [hunion, hatm]
  · right
    have hlisted : atm ∈ qs := List.mem_toFinset.mp hisAtm.listed
    obtain ⟨hband, hlength⟩ :=
      selectStrikeBand_spec (S := S) hlisted cfg.strikeBandHalfWidth
    refine ⟨atm, _, hstrikes ▸ hisAtm, hstrikes ▸ hband, hlength, ?_⟩
    have hexpiries : expiries.isEmpty = false := by
      cases hexp : expiries with
      | nil =>
          rw [hexp] at hunion
          rw [List.map_eq_nil_iff.mp hunion.symm] at hlisted
          cases hlisted
      | cons _ _ => rfl
    have hne : (selectStrikeBand S (qs.map F64.fin) (.fin atm)
        cfg.strikeBandHalfWidth).isEmpty = false := by
      rw [List.isEmpty_eq_false_iff]
      exact List.ne_nil_of_mem ((hband _).mpr
        ⟨atm, self_mem_window (List.mem_toFinset.mpr hlisted), rfl⟩)
    unfold buildChainSelection
    dsimp only
    rw [hunion, hatm]
    dsimp only
    rw [hne, show (selectNearestExpiries instruments underlying today
      cfg.nearestExpiries).isEmpty = false from hexpiries]
    rfl

/-- The tokens of the selection are those of the cross product. -/
theorem mem_tokens_iff (S : StrikeSort) (hrnd : ∀ q, rnd q ≠ .nan)
    (hnum : NumericStrikes instruments underlying)
    (hcells : CellsDistinct instruments underlying) {spot : ℚ} {today : Date} {cfg : ChainConfig}
    {t : Token} :
    t ∈ (buildChainSelection S rnd instruments underlying (.fin spot) today cfg).entries.map
        SelectedOption.token ↔
      ∃ c, Selected rnd instruments underlying spot today cfg c ∧ c.token = t := by
  rcases buildChainSelection_cases S hrnd hnum spot today cfg with
    ⟨hnone, hentries⟩ | ⟨atm, band, hatm, hband, -, hentries⟩
  · rw [hentries]
    refine ⟨fun h => absurd h List.not_mem_nil, ?_⟩
    rintro ⟨c, ⟨-, -, atm, strike, hatm, -⟩, -⟩
    exact absurd (hnone ▸ hatm.listed) (Finset.notMem_empty atm)
  · obtain ⟨-, hmem, -⟩ := foldl_addEntry_spec
      (bandContracts S instruments underlying
        (selectNearestExpiries instruments underlying today cfg.nearestExpiries) band) []
      List.nodup_nil
    rw [hentries, hmem]
    simp only [List.mem_map, mem_bandContracts hnum hcells, selectNearestExpiries_toFinset]
    constructor
    · rintro (⟨e, he, -⟩ | ⟨c, ⟨hc, hoption, strike, hstrike, heq⟩, ht⟩)
      · exact absurd he List.not_mem_nil
      · obtain ⟨q, hq, rfl⟩ := (hband strike).mp hstrike
        exact ⟨c, ⟨hc, hoption, atm, q, hatm, eq_fin_iff.mp heq, hq⟩, ht⟩
    · rintro ⟨c, ⟨hc, hoption, atm', q, hatm', hq, hwindow⟩, ht⟩
      rw [hatm'.unique hatm] at hwindow
      exact .inr ⟨c, ⟨hc, hoption, .fin q, (hband _).mpr ⟨q, hwindow, rfl⟩,
        eq_fin_iff.mpr hq⟩, ht⟩

end

/-- **The selection is the cross product.**  Where no cell of the underlying is listed twice, the
tokens of the selection are those of the calls and puts at the nearest expiries whose strike is in
the band around the strike nearest to spot, by the rounded distance; none comes twice, and they are
at most `N * (2 * M + 1) * 2`. -/
theorem chain_selection_is_cross_product (S : StrikeSort) (rnd : ℚ → F64)
    (instruments : List OptionContract) (underlying : String) (spot : ℚ) (today : Date)
    (cfg : ChainConfig) (hrnd : ∀ q, rnd q ≠ .nan)
    (hnum : NumericStrikes instruments underlying)
    (hcells : CellsDistinct instruments underlying) :
    let tokens := (buildChainSelection S rnd instruments underlying (.fin spot) today
      cfg).entries.map SelectedOption.token
    (∀ t, t ∈ tokens ↔
      ∃ c, Selected rnd instruments underlying spot today cfg c ∧ c.token = t) ∧
      tokens.Nodup ∧
      tokens.length ≤ cfg.nearestExpiries * (2 * cfg.strikeBandHalfWidth + 1) * 2 ∧
      ∀ (strikes : Finset ℚ) (atm : ℚ), (window strikes atm cfg.strikeBandHalfWidth).card ≤
        2 * cfg.strikeBandHalfWidth + 1 := by
  intro tokens
  refine ⟨fun t => mem_tokens_iff S hrnd hnum hcells, ?_⟩
  rcases buildChainSelection_cases S hrnd hnum spot today cfg with
    ⟨-, hentries⟩ | ⟨atm, band, -, -, hlength, hentries⟩
  · have htokens : tokens = [] := congrArg (List.map SelectedOption.token) hentries
    rw [htokens]
    exact ⟨List.nodup_nil, Nat.zero_le _, fun strikes atm => card_window_le strikes atm _⟩
  · obtain ⟨hnodup, -, hlen⟩ := foldl_addEntry_spec
      (bandContracts S instruments underlying
        (selectNearestExpiries instruments underlying today cfg.nearestExpiries) band) []
      List.nodup_nil
    rw [← hentries] at hnodup hlen
    refine ⟨hnodup, ?_, fun strikes atm => card_window_le strikes atm _⟩
    rw [List.length_map]
    calc (buildChainSelection S rnd instruments underlying (.fin spot) today cfg).entries.length
        ≤ (selectNearestExpiries instruments underlying today cfg.nearestExpiries).length *
            (band.length * 2) := (hlen.trans (Nat.zero_add _).le).trans length_bandContracts_le
      _ ≤ cfg.nearestExpiries * ((2 * cfg.strikeBandHalfWidth + 1) * 2) :=
          Nat.mul_le_mul length_selectNearestExpiries_le (Nat.mul_le_mul_right 2 hlength)
      _ = cfg.nearestExpiries * (2 * cfg.strikeBandHalfWidth + 1) * 2 := (Nat.mul_assoc _ _ _).symm

/-- A contract of one underlying. -/
def niftyContract (token : Token) (optionType : OptionType) (strike : F64) (expiry : Date) :
    OptionContract :=
  ⟨token, "NIFTY", "NIFTY", optionType, strike, expiry⟩

/-- The nearest expiry, and `m` strikes on either side. -/
def nearestExpiryConfig (m : ℕ) : ChainConfig := ⟨1, m, .fin 50, 60⟩

/-- A straddle at the first of two expiries. -/
def straddle : List OptionContract :=
  [niftyContract 1 .ce (.fin 24000) 20, niftyContract 2 .pe (.fin 24000) 20,
    niftyContract 3 .ce (.fin 24000) 27]

theorem chain_selection_is_cross_product_straddle :
    let tokens := (buildChainSelection .merge F64.fin straddle "NIFTY" (.fin 24010) 14
      (nearestExpiryConfig 0)).entries.map SelectedOption.token
    (∀ t, t ∈ tokens ↔
      ∃ c, Selected F64.fin straddle "NIFTY" 24010 14 (nearestExpiryConfig 0) c ∧ c.token = t) ∧
      tokens.Nodup ∧
      tokens.length ≤ 1 * (2 * 0 + 1) * 2 ∧
      ∀ (strikes : Finset ℚ) (atm : ℚ), (window strikes atm 0).card ≤ 2 * 0 + 1 :=
  chain_selection_is_cross_product .merge F64.fin straddle "NIFTY" 24010 14
    (nearestExpiryConfig 0) (fun _ => F64.noConfusion)
    (by simp [NumericStrikes, straddle, niftyContract])
    (by simp [CellsDistinct, straddle, niftyContract])

/-- To a multiple of `2 ^ -51`: what a double between 2 and 4 is. -/
def roundTo51 (q : ℚ) : F64 := .fin ((q * 2 ^ 51 + 1 / 2).floor / 2 ^ 51)

/-- A strike that is a little further below 4 than the other is above. -/
def almostTied : List OptionContract :=
  [niftyContract 1 .ce (.fin (1 - 1 / 2 ^ 53)) 20, niftyContract 2 .ce (.fin 7) 20]

theorem listedStrikes_almostTied :
    listedStrikes almostTied "NIFTY" (least (liveExpiries almostTied "NIFTY" 14)
      (nearestExpiryConfig 0).nearestExpiries) = {1 - 1 / 2 ^ 53, 7} := by
  decide +kernel

theorem isAtm_rounded : IsAtm roundTo51 {1 - 1 / 2 ^ 53, 7} 4 (1 - 1 / 2 ^ 53) where
  listed := Finset.mem_insert_self _ _
  nearest s hs := by
    rcases Finset.mem_insert.mp hs with rfl | hs
    · exact .inr ⟨rfl, le_rfl⟩
    · rw [Finset.mem_singleton.mp hs]
      exact .inr ⟨by decide +kernel, by decide +kernel⟩

theorem isAtm_exact : IsAtm F64.fin {1 - 1 / 2 ^ 53, 7} 4 7 where
  listed := Finset.mem_insert_of_mem (Finset.mem_singleton_self _)
  nearest s hs := by
    rcases Finset.mem_insert.mp hs with rfl | hs
    · exact .inl (by decide +kernel)
    · rw [Finset.mem_singleton.mp hs]
      exact .inr ⟨rfl, le_rfl⟩

/-- **A rounded tie**: the two distances from spot are both 3 when rounded, so the lower strike is
selected, and the higher one, which is nearer, is not. -/
theorem almostTied_misses_nearest :
    (2 : Token) ∉ (buildChainSelection .merge roundTo51 almostTied "NIFTY" (.fin 4) 14
        (nearestExpiryConfig 0)).entries.map SelectedOption.token ∧
      CellsDistinct almostTied "NIFTY" ∧
      Selected F64.fin almostTied "NIFTY" 4 14 (nearestExpiryConfig 0)
        (niftyContract 2 .ce (.fin 7) 20) := by
  have hrnd : ∀ q, roundTo51 q ≠ .nan := fun _ => F64.noConfusion
  have hnum : NumericStrikes almostTied "NIFTY" := by
    simp [NumericStrikes, almostTied, niftyContract]
  have hcells : CellsDistinct almostTied "NIFTY" := by
    unfold CellsDistinct
    decide +kernel
  refine ⟨fun hselected => ?_, hcells, ?_⟩
  · obtain ⟨c, ⟨hlisted, -, atm, strike, hatm, hstrike, hwindow⟩, htoken⟩ :=
      (mem_tokens_iff .merge hrnd hnum hcells).mp hselected
    rw [listedStrikes_almostTied] at hatm hwindow
    rw [hatm.unique isAtm_rounded] at hwindow
    have hsecond : c = niftyContract 2 .ce (.fin 7) 20 := by
      rcases List.mem_cons.mp hlisted with rfl | hlisted
      · exact absurd htoken (by decide)
      · exact List.mem_singleton.mp hlisted
    -- its strike is not in the band of one strike
    rw [hsecond] at hstrike
    rw [← F64.fin.inj hstrike] at hwindow
    revert hwindow
    decide +kernel
  · have hexpiry : 20 ∈ least (liveExpiries almostTied "NIFTY" 14) 1 := by decide +kernel
    refine ⟨List.mem_cons_of_mem _ List.mem_cons_self, ⟨rfl, hexpiry, .inl rfl⟩, 7, 7, ?_, rfl, ?_⟩
    · rw [listedStrikes_almostTied]
      exact isAtm_exact
    · rw [listedStrikes_almostTied]
      exact self_mem_window isAtm_exact.listed

/-- A future that expires before the only call. -/
def futureFirst : List OptionContract :=
  [niftyContract 1 .fut (.fin 0) 20, niftyContract 2 .ce (.fin 24000) 27]

/-- **A future hides the chain**: its expiry is the nearest, and no option is listed there. -/
theorem futureFirst_selects_nothing :
    ¬ ∀ (S : StrikeSort) (rnd : ℚ → F64) (instruments : List OptionContract) (underlying : String)
      (spot : ℚ) (today : Date) (cfg : ChainConfig), (∀ q, rnd q ≠ .nan) →
      1 ≤ cfg.nearestExpiries →
      (∃ c ∈ instruments, c.underlying = underlying ∧ (c.optionType = .ce ∨ c.optionType = .pe) ∧
        c.strike.isFinite = true ∧ today ≤ c.expiry) →
      (buildChainSelection S rnd instruments underlying (.fin spot) today cfg).entries ≠ [] := by
  intro h
  refine h .merge F64.fin futureFirst "NIFTY" 24010 14 (nearestExpiryConfig 0)
    (fun _ => F64.noConfusion) le_rfl ?_ ?_
  · exact ⟨_, List.mem_cons_of_mem _ List.mem_cons_self, rfl, .inl rfl, rfl, by decide⟩
  · decide +kernel

/-- **Nothing is selected exactly when nothing is listed** at the nearest expiries: the nearest
expiries are those of all contracts of the underlying, futures included. -/
theorem chain_selection_nonempty_iff (S : StrikeSort) (rnd : ℚ → F64)
    (instruments : List OptionContract) (underlying : String) (spot : ℚ) (today : Date)
    (cfg : ChainConfig) (hrnd : ∀ q, rnd q ≠ .nan)
    (hnum : NumericStrikes instruments underlying) :
    (buildChainSelection S rnd instruments underlying (.fin spot) today cfg).entries ≠ [] ↔
      ∃ c ∈ instruments, IsOption underlying
          (least (liveExpiries instruments underlying today) cfg.nearestExpiries) c ∧
        c.strike.isFinite = true := by
  rcases buildChainSelection_cases S hrnd hnum spot today cfg with
    ⟨hnone, hentries⟩ | ⟨atm, band, hatm, hband, -, hentries⟩
  · rw [hentries]
    refine ⟨fun h => absurd rfl h, ?_⟩
    rintro ⟨c, hc, hoption, hfinite⟩
    obtain ⟨q, hq⟩ := exists_fin hfinite
    have hlisted := mem_listedStrikes.mpr ⟨c, hc, hoption, hq⟩
    exact absurd (hnone ▸ hlisted) (Finset.notMem_empty q)
  · obtain ⟨c, hc, hoption, hstrike⟩ := mem_listedStrikes.mp hatm.listed
    constructor
    · exact fun _ => ⟨c, hc, hoption, by rw [hstrike]; rfl⟩
    · intro _ hempty
      rw [← selectNearestExpiries_toFinset] at hoption
      obtain ⟨d, hd, -⟩ := exists_bandContracts (S := S) hnum hc hoption
        ((hband _).mpr ⟨atm, self_mem_window hatm.listed, rfl⟩) (eq_fin_iff.mpr hstrike)
      obtain ⟨-, hmem, -⟩ := foldl_addEntry_spec
        (bandContracts S instruments underlying
          (selectNearestExpiries instruments underlying today cfg.nearestExpiries) band) []
        List.nodup_nil
      have htoken := (hmem d.token).mpr (.inr (List.mem_map_of_mem hd))
      rw [← hentries, hempty] at htoken
      exact absurd htoken List.not_mem_nil

theorem chain_selection_nonempty_iff_straddle :
    (buildChainSelection .merge F64.fin straddle "NIFTY" (.fin 24010) 14
        (nearestExpiryConfig 0)).entries ≠ [] ↔
      ∃ c ∈ straddle, IsOption "NIFTY" (least (liveExpiries straddle "NIFTY" 14) 1) c ∧
        c.strike.isFinite = true :=
  chain_selection_nonempty_iff .merge F64.fin straddle "NIFTY" 24010 14 (nearestExpiryConfig 0)
    (fun _ => F64.noConfusion) (by simp [NumericStrikes, straddle, niftyContract])

end AiTrader.OptionChain
