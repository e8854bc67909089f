import AiTrader.Library.Hinge
import AiTrader.Options.Chain
import Mathlib.Data.List.Induction
import Mathlib.Data.List.Sort
import Mathlib.Data.Real.Basic

/-! # Max pain

`compute_max_pain` (`src/agents/deep-quant-loop/options.py`) compares the payout to option holders
at the listed strikes only.  The payout is a sum of hinges with knots at these strikes, so the
listed minimum is the minimum over every settlement price. -/

namespace AiTrader.Options

open F64 (finiteValue finiteValue_eq_some finiteOrZero)

section
variable (rnd : ℚ → F64)

/-- What one strike pays at a settlement of `K`, added to the payout so far. -/
def addPayout (K payout : F64) (q : StrikeQuote) : F64 :=
  let k := q.strike
  if F64.lt k K then
    match q.ceOi with
    | some oi => if oi.isFinite then F64.add rnd payout (F64.mul rnd oi (F64.sub rnd K k)) else payout
    | none => payout
  else if F64.lt K k then
    match q.peOi with
    | some oi => if oi.isFinite then F64.add rnd payout (F64.mul rnd oi (F64.sub rnd k K)) else payout
    | none => payout
  else payout

/-- The payout of a candidate over the ladder. -/
def payoutAt (ladder : List StrikeQuote) (K : F64) : F64 :=
  ladder.foldl (addPayout rnd K) (.fin 0)

/-- One candidate against the best strike so far and its payout. -/
def considerStrike (ladder : List StrikeQuote) (best : Option (F64 × F64)) (candidate : StrikeQuote) :
    Option (F64 × F64) :=
  let K := candidate.strike
  let payout := payoutAt rnd ladder K
  if !payout.isFinite then best
  else
    match best with
    | none => some (K, payout)
    | some (_, bestPayout) => if F64.lt payout bestPayout then some (K, payout) else best

/-- The strikes that are numbers, ascending. -/
def sortedLadder (strikes : List StrikeQuote) : List StrikeQuote :=
  (strikes.filter fun q => q.strike.isFinite).insertionSort fun a b => F64.le a.strike b.strike

/-- `compute_max_pain`. -/
def computeMaxPain (snapshot : ChainSnapshot) : Option F64 :=
  if snapshot.strikes.isEmpty then none
  else
    let ladder := sortedLadder snapshot.strikes
    if ladder.isEmpty then none
    else (ladder.foldl (considerStrike rnd ladder) none).map Prod.fst

end

/-! ### The payout at any price -/

/-- A strike's payout to its holders, as a function of the settlement price: calls pay above the
strike, puts below, and open interest that is missing pays nothing. -/
def leg (𝕜 : Type*) [RatCast 𝕜] (q : StrikeQuote) : Option (Hinge 𝕜) :=
  (finiteValue (some q.strike)).map fun k : ℚ =>
    { knot := (k : 𝕜), up := (finiteOrZero q.ceOi : 𝕜), down := (finiteOrZero q.peOi : 𝕜) }

/-- The total payout to the holders of a chain at a settlement price of `S`. -/
def holderPayout {𝕜 : Type*} [Field 𝕜] [LinearOrder 𝕜] (strikes : List StrikeQuote) (S : 𝕜) : 𝕜 :=
  Hinge.total (strikes.filterMap (leg 𝕜)) S

/-- No open interest is negative. -/
def OpenInterestNonneg (strikes : List StrikeQuote) : Prop :=
  ∀ q ∈ strikes, 0 ≤ finiteOrZero q.ceOi ∧ 0 ≤ finiteOrZero q.peOi

/-! ### The lowest point of least value -/

/-- The lowest of the listed points at which a function is least. -/
structure LowestMinimizer (f : ℚ → ℚ) (xs : List ℚ) (x : ℚ) : Prop where
  mem : x ∈ xs
  le : ∀ y ∈ xs, f x ≤ f y
  lt : ∀ y ∈ xs, y < x → f x < f y

section
variable {f : ℚ → ℚ} {xs ys : List ℚ} {x y : ℚ}

theorem LowestMinimizer.unique (hx : LowestMinimizer f xs x) (hy : LowestMinimizer f xs y) :
    x = y := by
  rcases lt_trichotomy x y with hlt | heq | hgt
  · exact absurd (hy.lt x hx.mem hlt) (not_lt.mpr (hx.le y hy.mem))
  · exact heq
  · exact absurd (hx.lt y hy.mem hgt) (not_lt.mpr (hy.le x hx.mem))

theorem LowestMinimizer.perm (h : LowestMinimizer f xs x) (hperm : xs.Perm ys) :
    LowestMinimizer f ys x where
  mem := hperm.subset h.mem
  le y hy := h.le y (hperm.symm.subset hy)
  lt y hy := h.lt y (hperm.symm.subset hy)

theorem LowestMinimizer.concat (h : LowestMinimizer f xs x) (hlast : ∀ z ∈ xs, z ≤ y) :
    LowestMinimizer f (xs ++ [y]) (if f y < f x then y else x) := by
  split
  · rename_i hlt
    refine ⟨by simp, fun z hz => ?_, fun z hz hzy => ?_⟩
    · rcases List.mem_append.mp hz with hz | hz
      · exact hlt.le.trans (h.le z hz)
      · rw [List.mem_singleton.mp hz]
    · rcases List.mem_append.mp hz with hz | hz
      · exact hlt.trans_le (h.le z hz)
      · rw [List.mem_singleton.mp hz] at hzy
        exact absurd hzy (lt_irrefl y)
  · rename_i hle
    refine ⟨List.mem_append_left _ h.mem, fun z hz => ?_, fun z hz hzx => ?_⟩
    · rcases List.mem_append.mp hz with hz | hz
      · exact h.le z hz
      · rw [List.mem_singleton.mp hz]
        exact not_lt.mp hle
    · rcases List.mem_append.mp hz with hz | hz
      · exact h.lt z hz hzx
      · rw [List.mem_singleton.mp hz] at hzx
        exact absurd (hlast x h.mem) (not_le.mpr hzx)

/-- The better of the best point so far and one more. -/
def keepLower (f : ℚ → ℚ) : Option (ℚ × ℚ) → ℚ → Option (ℚ × ℚ)
  | none, y => some (y, f y)
  | some (x, fx), y => if f y < fx then some (y, f y) else some (x, fx)

/-- The candidates in ascending order, each kept when it is strictly better than the best so far. -/
theorem lowestMinimizer_foldl (f : ℚ → ℚ) (xs : List ℚ) (hsorted : xs.Pairwise (· ≤ ·))
    (hne : xs ≠ []) :
    ∃ x, LowestMinimizer f xs x ∧ xs.foldl (keepLower f) none = some (x, f x) := by
  induction xs using List.reverseRecOn with
  | nil => exact absurd rfl hne
  | append_singleton xs y ih =>
      rw [List.pairwise_append] at hsorted
      by_cases hxs : xs = []
      · subst hxs
        exact ⟨y, ⟨by simp, by simp, by simp⟩, rfl⟩
      · obtain ⟨x, hx, hfold⟩ := ih hsorted.1 hxs
        refine ⟨_, hx.concat fun z hz => hsorted.2.2 z hz y (List.mem_singleton_self y), ?_⟩
        rw [List.foldl_append, hfold]
        by_cases hlt : f y < f x
        · simp [keepLower, hlt]
        · simp [keepLower, hlt]

end

/-! ### The code compares the payouts -/

section
variable {strikes : List StrikeQuote} {q : StrikeQuote} {k : ℚ}

theorem leg_of_eq {𝕜 : Type*} [RatCast 𝕜] (hq : q.strike = .fin k) :
    leg 𝕜 q = some ⟨(k : 𝕜), (finiteOrZero q.ceOi : 𝕜), (finiteOrZero q.peOi : 𝕜)⟩ := by
  rw [leg, finiteValue_eq_some.mpr (congrArg some hq), Option.map_some]

theorem addPayout_leg (total K k : ℚ) (oi : Option F64) :
    (match oi with
      | some oi =>
          if oi.isFinite then F64.add F64.fin (.fin total)
            (F64.mul F64.fin oi (F64.sub F64.fin (.fin K) (.fin k)))
          else .fin total
      | none => .fin total) = F64.fin (total + finiteOrZero oi * (K - k)) := by
  match oi with
  | none => simp [finiteOrZero, finiteValue]
  | some .nan => simp [finiteOrZero, finiteValue, F64.isFinite]
  | some .negInf => simp [finiteOrZero, finiteValue, F64.isFinite]
  | some (.fin _) => simp [finiteOrZero, finiteValue]
  | some .posInf => simp [finiteOrZero, finiteValue, F64.isFinite]

theorem addPayout_exact (K total : ℚ) (hq : q.strike = .fin k) :
    addPayout F64.fin (.fin K) (.fin total) q =
      .fin (total + Hinge.value ⟨k, finiteOrZero q.ceOi, finiteOrZero q.peOi⟩ K) := by
  rw [addPayout, hq]
  simp only [F64.lt_fin, decide_eq_true_eq]
  rcases lt_trichotomy k K with hlt | heq | hgt
  · rw [if_pos hlt, addPayout_leg, Hinge.value_of_le hlt.le]
  · rw [if_neg (by simp [heq]), if_neg (by simp [heq]), Hinge.value_of_le heq.le, heq, sub_self,
      mul_zero, add_zero]
  · rw [if_neg (not_lt.mpr hgt.le), if_pos hgt, addPayout_leg, Hinge.value_of_ge hgt.le]

theorem payoutAt_exact (K : ℚ) (hfinite : ∀ q ∈ strikes, q.strike.isFinite) :
    payoutAt F64.fin strikes (.fin K) = .fin (holderPayout strikes K) := by
  have hfold : ∀ total : ℚ, strikes.foldl (addPayout F64.fin (.fin K)) (.fin total) =
      .fin (total + holderPayout strikes K) := by
    induction strikes with
    | nil => simp [holderPayout, Hinge.total]
    | cons q strikes ih =>
        intro total
        obtain ⟨k, hk⟩ := F64.isFinite_iff.mp (hfinite q List.mem_cons_self)
        have htail := ih fun q' hmem => hfinite q' (List.mem_cons_of_mem q hmem)
        have hleg : leg ℚ q = some ⟨k, finiteOrZero q.ceOi, finiteOrZero q.peOi⟩ := leg_of_eq hk
        rw [List.foldl_cons, addPayout_exact K total hk, htail, holderPayout, holderPayout,
          List.filterMap_cons_some hleg, Hinge.total_cons, add_assoc]
  rw [payoutAt, hfold, zero_add]

theorem foldl_considerStrike (ladder candidates : List StrikeQuote)
    (hladder : ∀ q ∈ ladder, q.strike.isFinite) (hfinite : ∀ q ∈ candidates, q.strike.isFinite)
    (best : Option (ℚ × ℚ)) :
    candidates.foldl (considerStrike F64.fin ladder) (best.map (Prod.map F64.fin F64.fin)) =
      ((listedStrikes candidates).foldl (keepLower (holderPayout ladder)) best).map
        (Prod.map F64.fin F64.fin) := by
  induction candidates generalizing best with
  | nil => rfl
  | cons q candidates ih =>
      obtain ⟨k, hk⟩ := F64.isFinite_iff.mp (hfinite q List.mem_cons_self)
      have hstep : considerStrike F64.fin ladder (best.map (Prod.map F64.fin F64.fin)) q =
          (keepLower (holderPayout ladder) best k).map (Prod.map F64.fin F64.fin) := by
        simp only [considerStrike, hk, payoutAt_exact k hladder, F64.isFinite_fin, Bool.not_true,
          Bool.false_eq_true, if_false]
        match best with
        | none => rfl
        | some (x, fx) =>
            by_cases hlt : holderPayout ladder k < fx
            · simp [keepLower, hlt]
            · simp [keepLower, hlt]
      rw [List.foldl_cons, hstep, listedStrikes_cons hk, List.foldl_cons]
      exact ih (fun q' hmem => hfinite q' (List.mem_cons_of_mem q hmem)) _

end

/-! ### The ladder is the listed strikes in order -/

section
variable {strikes strikes' : List StrikeQuote}

theorem sortedLadder_perm (strikes : List StrikeQuote) :
    (sortedLadder strikes).Perm (strikes.filter fun q => q.strike.isFinite) :=
  List.perm_insertionSort _ _

theorem isFinite_of_mem_sortedLadder :
    ∀ q ∈ sortedLadder strikes, q.strike.isFinite = true := fun _ hmem =>
  (List.mem_filter.mp ((sortedLadder_perm strikes).subset hmem)).2

/-- A strike that is not a number pays nothing, so the ladder pays what the chain pays. -/
theorem holderPayout_sortedLadder {𝕜 : Type*} [Field 𝕜] [LinearOrder 𝕜]
    (strikes : List StrikeQuote) (S : 𝕜) :
    holderPayout (sortedLadder strikes) S = holderPayout strikes S := by
  have hskip : (strikes.filter fun q => q.strike.isFinite).filterMap (leg 𝕜) =
      strikes.filterMap (leg 𝕜) := by
    rw [List.filterMap_filter]
    congr 1
    funext q
    cases hq : q.strike <;> simp [leg, hq, finiteValue, F64.isFinite]
  rw [holderPayout, holderPayout, ← hskip]
  exact (((sortedLadder_perm strikes).filterMap _).map _).sum_eq

theorem holderPayout_perm {𝕜 : Type*} [Field 𝕜] [LinearOrder 𝕜] (h : strikes.Perm strikes')
    (S : 𝕜) : holderPayout strikes S = holderPayout strikes' S :=
  ((h.filterMap _).map _).sum_eq

theorem listedStrikes_filter (strikes : List StrikeQuote) :
    listedStrikes (strikes.filter fun q => q.strike.isFinite) = listedStrikes strikes := by
  rw [listedStrikes, listedStrikes, List.filterMap_filter]
  congr 1
  funext q
  cases hq : q.strike <;> simp [finiteValue, F64.isFinite]

theorem listedStrikes_eq_map (hfinite : ∀ q ∈ strikes, q.strike.isFinite) :
    listedStrikes strikes = strikes.map fun q => finiteOrZero (some q.strike) := by
  induction strikes with
  | nil => rfl
  | cons q strikes ih =>
      obtain ⟨k, hk⟩ := F64.isFinite_iff.mp (hfinite q List.mem_cons_self)
      have htail := ih fun q' hmem => hfinite q' (List.mem_cons_of_mem q hmem)
      rw [listedStrikes_cons hk, htail, List.map_cons, hk]
      rfl

theorem listedStrikes_sortedLadder (strikes : List StrikeQuote) :
    listedStrikes (sortedLadder strikes) = (listedStrikes strikes).insertionSort (· ≤ ·) := by
  have hfinite : ∀ q ∈ strikes.filter fun q => q.strike.isFinite, q.strike.isFinite = true :=
    fun _ hmem => (List.mem_filter.mp hmem).2
  rw [listedStrikes_eq_map isFinite_of_mem_sortedLadder, sortedLadder,
    List.map_insertionSort _ (· ≤ ·), ← listedStrikes_eq_map hfinite, listedStrikes_filter]
  intro a ha b hb
  obtain ⟨x, hx⟩ := F64.isFinite_iff.mp (hfinite a ha)
  obtain ⟨y, hy⟩ := F64.isFinite_iff.mp (hfinite b hb)
  rw [hx, hy, F64.le_fin, decide_eq_true_eq]
  rfl

end

/-! ### The listed minimum -/

theorem computeMaxPain_spec (snapshot : ChainSnapshot)
    (hfinite : ∃ q ∈ snapshot.strikes, q.strike.isFinite) :
    ∃ K, LowestMinimizer (holderPayout snapshot.strikes) (listedStrikes snapshot.strikes) K ∧
      computeMaxPain F64.fin snapshot = some (.fin K) := by
  obtain ⟨q, hmem, hq⟩ := hfinite
  have hladder : q ∈ sortedLadder snapshot.strikes :=
    (sortedLadder_perm _).symm.subset (List.mem_filter.mpr ⟨hmem, hq⟩)
  have hsorted : (listedStrikes (sortedLadder snapshot.strikes)).Pairwise (· ≤ ·) := by
    rw [listedStrikes_sortedLadder]
    exact List.pairwise_insertionSort _ _
  have hperm : (listedStrikes (sortedLadder snapshot.strikes)).Perm
      (listedStrikes snapshot.strikes) := by
    rw [listedStrikes_sortedLadder]
    exact List.perm_insertionSort _ _
  have hne : listedStrikes (sortedLadder snapshot.strikes) ≠ [] := by
    obtain ⟨k, hk⟩ := F64.isFinite_iff.mp hq
    exact List.ne_nil_of_mem (mem_listedStrikes.mpr ⟨q, hladder, hk⟩)
  have hpayout : ∀ S : ℚ, holderPayout (sortedLadder snapshot.strikes) S =
      holderPayout snapshot.strikes S := holderPayout_sortedLadder _
  obtain ⟨K, hK, hfold⟩ := lowestMinimizer_foldl
    (holderPayout snapshot.strikes) _ hsorted hne
  refine ⟨K, hK.perm hperm, ?_⟩
  have hrun := foldl_considerStrike (sortedLadder snapshot.strikes) (sortedLadder snapshot.strikes)
    isFinite_of_mem_sortedLadder isFinite_of_mem_sortedLadder none
  rw [funext hpayout, hfold] at hrun
  rw [computeMaxPain, if_neg (by simpa using List.ne_nil_of_mem hmem)]
  simp only
  rw [if_neg (by simpa using List.ne_nil_of_mem hladder)]
  exact congrArg (Option.map Prod.fst) hrun

/-- The payout at a rational price is the same number in every field. -/
theorem holderPayout_cast (strikes : List StrikeQuote) (S : ℚ) :
    holderPayout strikes (S : ℝ) = ((holderPayout strikes S : ℚ) : ℝ) := by
  induction strikes with
  | nil => simp [holderPayout, Hinge.total]
  | cons q strikes ih =>
      rw [holderPayout, holderPayout] at ih ⊢
      cases hq : finiteValue (some q.strike) with
      | none => simpa [leg, hq] using ih
      | some k => simp [leg, hq, Hinge.total_cons, ih, Hinge.value]

/-- Whatever the settlement price, some listed strike pays no more.  The knots of the legs are the
listed strikes. -/
theorem exists_listed_le {strikes : List StrikeQuote} (hfinite : ∃ q ∈ strikes, q.strike.isFinite)
    (hoi : OpenInterestNonneg strikes) (S : ℝ) :
    ∃ k ∈ listedStrikes strikes, holderPayout strikes (k : ℝ) ≤ holderPayout strikes S := by
  have hnonneg : Hinge.Nonneg (strikes.filterMap (leg ℝ)) := by
    intro h hmem
    obtain ⟨q, hq, hleg⟩ := List.mem_filterMap.mp hmem
    obtain ⟨k, _, rfl⟩ := Option.map_eq_some_iff.mp hleg
    exact ⟨Rat.cast_nonneg.mpr (hoi q hq).1, Rat.cast_nonneg.mpr (hoi q hq).2⟩
  have hne : strikes.filterMap (leg ℝ) ≠ [] := by
    obtain ⟨q, hmem, hq⟩ := hfinite
    obtain ⟨k, hk⟩ := F64.isFinite_iff.mp hq
    exact List.ne_nil_of_mem (List.mem_filterMap.mpr ⟨q, hmem, leg_of_eq hk⟩)
  obtain ⟨h, hmem, hle⟩ := Hinge.exists_knot_total_le hne hnonneg S
  obtain ⟨q, hq, hleg⟩ := List.mem_filterMap.mp hmem
  obtain ⟨k, hk, rfl⟩ := Option.map_eq_some_iff.mp hleg
  exact ⟨k, List.mem_filterMap.mpr ⟨q, hq, hk⟩, hle⟩

/-- **Max pain.** The result is a listed strike at which the holders are paid least over all real
settlement prices, the lowest listed one, and the order of the strikes does not matter. -/
theorem maxPain_minimizes (snapshot : ChainSnapshot)
    (hfinite : ∃ q ∈ snapshot.strikes, q.strike.isFinite)
    (hoi : OpenInterestNonneg snapshot.strikes) :
    ∃ K : ℚ, computeMaxPain F64.fin snapshot = some (.fin K) ∧
      (∃ q ∈ snapshot.strikes, q.strike = .fin K) ∧
      (∀ S : ℝ, holderPayout snapshot.strikes (K : ℝ) ≤ holderPayout snapshot.strikes S) ∧
      (∀ q ∈ snapshot.strikes, ∀ k : ℚ, q.strike = .fin k → k < K →
        holderPayout snapshot.strikes (K : ℝ) ≠ holderPayout snapshot.strikes (k : ℝ)) ∧
      ∀ snapshot' : ChainSnapshot, snapshot'.strikes.Perm snapshot.strikes →
        computeMaxPain F64.fin snapshot' = computeMaxPain F64.fin snapshot := by
  obtain ⟨K, hK, hresult⟩ := computeMaxPain_spec snapshot hfinite
  refine ⟨K, hresult, mem_listedStrikes.mp hK.mem, fun S => ?_, fun q hmem k hk hlt => ?_,
    fun snapshot' hperm => ?_⟩
  · obtain ⟨k, hlisted, hle⟩ := exists_listed_le hfinite hoi S
    calc holderPayout snapshot.strikes (K : ℝ)
        = ((holderPayout snapshot.strikes K : ℚ) : ℝ) := holderPayout_cast _ K
      _ ≤ ((holderPayout snapshot.strikes k : ℚ) : ℝ) := Rat.cast_le.mpr (hK.le k hlisted)
      _ = holderPayout snapshot.strikes (k : ℝ) := (holderPayout_cast _ k).symm
      _ ≤ holderPayout snapshot.strikes S := hle
  · have hlow := hK.lt k (mem_listedStrikes.mpr ⟨q, hmem, hk⟩) hlt
    rw [holderPayout_cast, holderPayout_cast]
    exact fun heq => absurd (Rat.cast_injective heq) hlow.ne
  · obtain ⟨q, hmem, hq⟩ := hfinite
    obtain ⟨K', hK', hresult'⟩ := computeMaxPain_spec snapshot' ⟨q, hperm.symm.subset hmem, hq⟩
    have hpayout : ∀ S : ℚ, holderPayout snapshot'.strikes S = holderPayout snapshot.strikes S :=
      holderPayout_perm hperm
    rw [funext hpayout] at hK'
    rw [hresult, hresult', (hK'.perm (hperm.filterMap _)).unique hK]

/-- Three strikes out of order, one twice, with open interest missing on one side. -/
theorem maxPain_minimizes_ladder :
    let snapshot : ChainSnapshot := ⟨[
      { strike := .fin 110, ceOi := some (.fin 5), peOi := some (.fin 40) },
      { strike := .fin 90, ceOi := some (.fin 30), peOi := none },
      { strike := .fin 100, ceOi := some .nan, peOi := some (.fin 10) },
      { strike := .nan, ceOi := some (.fin 9) },
      { strike := .fin 100, ceOi := some (.fin 10), peOi := some (.fin 10) }]⟩
    computeMaxPain F64.fin snapshot = some (.fin 100) ∧
      ∃ K : ℚ, computeMaxPain F64.fin snapshot = some (.fin K) ∧
        ∀ S : ℝ, holderPayout snapshot.strikes (K : ℝ) ≤ holderPayout snapshot.strikes S := by
  intro snapshot
  refine ⟨by decide +kernel, ?_⟩
  obtain ⟨K, hK, _, hmin, _⟩ := maxPain_minimizes snapshot (by decide +kernel) (by
    unfold OpenInterestNonneg
    decide +kernel)
  exact ⟨K, hK, hmin⟩

end AiTrader.Options
