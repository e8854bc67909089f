import AiTrader.Library.Bisection
import AiTrader.Options.Config
import Mathlib.Data.Rat.Cast.Order

/-! # Implied volatility

`bs_implied_vol` (`src/agents/deep-quant-loop/options.py`) in exact arithmetic over any ordered
field.  The Black-Scholes price of one option is a parameter, as a function of the volatility.
The solver asks for the price at the lower bound first, and there is none at zero: it inverts the
price exactly when the environment does not set the lower bound to zero. -/

namespace AiTrader.Options

section
variable {𝕜 : Type*} [Field 𝕜] [LinearOrder 𝕜]

/-- The loop of `bs_implied_vol`. -/
def bisect (bsPrice : 𝕜 → Option 𝕜) (price tolerance : 𝕜) : ℕ → 𝕜 → 𝕜 → Option 𝕜
  | 0, lo, hi => some (0.5 * (lo + hi))
  | remaining + 1, lo, hi =>
      let mid := 0.5 * (lo + hi)
      match bsPrice mid with
      | none => none
      | some priceMid =>
          if |priceMid - price| ≤ tolerance then some mid
          else if priceMid < price then bisect bsPrice price tolerance remaining mid hi
          else bisect bsPrice price tolerance remaining lo mid

/-- `bs_implied_vol` of one option.  A price that is not a number is `none`. -/
def bsImpliedVol (C : Text.Casing) (optionType : String) (bsPrice : 𝕜 → Option 𝕜)
    (price : Option 𝕜) (config : OptionsConfig) : Option 𝕜 :=
  match price with
  | none => none
  | some price =>
      if normalizeOptionType C optionType = none then none
      else
        match config.ivMinVol, config.ivMaxVol, config.ivTolerance with
        | .fin minVol, .fin maxVol, .fin tolerance =>
            if ¬(0 < maxVol ∧ 0 ≤ minVol ∧ minVol < maxVol) then none
            else if ¬ 0 < tolerance then none
            else if ¬ 1 ≤ config.ivMaxIterations then none
            else
              match bsPrice minVol, bsPrice maxVol with
              | some priceLow, some priceHigh =>
                  if price ≤ priceLow then
                    if priceLow - price ≤ tolerance then some (minVol : 𝕜) else none
                  else if price ≥ priceHigh then
                    if price - priceHigh ≤ tolerance then some (maxVol : 𝕜) else none
                  else
                    bisect bsPrice price tolerance config.ivMaxIterations.toNat minVol maxVol
              | _, _ => none
        | _, _, _ => none

/-- The price of one option as a function of the volatility: none of zero and below, strictly
increasing above, and none at all of an option whose type is not recognised. -/
structure PriceCurve (C : Text.Casing) (optionType : String) (bsPrice : 𝕜 → Option 𝕜) : Prop where
  unrecognized : normalizeOptionType C optionType = none → ∀ σ, bsPrice σ = none
  none_of_nonpos : ∀ σ ≤ 0, bsPrice σ = none
  some_of_pos : ∀ σ > 0, ∃ price, bsPrice σ = some price
  increasing : ∀ σ τ price price', 0 < σ → σ < τ → bsPrice σ = some price →
    bsPrice τ = some price' → price < price'

/-- What inverting the price means under a configuration: a price taken inside the bounds gives a
volatility inside them that reprices the option, or is as close to the one it was taken at as the
last interval, and a price too far outside the bracket gives none. -/
structure Inverts (C : Text.Casing) (optionType : String) (bsPrice : 𝕜 → Option 𝕜)
    (config : OptionsConfig) (tolerance minVol maxVol : 𝕜) : Prop where
  inside : ∀ σ price, minVol < σ → σ < maxVol → bsPrice σ = some price →
    ∃ vol, bsImpliedVol C optionType bsPrice (some price) config = some vol ∧
      minVol ≤ vol ∧ vol ≤ maxVol ∧
      ((∃ repriced, bsPrice vol = some repriced ∧ |repriced - price| ≤ tolerance) ∨
        |vol - σ| ≤ (maxVol - minVol) / 2 ^ (config.ivMaxIterations.toNat + 1))
  outside : ∀ price priceLow priceHigh, bsPrice minVol = some priceLow →
    bsPrice maxVol = some priceHigh → price < priceLow - tolerance ∨ priceHigh + tolerance < price →
      bsImpliedVol C optionType bsPrice (some price) config = none

/-- The environment sets the lower bound to zero. -/
def SetsMinVolZero (env : Environment) : Prop :=
  (rawValue env "OPTIONS_IV_MIN_VOL").bind env.toFloat = some (.fin 0)

/-! ### The solver under a resolved configuration -/

variable {C : Text.Casing} {optionType : String}
  {bsPrice : 𝕜 → Option 𝕜} {config : OptionsConfig} {tolerance minVol maxVol : ℚ}

theorem PriceCurve.exists_price (h : PriceCurve C optionType bsPrice) :
    ∃ f : 𝕜 → 𝕜, (∀ σ > 0, bsPrice σ = some (f σ)) ∧ StrictMonoOn f (Set.Ioi 0) := by
  refine ⟨fun σ => (bsPrice σ).getD 0, fun σ hσ => ?_, fun σ hσ τ hτ hlt => ?_⟩
  · obtain ⟨price, hprice⟩ := h.some_of_pos σ hσ
    simp [hprice]
  · obtain ⟨price, hprice⟩ := h.some_of_pos σ hσ
    obtain ⟨price', hprice'⟩ := h.some_of_pos τ hτ
    simpa [hprice, hprice'] using h.increasing σ τ price price' hσ hlt hprice hprice'

theorem bsImpliedVol_eq (hconfig : SolverConfig config tolerance minVol maxVol)
    (hkind : normalizeOptionType C optionType ≠ none) (price : 𝕜) :
    bsImpliedVol C optionType bsPrice (some price) config =
      match bsPrice minVol, bsPrice maxVol with
      | some priceLow, some priceHigh =>
          if price ≤ priceLow then
            if priceLow - price ≤ tolerance then some (minVol : 𝕜) else none
          else if price ≥ priceHigh then
            if price - priceHigh ≤ tolerance then some (maxVol : 𝕜) else none
          else bisect bsPrice price tolerance config.ivMaxIterations.toNat minVol maxVol
      | _, _ => none := by
  have hmax : 0 < maxVol := hconfig.minVol_nonneg.trans_lt hconfig.minVol_lt
  unfold bsImpliedVol
  simp only [hkind, if_false, hconfig.ivMinVol, hconfig.ivMaxVol, hconfig.ivTolerance]
  rw [if_neg (not_not.mpr ⟨hmax, hconfig.minVol_nonneg, hconfig.minVol_lt⟩),
    if_neg (not_not.mpr hconfig.tolerance_pos), if_neg (not_not.mpr hconfig.iterations)]

variable [IsStrictOrderedRing 𝕜]

theorem bisect_eq_search {f : 𝕜 → 𝕜} (hf : ∀ σ > 0, bsPrice σ = some (f σ))
    (price tolerance : 𝕜) (remaining : ℕ) {lo hi : 𝕜} (hlo : 0 < lo) (hle : lo ≤ hi) :
    bisect bsPrice price tolerance remaining lo hi =
      some (Bisection.search f price tolerance remaining lo hi) := by
  have hhalf : ∀ lo hi : 𝕜, 0.5 * (lo + hi) = (lo + hi) / 2 := fun lo hi => by norm_num; ring
  induction remaining generalizing lo hi with
  | zero => rw [bisect, Bisection.search, hhalf]
  | succ remaining ih =>
      obtain ⟨hleft, hright⟩ := Bisection.midpoint_mem hle
      have hmid : 0 < (lo + hi) / 2 := hlo.trans_le hleft
      rw [bisect, Bisection.search]
      simp only [hhalf, hf _ hmid]
      split
      · rfl
      · split
        · exact ih hmid hright
        · exact ih hlo hleft

theorem PriceCurve.recognized (h : PriceCurve C optionType bsPrice) :
    normalizeOptionType C optionType ≠ none := by
  intro hnone
  obtain ⟨price, hprice⟩ := h.some_of_pos 1 one_pos
  rw [h.unrecognized hnone 1] at hprice
  cases hprice

/-! ### With a positive lower bound -/

/-- The bisection inverts the price inside a bracket that exists. -/
theorem inverts_of_pos (hcurve : PriceCurve C optionType bsPrice)
    (hconfig : SolverConfig config tolerance minVol maxVol) (hpos : 0 < minVol) :
    Inverts C optionType bsPrice config (tolerance : 𝕜) minVol maxVol := by
  obtain ⟨f, hf, hmono⟩ := hcurve.exists_price
  have hmin : (0 : 𝕜) < minVol := Rat.cast_pos.mpr hpos
  have hlt : (minVol : 𝕜) < maxVol := Rat.cast_lt.mpr hconfig.minVol_lt
  have hmax : (0 : 𝕜) < maxVol := hmin.trans hlt
  have hsolver : ∀ price : 𝕜, bsImpliedVol C optionType bsPrice (some price) config = _ :=
    bsImpliedVol_eq hconfig hcurve.recognized
  simp only [hf _ hmin, hf _ hmax] at hsolver
  constructor
  · intro σ price hlow hhigh hprice
    have hσ : 0 < σ := hmin.trans hlow
    obtain rfl : f σ = price := Option.some.inj ((hf σ hσ).symm.trans hprice)
    have hbelow : ¬ f σ ≤ f minVol := not_le.mpr (hmono hmin hσ hlow)
    have habove : ¬ f σ ≥ f maxVol := not_le.mpr (hmono hσ hmax hhigh)
    rw [hsolver, if_neg hbelow, if_neg habove, bisect_eq_search hf _ _ _ hmin hlt.le]
    obtain ⟨hleft, hright⟩ := Bisection.search_mem f (f σ) (tolerance : 𝕜)
      config.ivMaxIterations.toNat hlt.le
    refine ⟨_, rfl, hleft, hright, ?_⟩
    have hmono' : StrictMonoOn f (Set.Icc (minVol : 𝕜) maxVol) :=
      hmono.mono fun τ hτ => hmin.trans_le hτ.1
    rcases Bisection.search_spec (tolerance : 𝕜) config.ivMaxIterations.toNat hmono'
      ⟨hlow.le, hhigh.le⟩ with hclose | hnear
    · exact .inl ⟨_, hf _ (hmin.trans_le hleft), hclose⟩
    · exact .inr hnear
  · intro price priceLow priceHigh hlow hhigh hout
    obtain rfl : f minVol = priceLow := Option.some.inj ((hf _ hmin).symm.trans hlow)
    obtain rfl : f maxVol = priceHigh := Option.some.inj ((hf _ hmax).symm.trans hhigh)
    have htolerance : (0 : 𝕜) < tolerance := Rat.cast_pos.mpr hconfig.tolerance_pos
    have hbracket : f minVol < f maxVol := hmono hmin hmax hlt
    rw [hsolver]
    rcases hout with hout | hout
    · rw [if_pos (by linarith), if_neg (by linarith)]
    · rw [if_neg (by linarith), if_pos (by linarith), if_neg (by linarith)]

/-! ### With a lower bound of zero -/

/-- There is no price at zero, so there is no bracket and no answer. -/
theorem not_inverts_of_zero (hcurve : PriceCurve C optionType bsPrice)
    (hconfig : SolverConfig config tolerance 0 maxVol) :
    ¬ Inverts C optionType bsPrice config (tolerance : 𝕜) (0 : ℚ) maxVol := by
  intro h
  have hmax : (0 : 𝕜) < maxVol := Rat.cast_pos.mpr hconfig.minVol_lt
  obtain ⟨price, hprice⟩ := hcurve.some_of_pos (maxVol / 2 : 𝕜) (half_pos hmax)
  obtain ⟨vol, hvol, _⟩ := h.inside (maxVol / 2) price (by simpa using half_pos hmax)
    (half_lt_self hmax) hprice
  have hzero : bsPrice ((0 : ℚ) : 𝕜) = none := hcurve.none_of_nonpos _ (by simp)
  rw [bsImpliedVol_eq hconfig hcurve.recognized, hzero] at hvol
  cases hvol

/-! ### Every environment -/

/-- **Implied volatility.** Whatever the environment holds, the solver inverts the price of every
option unless the lower bound is set to zero, and then it never does. -/
theorem impliedVol_inverts_iff (env : Environment) (hcurve : PriceCurve C optionType bsPrice) :
    ∃ tolerance minVol maxVol : ℚ,
      SolverConfig (resolveOptionsConfig env) tolerance minVol maxVol ∧
      (Inverts C optionType bsPrice (resolveOptionsConfig env) (tolerance : 𝕜) minVol maxVol ↔
        ¬ SetsMinVolZero env) := by
  obtain ⟨tolerance, minVol, maxVol, hconfig⟩ := resolve_spec env
  refine ⟨tolerance, minVol, maxVol, hconfig, ?_⟩
  rw [SetsMinVolZero, ← minVol_eq_zero_iff hconfig]
  constructor
  · rintro h rfl
    exact not_inverts_of_zero hcurve hconfig h
  · intro hne
    exact inverts_of_pos hcurve hconfig (lt_of_le_of_ne hconfig.minVol_nonneg (Ne.symm hne))

end

/-! ### An environment with a lower bound of zero -/

/-- A price that is its volatility. -/
def linearPrice (σ : ℚ) : Option ℚ := if σ ≤ 0 then none else some σ

theorem linearPrice_curve : PriceCurve .ascii "CE" linearPrice where
  unrecognized h := absurd h (by decide +kernel)
  none_of_nonpos σ hσ := if_pos hσ
  some_of_pos σ hσ := ⟨σ, if_neg (not_le.mpr hσ)⟩
  increasing σ τ price price' hσ hlt hprice hprice' := by
    rw [linearPrice, if_neg (not_le.mpr hσ)] at hprice
    rw [linearPrice, if_neg (not_le.mpr (hσ.trans hlt))] at hprice'
    rwa [← Option.some.inj hprice, ← Option.some.inj hprice']

/-- An environment that holds one variable. -/
def onlyMinVol (text : String) (value : F64) : Environment where
  getenv envName := if envName = "OPTIONS_IV_MIN_VOL" then some text else none
  toFloat raw := if raw = text then some value else none
  toInt _ := none

theorem impliedVol_inverts_iff_percent :
    ∃ tolerance minVol maxVol : ℚ,
      SolverConfig (resolveOptionsConfig (onlyMinVol "0.01" (.fin 0.01))) tolerance minVol maxVol ∧
      Inverts .ascii "CE" linearPrice (resolveOptionsConfig (onlyMinVol "0.01" (.fin 0.01)))
        tolerance minVol maxVol := by
  obtain ⟨tolerance, minVol, maxVol, hconfig, hiff⟩ :=
    impliedVol_inverts_iff (onlyMinVol "0.01" (.fin 0.01)) linearPrice_curve
  refine ⟨tolerance, minVol, maxVol, hconfig, hiff.mpr ?_⟩
  unfold SetsMinVolZero
  decide +kernel

/-- With a lower bound of zero a price taken inside the bounds has no implied volatility. -/
theorem impliedVol_none_of_zero :
    SolverConfig (resolveOptionsConfig (onlyMinVol "0" (.fin 0))) 1e-6 0 5 ∧
      linearPrice 1 = some 1 ∧
      bsImpliedVol .ascii "CE" linearPrice (some 1)
        (resolveOptionsConfig (onlyMinVol "0" (.fin 0))) = none ∧
      ¬ Inverts .ascii "CE" linearPrice (resolveOptionsConfig (onlyMinVol "0" (.fin 0)))
        ((1e-6 : ℚ) : ℚ) (0 : ℚ) (5 : ℚ) := by
  have hconfig : SolverConfig (resolveOptionsConfig (onlyMinVol "0" (.fin 0))) 1e-6 0 5 := by
    constructor <;> decide +kernel
  exact ⟨hconfig, by decide +kernel, by decide +kernel,
    not_inverts_of_zero linearPrice_curve hconfig⟩

end AiTrader.Options
