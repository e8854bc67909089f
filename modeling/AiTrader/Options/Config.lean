import AiTrader.Options.Chain
import Mathlib.Tactic.NormNum

/-! # Configuration of the options analytics

`resolve_options_config` (`src/agents/deep-quant-loop/options.py`): every parameter has an
environment variable of its own, and a variable that is unset, blank, unreadable or out of range
gives the default.  `resolve_spec` is what the implied-volatility solver may rely on. -/

namespace AiTrader.Options

/-- `OptionsConfig`. -/
structure OptionsConfig where
  riskFreeRate : F64
  ivTolerance : F64
  ivMaxIterations : ℤ
  ivMinVol : F64
  ivMaxVol : F64
  oiWallMinOi : F64
  buildupOiEpsilon : F64
  buildupPriceEpsilon : F64
  deriving DecidableEq

def defaultRiskFreeRate : F64 := .fin 0.065
def defaultIvTolerance : F64 := .fin 1e-6
def defaultIvMaxIterations : ℤ := 100
def defaultIvMinVol : F64 := .fin 0.005
def defaultIvMaxVol : F64 := .fin 5
def defaultOiWallMinOi : F64 := .fin 0
def defaultBuildupOiEpsilon : F64 := .fin 0
def defaultBuildupPriceEpsilon : F64 := .fin 0

/-- The process that resolves the configuration: `os.getenv`, and `float()` and `int()` of a
text, `none` where they raise. -/
structure Environment where
  getenv : String → Option String
  toFloat : String → Option F64
  toInt : String → Option ℤ

section
variable (env : Environment)

/-- `raw.strip()`, when the variable is set and not blank. -/
def rawValue (envName : String) : Option String :=
  match env.getenv envName with
  | none => none
  | some raw => if Text.strip raw = "" then none else some (Text.strip raw)

/-- `_resolve_float`. -/
def resolveFloat (envName : String) (default low high : F64) (inclusiveLow : Bool := true) : F64 :=
  match (rawValue env envName).bind env.toFloat with
  | none => default
  | some value =>
      if !value.isFinite then default
      else if F64.lt value low || (!inclusiveLow && F64.eq value low) then default
      else if F64.lt high value then default
      else value

/-- `_resolve_int`. -/
def resolveInt (envName : String) (default low : ℤ) : ℤ :=
  match (rawValue env envName).bind env.toInt with
  | none => default
  | some value => if value < low then default else value

/-- `_resolve_bool`; `lower` is `str.lower()`. -/
def resolveBool (lower : String → String) (envName : String) (default : Bool) : Bool :=
  match rawValue env envName with
  | none => default
  | some raw =>
      if lower raw ∈ ["1", "true", "yes", "on"] then true
      else if lower raw ∈ ["0", "false", "no", "off"] then false
      else default

/-- `resolve_options_config`. -/
def resolveOptionsConfig : OptionsConfig :=
  let ivMinVol := resolveFloat env "OPTIONS_IV_MIN_VOL" defaultIvMinVol (.fin 0) .posInf
  let ivMaxVol := resolveFloat env "OPTIONS_IV_MAX_VOL" defaultIvMaxVol (.fin 0) .posInf false
  -- the bounds go back to their defaults together
  let unordered := F64.le ivMaxVol ivMinVol
  { riskFreeRate :=
      resolveFloat env "OPTIONS_RISK_FREE_RATE" defaultRiskFreeRate (.fin 0) (.fin 1)
    ivTolerance := resolveFloat env "OPTIONS_IV_TOLERANCE" defaultIvTolerance (.fin 0) (.fin 1) false
    ivMaxIterations := resolveInt env "OPTIONS_IV_MAX_ITERATIONS" defaultIvMaxIterations 1
    ivMinVol := if unordered then defaultIvMinVol else ivMinVol
    ivMaxVol := if unordered then defaultIvMaxVol else ivMaxVol
    oiWallMinOi := resolveFloat env "OPTIONS_OI_WALL_MIN_OI" defaultOiWallMinOi (.fin 0) .posInf
    buildupOiEpsilon :=
      resolveFloat env "OPTIONS_BUILDUP_OI_EPSILON" defaultBuildupOiEpsilon (.fin 0) .posInf
    buildupPriceEpsilon :=
      resolveFloat env "OPTIONS_BUILDUP_PRICE_EPSILON" defaultBuildupPriceEpsilon (.fin 0) .posInf }

end

/-! ### What is resolved -/

theorem resolveFloat_cases (env : Environment) (envName : String) (default low high : F64)
    (inclusiveLow : Bool) :
    resolveFloat env envName default low high inclusiveLow = default ∨
      ∃ q : ℚ, resolveFloat env envName default low high inclusiveLow = .fin q ∧
        (rawValue env envName).bind env.toFloat = some (.fin q) ∧
        F64.lt (.fin q) low = false ∧ (inclusiveLow = false → F64.eq (.fin q) low = false) ∧
        F64.lt high (.fin q) = false := by
  unfold resolveFloat
  split
  · exact .inl rfl
  · rename_i value hvalue
    split
    · exact .inl rfl
    · rename_i hfinite
      obtain ⟨q, rfl⟩ := F64.isFinite_iff.mp (by simpa using hfinite)
      split
      · exact .inl rfl
      · rename_i hlow
        rw [Bool.or_eq_true, not_or, Bool.and_eq_true, not_and] at hlow
        split
        · exact .inl rfl
        · rename_i hhigh
          refine .inr ⟨q, rfl, hvalue, by simpa using hlow.1, fun hexclusive => ?_, by simpa using hhigh⟩
          simpa using hlow.2 (by simp [hexclusive])

theorem resolveInt_ge (env : Environment) (envName : String) {default low : ℤ}
    (hdefault : low ≤ default) : low ≤ resolveInt env envName default low := by
  unfold resolveInt
  split
  · exact hdefault
  · split
    · exact hdefault
    · rename_i hlow
      exact not_lt.mp hlow

/-- The part of a configuration that the implied-volatility solver reads, as numbers. -/
structure SolverConfig (config : OptionsConfig) (tolerance minVol maxVol : ℚ) : Prop where
  ivTolerance : config.ivTolerance = .fin tolerance
  ivMinVol : config.ivMinVol = .fin minVol
  ivMaxVol : config.ivMaxVol = .fin maxVol
  tolerance_pos : 0 < tolerance
  minVol_nonneg : 0 ≤ minVol
  minVol_lt : minVol < maxVol
  iterations : 1 ≤ config.ivMaxIterations

theorem resolveFloat_pos (env : Environment) (envName : String) (high : F64) {d : ℚ} (hd : 0 < d) :
    ∃ q : ℚ, resolveFloat env envName (.fin d) (.fin 0) high false = .fin q ∧ 0 < q := by
  rcases resolveFloat_cases env envName (.fin d) (.fin 0) high false with
    hdefault | ⟨q, hq, _, hlow, hne, _⟩
  · exact ⟨d, hdefault, hd⟩
  · refine ⟨q, hq, lt_of_le_of_ne (by simpa using hlow) fun h => ?_⟩
    have := hne rfl
    simp [F64.eq, h] at this

theorem resolveFloat_nonneg (env : Environment) (envName : String) (high : F64) {d : ℚ}
    (hd : 0 ≤ d) :
    ∃ q : ℚ, resolveFloat env envName (.fin d) (.fin 0) high = .fin q ∧ 0 ≤ q := by
  rcases resolveFloat_cases env envName (.fin d) (.fin 0) high true with
    hdefault | ⟨q, hq, _, hlow, _⟩
  · exact ⟨d, hdefault, hd⟩
  · exact ⟨q, hq, by simpa using hlow⟩

/-- Whatever the environment holds, the bounds are ordered, the tolerance is positive and there is
at least one iteration.  The lower bound may be zero. -/
theorem resolve_spec (env : Environment) :
    ∃ tolerance minVol maxVol, SolverConfig (resolveOptionsConfig env) tolerance minVol maxVol := by
  obtain ⟨tolerance, htolerance, hpos⟩ :=
    resolveFloat_pos env "OPTIONS_IV_TOLERANCE" (.fin 1) (show (0 : ℚ) < 1e-6 by norm_num)
  obtain ⟨minVol, hmin, hnonneg⟩ :=
    resolveFloat_nonneg env "OPTIONS_IV_MIN_VOL" .posInf (show (0 : ℚ) ≤ 0.005 by norm_num)
  obtain ⟨maxVol, hmax, _⟩ :=
    resolveFloat_pos env "OPTIONS_IV_MAX_VOL" .posInf (show (0 : ℚ) < 5 by norm_num)
  have hiterations : 1 ≤ (resolveOptionsConfig env).ivMaxIterations :=
    resolveInt_ge env _ (by decide)
  by_cases hordered : minVol < maxVol
  · have hle : F64.le (.fin maxVol) (.fin minVol) = false := by simpa using hordered
    refine ⟨tolerance, minVol, maxVol, htolerance, ?_, ?_, hpos, hnonneg, hordered, hiterations⟩
    · simp [resolveOptionsConfig, defaultIvMinVol, defaultIvMaxVol, hmin, hmax, hle]
    · simp [resolveOptionsConfig, defaultIvMinVol, defaultIvMaxVol, hmin, hmax, hle]
  · have hle : F64.le (.fin maxVol) (.fin minVol) = true := by simpa using not_lt.mp hordered
    refine ⟨tolerance, 0.005, 5, htolerance, ?_, ?_, hpos, by norm_num, by norm_num, hiterations⟩
    · simp [resolveOptionsConfig, defaultIvMinVol, defaultIvMaxVol, hmin, hmax, hle]
    · simp [resolveOptionsConfig, defaultIvMinVol, defaultIvMaxVol, hmin, hmax, hle]

/-- The lower bound is zero only where its variable says so: zero is in its range, and every upper
bound is above it. -/
theorem minVol_eq_zero_iff {env : Environment} {tolerance minVol maxVol : ℚ}
    (h : SolverConfig (resolveOptionsConfig env) tolerance minVol maxVol) :
    minVol = 0 ↔ (rawValue env "OPTIONS_IV_MIN_VOL").bind env.toFloat = some (.fin 0) := by
  obtain ⟨upper, hmax, hupper⟩ :=
    resolveFloat_pos env "OPTIONS_IV_MAX_VOL" .posInf (show (0 : ℚ) < 5 by norm_num)
  have hminVol := h.ivMinVol
  simp only [resolveOptionsConfig, defaultIvMinVol, defaultIvMaxVol, hmax] at hminVol
  constructor
  · rintro rfl
    split at hminVol
    · norm_num at hminVol
    · rcases resolveFloat_cases env "OPTIONS_IV_MIN_VOL" (.fin 0.005) (.fin 0) .posInf true with
        hdefault | ⟨q, hq, hvalue, _⟩
      · rw [hdefault] at hminVol
        norm_num at hminVol
      · rw [hvalue, ← hq, hminVol]
  · intro hvalue
    have hzero : resolveFloat env "OPTIONS_IV_MIN_VOL" (.fin 0.005) (.fin 0) .posInf = .fin 0 := by
      rw [resolveFloat, hvalue]
      rfl
    have hle : F64.le (.fin upper) (.fin 0) = false := by simpa using hupper
    rw [hzero, hle] at hminVol
    simpa using hminVol.symm

end AiTrader.Options
