import AiTrader.Events.Config
import AiTrader.MarketSession.Label

/-! # Assessing the risk of a scheduled event

`assess_event_risk` (`src/agents/deep-quant-loop/events.py`): the local calendar days from a
reference to an event, the risk for a holding horizon and what is recommended.  To shorten the
horizon is recommended of a `multi_session` position that would be held through the event, also on
the very day of the event, when an `intraday` position is held through it as well.

* `assess_eq`: what an assessment is made of.
* `shortening_clears_iff`: shortening clears the event, and the risk does not fall as the event
  comes nearer, exactly if the event is on another local date than the reference and no local date
  runs back over the edge of a window. -/

namespace AiTrader.Events

open MarketSession (LocalDatetime)

inductive EventRisk where
  | clear
  | imminent
  | throughEvent
deriving DecidableEq, Repr

inductive EventRecommendation where
  | proceed
  | sizeDown
  | shortenHorizon
  | standAside
deriving DecidableEq, Repr

/-- The order clear < imminent < through_event. -/
def EventRisk.severity : EventRisk → ℕ
  | .clear => 0
  | .imminent => 1
  | .throughEvent => 2

structure EventAssessment where
  daysUntilEvent : ℤ
  eventRisk : EventRisk
  eventRecommendation : EventRecommendation
  holdingHorizon : HoldingHorizon
  eventDate : Option String
  symbol : Option String
deriving DecidableEq, Repr

/-- An Unavailable_Marker. -/
structure EventUnavailable where
  symbol : Option String
  holdingHorizon : HoldingHorizon
  eventDate : Option String
  reason : String
deriving DecidableEq, Repr

inductive EventResult where
  | assessment (a : EventAssessment)
  | unavailable (m : EventUnavailable)
deriving DecidableEq, Repr

/-- What the code takes from its host language and the timezone database; here the offset of a zone
depends on the instant, in microseconds of UTC. -/
structure Runtime extends MarketSession.Runtime where
  loadable : String → Bool
  utcOffsetAt : String → ℤ → ℤ

/-- `normalize_holding_horizon`. -/
def normalizeHoldingHorizon (value : PyVal) (config : EventConfig) : HoldingHorizon :=
  match value with
  | .str s => (HoldingHorizon.ofString? s).getD config.defaultHoldingHorizon
  | _ => config.defaultHoldingHorizon

section
variable (R : Runtime)

/-- The instant in microseconds, as `datetime.fromtimestamp` rounds it. -/
def utcMicros (seconds : ℚ) : ℤ :=
  let whole := seconds.num.tdiv seconds.den
  whole * 1000000 + roundHalfEven (R.rnd ((seconds - whole) * 1000000))

/-- `datetime.fromtimestamp(ms / 1000.0, tz=tz).date()`, in days; `none` is an error of range. -/
def localDate (timezone : String) (ms : PyVal) : Option ℤ :=
  let seconds := R.rnd (MarketSession.toDouble R.toRuntime ms / 1000)
  (MarketSession.fromTimestamp R.toRuntime seconds
    (R.utcOffsetAt timezone (utcMicros R seconds))).map LocalDatetime.day

/-- `compute_days_until_event`.  The error is the class of the exception. -/
def computeDaysUntilEvent (referenceMs eventMs : PyVal) (config : EventConfig) :
    Except String (Option ℤ) :=
  match isFiniteNumber referenceMs with
  | none => .error "OverflowError"
  | some false => .ok none
  | some true =>
      match isFiniteNumber eventMs with
      | none => .error "OverflowError"
      | some false => .ok none
      | some true =>
          if !R.loadable config.timezone then .ok none
          else
            match localDate R config.timezone referenceMs, localDate R config.timezone eventMs with
            | some referenceDate, some eventDate =>
                if eventDate - referenceDate < 0 then .ok none
                else .ok (some (eventDate - referenceDate))
            | _, _ => .ok none

/-- `classify_event_risk`. -/
def classifyEventRisk (days : ℤ) (horizon : HoldingHorizon) (config : EventConfig) : EventRisk :=
  if days < 0 then .clear
  else
    match horizon with
    | .intraday => if days = 0 then .throughEvent else .clear
    | .multiSession =>
        if days ≤ config.throughEventWindowDays then .throughEvent
        else if days ≤ config.imminentWindowDays then .imminent
        else .clear

/-- `derive_event_recommendation`. -/
def deriveEventRecommendation (risk : EventRisk) (horizon : HoldingHorizon) : EventRecommendation :=
  match risk with
  | .imminent => .sizeDown
  | .throughEvent =>
      match horizon with
      | .intraday => .standAside
      | .multiSession => .shortenHorizon
  | .clear => .proceed

/-- `assess_event_risk`. -/
def assessEventRisk (referenceMs eventMs holdingHorizon : PyVal) (config : EventConfig)
    (symbol eventDate : Option String := none) : EventResult :=
  let horizon := normalizeHoldingHorizon holdingHorizon config
  match computeDaysUntilEvent R referenceMs eventMs config with
  | .error exc => .unavailable ⟨symbol, horizon, eventDate, "event classification error: " ++ exc⟩
  | .ok none =>
      .unavailable ⟨symbol, horizon, eventDate,
        "invalid event timing: expected finite epoch-millisecond " ++
          "reference/event timestamps, got reference=" ++ R.repr referenceMs ++
          ", event=" ++ R.repr eventMs⟩
  | .ok (some days) =>
      let risk := classifyEventRisk days horizon config
      .assessment ⟨days, risk, deriveEventRecommendation risk horizon, horizon, eventDate, symbol⟩

end

/-! ### What an assessment is made of -/

/-- The local date of a timestamp that can be assessed. -/
def dateOf (R : Runtime) (config : EventConfig) (ms : PyVal) : Option ℤ :=
  if isFiniteNumber ms = some true ∧ R.loadable config.timezone = true then
    localDate R config.timezone ms
  else none

section
variable {R : Runtime} {config : EventConfig} {reference event horizon : PyVal}
  {symbol eventDate : Option String} {days : ℤ}

theorem computeDaysUntilEvent_eq_some :
    computeDaysUntilEvent R reference event config = .ok (some days) ↔
      ∃ d d', dateOf R config reference = some d ∧ dateOf R config event = some d' ∧
        days = d' - d ∧ 0 ≤ days := by
  unfold computeDaysUntilEvent dateOf
  match isFiniteNumber reference, isFiniteNumber event with
  | none, _ => simp
  | some false, _ => simp
  | some true, none => simp
  | some true, some false => simp
  | some true, some true =>
      cases R.loadable config.timezone with
      | false => simp
      | true =>
          cases localDate R config.timezone reference with
          | none => simp
          | some d =>
              cases localDate R config.timezone event with
              | none => simp
              | some d' =>
                  by_cases hpast : d' - d < 0
                  · simp [hpast]
                    omega
                  · simp [hpast, eq_comm]
                    omega

theorem assess_eq {a : EventAssessment} :
    assessEventRisk R reference event horizon config symbol eventDate = .assessment a ↔
      ∃ d d', dateOf R config reference = some d ∧ dateOf R config event = some d' ∧ d ≤ d' ∧
        a = ⟨d' - d, classifyEventRisk (d' - d) (normalizeHoldingHorizon horizon config) config,
          deriveEventRecommendation
            (classifyEventRisk (d' - d) (normalizeHoldingHorizon horizon config) config)
            (normalizeHoldingHorizon horizon config),
          normalizeHoldingHorizon horizon config, eventDate, symbol⟩ := by
  constructor
  · intro h
    unfold assessEventRisk at h
    split at h
    · cases h
    · cases h
    · rename_i days hdays
      obtain ⟨d, d', hd, hd', rfl, hle⟩ := computeDaysUntilEvent_eq_some.mp hdays
      cases h
      exact ⟨d, d', hd, hd', by omega, rfl⟩
  · rintro ⟨d, d', hd, hd', hle, rfl⟩
    have hdays := computeDaysUntilEvent_eq_some.mpr ⟨d, d', hd, hd', rfl, by omega⟩
    unfold assessEventRisk
    rw [hdays]

theorem normalize_intraday : normalizeHoldingHorizon (.str "intraday") config = .intraday := rfl

theorem classify_intraday (h : 0 ≤ days) :
    classifyEventRisk days .intraday config = if days = 0 then .throughEvent else .clear := by
  rw [classifyEventRisk, if_neg (not_lt.mpr h)]

theorem classify_multiSession (h : 0 ≤ days) :
    classifyEventRisk days .multiSession config =
      if days ≤ config.throughEventWindowDays then .throughEvent
      else if days ≤ config.imminentWindowDays then .imminent else .clear := by
  rw [classifyEventRisk, if_neg (not_lt.mpr h)]

/-- Only what would be held through the event is to be shortened. -/
theorem derive_eq_shorten {risk : EventRisk} :
    deriveEventRecommendation risk .multiSession = .shortenHorizon ↔ risk = .throughEvent := by
  cases risk <;> simp [deriveEventRecommendation]

theorem severity_multiSession (h : 0 ≤ days) :
    (classifyEventRisk days .multiSession config).severity =
      if days ≤ config.throughEventWindowDays then 2
      else if days ≤ config.imminentWindowDays then 1 else 0 := by
  rw [classify_multiSession h]
  split_ifs <;> rfl

/-- Severity goes by the windows that the event is in. -/
theorem severity_multiSession_le {days' : ℤ} (h : 0 ≤ days) (h' : 0 ≤ days')
    (hwindows : config.throughEventWindowDays ≤ config.imminentWindowDays) :
    (classifyEventRisk days .multiSession config).severity ≤
        (classifyEventRisk days' .multiSession config).severity ↔
      ∀ window ∈ [config.throughEventWindowDays, config.imminentWindowDays],
        days ≤ window → days' ≤ window := by
  rw [severity_multiSession h, severity_multiSession h']
  simp only [List.mem_cons, List.not_mem_nil, or_false, forall_eq_or_imp, forall_eq]
  split_ifs <;> omega

/-! ### Two references -/

/-- The number that a timestamp is. -/
def numeric : PyVal → Option ℚ
  | .int z => some z
  | .float (.fin q) => some q
  | _ => none

/-- The reference moves forward, at most up to the event. -/
def Forward (reference reference' event : PyVal) : Prop :=
  ∃ t t' e, numeric reference = some t ∧ numeric reference' = some t' ∧ numeric event = some e ∧
    t ≤ t' ∧ t' ≤ e

/-- The event is on the local date of the reference. -/
def SameDate (R : Runtime) (config : EventConfig) (reference event : PyVal) : Prop :=
  ∃ d, dateOf R config reference = some d ∧ dateOf R config event = some d

/-- From one reference to another the local date does not run back over the edge of a window. -/
def StaysNear (R : Runtime) (config : EventConfig) (reference reference' event : PyVal) : Prop :=
  ∀ d d' e, dateOf R config reference = some d → dateOf R config reference' = some d' →
    dateOf R config event = some e → d ≤ e → d' ≤ e →
      ∀ window ∈ [config.throughEventWindowDays, config.imminentWindowDays],
        e - d ≤ window → e - d' ≤ window

/-- Where local dates never run back, the second condition is met. -/
theorem staysNear_of_monotone {reference' : PyVal}
    (hmono : ∀ v v' t t' d d', numeric v = some t → numeric v' = some t' → t ≤ t' →
      dateOf R config v = some d → dateOf R config v' = some d' → d ≤ d')
    (h : Forward reference reference' event) : StaysNear R config reference reference' event := by
  obtain ⟨t, t', -, ht, ht', -, hle, -⟩ := h
  intro d d' e hd hd' _ _ _ window _ hwindow
  have := hmono reference reference' t t' d d' ht ht' hle hd hd'
  omega

/-! ### The two halves -/

/-- A position that is to be shortened is clear once it is intraday, unless the event is today. -/
theorem shortening_clears_of (hwindow : 0 ≤ config.throughEventWindowDays) :
    (∀ a, assessEventRisk R reference event (.str "multi_session") config symbol eventDate =
        .assessment a → a.eventRecommendation = .shortenHorizon →
      ∃ b, assessEventRisk R reference event (.str "intraday") config symbol eventDate =
        .assessment b ∧ b.eventRisk = .clear ∧ b.eventRecommendation = .proceed) ↔
    ¬ SameDate R config reference event := by
  constructor
  · rintro hclears ⟨d, hd, hd'⟩
    have hrisk : classifyEventRisk (d - d) .multiSession config = .throughEvent := by
      rw [sub_self, classify_multiSession le_rfl, if_pos hwindow]
    obtain ⟨b, hb, hclear, -⟩ := hclears _ (assess_eq.mpr ⟨d, d, hd, hd', le_rfl, rfl⟩)
      (derive_eq_shorten.mpr hrisk)
    obtain ⟨e, e', he, he', -, rfl⟩ := assess_eq.mp hb
    obtain rfl : d = e := Option.some.inj (hd.symm.trans he)
    obtain rfl : d = e' := Option.some.inj (hd'.symm.trans he')
    rw [normalize_intraday, sub_self, classify_intraday le_rfl, if_pos rfl] at hclear
    cases hclear
  · rintro hother a ha -
    obtain ⟨d, d', hd, hd', hle, rfl⟩ := assess_eq.mp ha
    refine ⟨_, assess_eq.mpr ⟨d, d', hd, hd', hle, rfl⟩, ?_⟩
    have hne : d' - d ≠ 0 := by
      intro hzero
      obtain rfl : d = d' := by omega
      exact hother ⟨d, hd, hd'⟩
    rw [normalize_intraday, classify_intraday (by omega), if_neg hne]
    exact ⟨rfl, rfl⟩

theorem severity_kept_iff {reference' : PyVal} (hother : ¬ SameDate R config reference event)
    (hwindows : config.throughEventWindowDays ≤ config.imminentWindowDays) :
    (∀ horizon a b,
      assessEventRisk R reference event horizon config symbol eventDate = .assessment a →
      assessEventRisk R reference' event horizon config symbol eventDate = .assessment b →
        a.eventRisk.severity ≤ b.eventRisk.severity) ↔
      StaysNear R config reference reference' event := by
  constructor
  · intro hkept d d' e hd hd' he hle hle'
    have := hkept (.str "multi_session") _ _ (assess_eq.mpr ⟨d, e, hd, he, hle, rfl⟩)
      (assess_eq.mpr ⟨d', e, hd', he, hle', rfl⟩)
    exact (severity_multiSession_le (by omega) (by omega) hwindows).mp this
  · intro hnear horizon a b ha hb
    obtain ⟨d, e, hd, he, hle, rfl⟩ := assess_eq.mp ha
    obtain ⟨d', e', hd', he', hle', rfl⟩ := assess_eq.mp hb
    obtain rfl : e = e' := Option.some.inj (he.symm.trans he')
    cases hhorizon : normalizeHoldingHorizon horizon config with
    | intraday =>
        have hne : e - d ≠ 0 := by
          intro hzero
          obtain rfl : d = e := by omega
          exact hother ⟨d, hd, he⟩
        simp only [classify_intraday (show 0 ≤ e - d by omega), if_neg hne]
        exact Nat.zero_le _
    | multiSession =>
        exact (severity_multiSession_le (by omega) (by omega) hwindows).mpr
          (hnear d d' e hd hd' he hle hle')

end

/-- **When shortening clears the event.**  Of a resolved configuration: what is to be shortened is
clear once it is intraday, and no risk falls as the reference moves forward to the event, exactly if
the event is not on the local date of the reference and no such move takes the local date back over
the edge of a window. -/
theorem shortening_clears_iff (R : Runtime) (env : Environment) (reference event : PyVal)
    (symbol eventDate : Option String) :
    ((∀ a, assessEventRisk R reference event (.str "multi_session") (resolveEventConfig env) symbol
        eventDate = .assessment a → a.eventRecommendation = .shortenHorizon →
      ∃ b, assessEventRisk R reference event (.str "intraday") (resolveEventConfig env) symbol
        eventDate = .assessment b ∧ b.eventRisk = .clear ∧ b.eventRecommendation = .proceed) ∧
    (∀ reference', Forward reference reference' event → ∀ horizon a b,
      assessEventRisk R reference event horizon (resolveEventConfig env) symbol eventDate =
        .assessment a →
      assessEventRisk R reference' event horizon (resolveEventConfig env) symbol eventDate =
        .assessment b → a.eventRisk.severity ≤ b.eventRisk.severity)) ↔
    ¬ SameDate R (resolveEventConfig env) reference event ∧
      ∀ reference', Forward reference reference' event →
        StaysNear R (resolveEventConfig env) reference reference' event := by
  have hwindows := resolveEventConfig_windows env
  rw [shortening_clears_of hwindows.1]
  exact and_congr_right fun hother => forall₂_congr fun reference' _ =>
    severity_kept_iff hother hwindows.2

/-! ### An event later today -/

/-- A process without variables, whose zones are all UTC and whose doubles are exact. -/
def plainRuntime : Runtime where
  rnd := id
  repr _ := ""
  utcOffset _ := 0
  loadable _ := true
  utcOffsetAt _ _ := 0

def plainEnvironment : Environment where
  getenv _ := none
  toFloat _ := none
  toInt _ := none
  casing := Text.Casing.ascii
  loadable _ := true

/-- One hour before the event the advice is to shorten, and the shortened position is held through
the event all the same. -/
theorem shortening_same_day : ∃ a b,
    assessEventRisk plainRuntime (.float (.fin 0)) (.float (.fin 3600000))
      (.str "multi_session") (resolveEventConfig plainEnvironment) = .assessment a ∧
    assessEventRisk plainRuntime (.float (.fin 0)) (.float (.fin 3600000))
      (.str "intraday") (resolveEventConfig plainEnvironment) = .assessment b ∧
    a.eventRecommendation = .shortenHorizon ∧ b.eventRisk = .throughEvent ∧
      b.eventRecommendation = .standAside := by
  have hdates :
      dateOf plainRuntime (resolveEventConfig plainEnvironment) (.float (.fin 0)) = some 0 ∧
        dateOf plainRuntime (resolveEventConfig plainEnvironment) (.float (.fin 3600000)) = some 0 :=
    by decide +kernel
  exact ⟨_, _, assess_eq.mpr ⟨0, 0, hdates.1, hdates.2, le_rfl, rfl⟩,
    assess_eq.mpr ⟨0, 0, hdates.1, hdates.2, le_rfl, rfl⟩, rfl, rfl, rfl⟩

end AiTrader.Events
