import AiTrader.MarketSession.Label
import Mathlib.Tactic.NormNum

/-! # The phase against the minutes

The phase is found by whole seconds, the minutes by microseconds.  Both say the same except in the
second that begins at the close: after its first instant the phase is still in session, and there
are no minutes any more (`classifySession_agrees_iff`). -/

namespace AiTrader.MarketSession

/-- `open_time < close_time`. -/
def OpensBeforeClose (config : SessionConfig) : Prop :=
  config.openTime.micros < config.closeTime.micros

/-- The session length in whole minutes. -/
def sessionLength (config : SessionConfig) : ℤ :=
  (config.closeTime.micros - config.openTime.micros) / 60000000

/-- Out of session by its phase. -/
def SessionPhase.outOfSession (phase : SessionPhase) : Prop :=
  phase = .preOpen ∨ phase = .postClose

/-- There are no minutes exactly out of session; in session none is negative, and together they make
up the session but for a minute. -/
structure PhaseMinutesAgree (config : SessionConfig) (label : SessionLabel) : Prop where
  none_iff : (label.minutesSinceOpen = none ∧ label.minutesUntilClose = none) ↔
    label.sessionPhase.outOfSession
  inSession : ¬ label.sessionPhase.outOfSession → ∃ sinceOpen untilClose,
    label.minutesSinceOpen = some sinceOpen ∧ label.minutesUntilClose = some untilClose ∧
      0 ≤ sinceOpen ∧ 0 ≤ untilClose ∧ |sinceOpen + untilClose - sessionLength config| ≤ 1

/-- The local time is in the second that begins at the close, and not at its first instant. -/
def InClosingSecond (config : SessionConfig) (localDt : LocalDatetime) : Prop :=
  localDt.time / 1000000 = config.closeTime.seconds ∧ localDt.time % 1000000 ≠ 0

section
variable {R : Runtime} {config : SessionConfig} {localDt : LocalDatetime}

/-! ### Times of day -/

theorem LocalDatetime.time_nonneg (dt : LocalDatetime) : 0 ≤ dt.time :=
  Int.emod_nonneg _ (by decide)

theorem LocalDatetime.time_lt (dt : LocalDatetime) : dt.time < microsPerDay :=
  Int.emod_lt_of_pos _ (by decide)

theorem LocalDatetime.micros_eq (dt : LocalDatetime) :
    dt.micros = dt.day * microsPerDay + dt.time := by
  unfold LocalDatetime.day LocalDatetime.time
  exact (Int.ediv_mul_add_emod _ _).symm

@[simp] theorem LocalDatetime.replace_micros (dt : LocalDatetime) (t : TimeOfDay) :
    (dt.replace t).micros = dt.day * microsPerDay + t.seconds * 1000000 := rfl

theorem TimeOfDay.seconds_nonneg (t : TimeOfDay) : 0 ≤ t.seconds := by
  unfold TimeOfDay.seconds
  omega

theorem TimeOfDay.seconds_lt (t : TimeOfDay) : t.seconds < 86400 := by
  obtain ⟨hour, minute, second, _, hhour, hminute, hsecond, -⟩ := t
  unfold TimeOfDay.seconds
  dsimp only
  omega

/-- The session as the code has it, without the microseconds of its bounds. -/
theorem OpensBeforeClose.seconds_le (h : OpensBeforeClose config) :
    config.openTime.seconds ≤ config.closeTime.seconds := by
  have := config.closeTime.microsecond_lt
  unfold OpensBeforeClose TimeOfDay.micros at h
  omega

/-! ### The phase -/

theorem outOfSession_iff : (classifySessionPhase localDt config).outOfSession ↔
    localDt.time / 1000000 < config.openTime.seconds ∨
      config.closeTime.seconds < localDt.time / 1000000 := by
  unfold SessionPhase.outOfSession classifySessionPhase
  dsimp only
  split
  · simp [*]
  · split
    · simp [*]
    · rename_i hopen hclose
      have hno : ¬ (localDt.time / 1000000 < config.openTime.seconds ∨
          config.closeTime.seconds < localDt.time / 1000000) := by omega
      simp only [hno, iff_false]
      split
      · decide
      · split
        · decide
        · split
          · decide
          · split <;> decide

/-! ### The minutes -/

/-- No rounding moves a count of whole minutes within a day. -/
theorem wholeMinutes_eq (hrnd : NearestDouble R.rnd) {delta : ℤ} (h : 0 ≤ delta)
    (h' : delta ≤ microsPerDay) : wholeMinutes R delta = delta / 60000000 := by
  obtain ⟨n, rfl⟩ := Int.eq_ofNat_of_zero_le h
  unfold microsPerDay at h'
  unfold wholeMinutes
  have hfloor := hrnd.floor_rnd_rnd (n := n) (a := 1000000) (b := 60) (by decide) (by decide)
    (by decide) (by decide) (by omega)
  push_cast at hfloor ⊢
  rw [hfloor]

/-- Between the open and the close, both included, there are minutes, and elsewhere there are none. -/
theorem sessionMinutes_eq (hrnd : NearestDouble R.rnd) {delta : ℤ}
    (hdelta : config.openTime.seconds * 1000000 ≤ localDt.time →
      localDt.time ≤ config.closeTime.seconds * 1000000 → 0 ≤ delta ∧ delta ≤ microsPerDay) :
    sessionMinutes R localDt config delta =
      if config.openTime.seconds * 1000000 ≤ localDt.time ∧
        localDt.time ≤ config.closeTime.seconds * 1000000 then some (delta / 60000000)
      else none := by
  unfold sessionMinutes
  have hout : (localDt.micros < (localDt.replace config.openTime).micros ∨
      localDt.micros > (localDt.replace config.closeTime).micros) ↔
      ¬ (config.openTime.seconds * 1000000 ≤ localDt.time ∧
        localDt.time ≤ config.closeTime.seconds * 1000000) := by
    rw [localDt.micros_eq, LocalDatetime.replace_micros, LocalDatetime.replace_micros]
    omega
  dsimp only
  by_cases hin : config.openTime.seconds * 1000000 ≤ localDt.time ∧
      localDt.time ≤ config.closeTime.seconds * 1000000
  · obtain ⟨hnonneg, hle⟩ := hdelta hin.1 hin.2
    rw [if_neg (fun h => hout.mp h hin), if_pos hin, wholeMinutes_eq hrnd hnonneg hle,
      if_neg (by omega)]
  · rw [if_pos (hout.mpr hin), if_neg hin]

theorem computeMinutesSinceOpen_eq (hrnd : NearestDouble R.rnd) :
    computeMinutesSinceOpen R localDt config =
      if config.openTime.seconds * 1000000 ≤ localDt.time ∧
        localDt.time ≤ config.closeTime.seconds * 1000000 then
        some ((localDt.time - config.openTime.seconds * 1000000) / 60000000)
      else none := by
  have hdelta : localDt.micros - (localDt.replace config.openTime).micros =
      localDt.time - config.openTime.seconds * 1000000 := by
    rw [localDt.micros_eq, LocalDatetime.replace_micros]
    omega
  unfold computeMinutesSinceOpen
  rw [hdelta]
  apply sessionMinutes_eq hrnd
  intro hopen _
  have := localDt.time_lt
  have := config.openTime.seconds_nonneg
  omega

theorem computeMinutesUntilClose_eq (hrnd : NearestDouble R.rnd) :
    computeMinutesUntilClose R localDt config =
      if config.openTime.seconds * 1000000 ≤ localDt.time ∧
        localDt.time ≤ config.closeTime.seconds * 1000000 then
        some ((config.closeTime.seconds * 1000000 - localDt.time) / 60000000)
      else none := by
  have hdelta : (localDt.replace config.closeTime).micros - localDt.micros =
      config.closeTime.seconds * 1000000 - localDt.time := by
    rw [localDt.micros_eq, LocalDatetime.replace_micros]
    omega
  unfold computeMinutesUntilClose
  rw [hdelta]
  apply sessionMinutes_eq hrnd
  intro _ hclose
  have := localDt.time_nonneg
  have := config.closeTime.seconds_lt
  unfold microsPerDay
  omega

/-! ### Both together -/

/-- Two parts of the session, in whole minutes, miss at most one of its own. -/
theorem minutes_sum (t : ℤ) (config : SessionConfig) :
    |(t - config.openTime.seconds * 1000000) / 60000000 +
      (config.closeTime.seconds * 1000000 - t) / 60000000 - sessionLength config| ≤ 1 := by
  have := config.openTime.microsecond_lt
  have := config.closeTime.microsecond_lt
  unfold sessionLength TimeOfDay.micros
  rw [abs_le]
  omega

/-- Of one local time: phase and minutes agree but for the second that begins at the close. -/
theorem agree_iff (hrnd : NearestDouble R.rnd) (hopen : OpensBeforeClose config)
    {label : SessionLabel} (hphase : label.sessionPhase = classifySessionPhase localDt config)
    (hsince : label.minutesSinceOpen = computeMinutesSinceOpen R localDt config)
    (huntil : label.minutesUntilClose = computeMinutesUntilClose R localDt config) :
    PhaseMinutesAgree config label ↔ ¬ InClosingSecond config localDt := by
  have hseconds := hopen.seconds_le
  rw [computeMinutesSinceOpen_eq hrnd] at hsince
  rw [computeMinutesUntilClose_eq hrnd] at huntil
  by_cases hin : config.openTime.seconds * 1000000 ≤ localDt.time ∧
      localDt.time ≤ config.closeTime.seconds * 1000000
  · rw [if_pos hin] at hsince huntil
    have hphase' : ¬ label.sessionPhase.outOfSession := by
      rw [hphase, outOfSession_iff]
      omega
    have hclosing : ¬ InClosingSecond config localDt := by
      unfold InClosingSecond
      omega
    refine iff_of_true ⟨?_, fun _ => ?_⟩ hclosing
    · simp [hsince, hphase']
    · exact ⟨_, _, hsince, huntil, by omega, by omega, minutes_sum _ _⟩
  · rw [if_neg hin] at hsince huntil
    have hnone : PhaseMinutesAgree config label ↔ label.sessionPhase.outOfSession := by
      refine ⟨fun h => h.none_iff.mp ⟨hsince, huntil⟩, fun h => ⟨?_, fun hno => absurd h hno⟩⟩
      simp [hsince, huntil, h]
    rw [hnone, hphase, outOfSession_iff]
    unfold InClosingSecond
    omega

/-- The label of a timestamp is consistent exactly when its local time is not in the second that
begins at the close, after the first instant of it. -/
theorem classifySession_agrees_iff (hrnd : NearestDouble R.rnd) (hopen : OpensBeforeClose config)
    (timestampMs : PyVal) (symbol timeframe : Option String) :
    (∀ label, classifySession R timestampMs config symbol timeframe = .label label →
      PhaseMinutesAgree config label) ↔
    ∀ localDt, toLocalDatetime R timestampMs config = .ok (some localDt) →
      ¬ InClosingSecond config localDt := by
  unfold classifySession
  cases hlocal : toLocalDatetime R timestampMs config with
  | error e => simp
  | ok localDt =>
      cases localDt with
      | none => simp
      | some localDt =>
          simp only [Classification.label.injEq, forall_eq', Except.ok.injEq, Option.some.injEq]
          exact agree_iff hrnd hopen rfl rfl rfl

end

/-! ### Half a second after the close -/

/-- Indian time, and numbers that are doubles as they are. -/
def sampleRuntime : Runtime where
  rnd q := q
  repr _ := ""
  utcOffset _ := 19800000000

theorem sampleRuntime_rnd : NearestDouble sampleRuntime.rnd where
  natCast _ _ := rfl
  relative q hq _ := by
    have hq₀ : 0 ≤ q := le_trans (by positivity) hq
    have hpart : 0 ≤ q / 2 ^ 53 := div_nonneg hq₀ (by positivity)
    simpa [sampleRuntime] using hpart

theorem defaultSessionConfig_opens : OpensBeforeClose defaultSessionConfig := by
  unfold OpensBeforeClose
  decide

/-- At the open. -/
theorem classifySession_agrees_iff_open : ∃ label,
    classifySession sampleRuntime (.int 13500000) defaultSessionConfig none none = .label label ∧
      PhaseMinutesAgree defaultSessionConfig label := by
  have hopen : toLocalDatetime sampleRuntime (.int 13500000) defaultSessionConfig =
      .ok (some ⟨33300000000⟩) := by decide +kernel
  have hlabel : classifySession sampleRuntime (.int 13500000) defaultSessionConfig none none =
      .label ⟨.opening, some 0, some 375, ⟨true, 0⟩, .unfavorable, none, none⟩ := by decide +kernel
  refine ⟨_, hlabel, (classifySession_agrees_iff sampleRuntime_rnd defaultSessionConfig_opens _ _
    _).mpr ?_ _ hlabel⟩
  intro localDt hlocal
  obtain rfl := Option.some.inj (Except.ok.inj (hlocal.symm.trans hopen))
  unfold InClosingSecond
  decide

/-- At 15:30:00.5 the phase is `closing`, and there are no minutes. -/
theorem closing_second_has_no_minutes : ∃ label,
    classifySession sampleRuntime (.int 36000500) defaultSessionConfig none none = .label label ∧
      label.sessionPhase = .closing ∧ label.minutesSinceOpen = none ∧
      label.minutesUntilClose = none ∧ ¬ PhaseMinutesAgree defaultSessionConfig label := by
  have hlabel : classifySession sampleRuntime (.int 36000500) defaultSessionConfig none none =
      .label ⟨.closing, none, none, ⟨true, 0⟩, .unfavorable, none, none⟩ := by decide +kernel
  refine ⟨_, hlabel, rfl, rfl, rfl, fun h => ?_⟩
  rcases h.none_iff.mp ⟨rfl, rfl⟩ with hphase | hphase <;> cases hphase

end AiTrader.MarketSession
