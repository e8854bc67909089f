import AiTrader.Library.Transition
import AiTrader.MarketData.Aggregator
import AiTrader.MarketData.Feed
import Mathlib.Data.List.DropRight

/-! # Two candle builders

The candle engine and the live candle server read the same ticks.  They differ in three ways.

* Volume: the engine adds what was traded since the last tick, the server adds the day's volume
  again with every tick.
* A tick older than the open bucket: the engine drops it; the server completes the open candle
  and goes back to the older bucket.
* A price that is not a number: the engine's extremes ignore it, the server's are stuck with it
  when it opens the bucket.

`SamePrices` and `SameVolumes` say how the two open candles compare as long as the completed ones
agree; `InStep` is the tick after which they still do, and `agree_concat` says so. -/

namespace AiTrader.MarketData

open AlphaTerminal (cumulativeVolume openCandle updateCandle)
open Aggregator (CandleAccumulator openAccumulator)
open Keyed (run_single_eq_none)
open Transition

/-! ### The tick that keeps the two in step -/

/-- The ticks since the window `w` was entered. -/
def bucketTicks (W : ℕ+) (w : ℕ) (seen : List Tick) : List Tick :=
  seen.rtakeWhile fun tick => decide (tick.windowStart W = w)

/-- The first price is a number, or none is. -/
def OpensWithNumber (bucket : List Tick) : Prop :=
  bucket.head?.map Tick.lastTradedPrice = some .nan → ∀ tick ∈ bucket, tick.lastTradedPrice = .nan

/-- A tick is not of an older window than the one before it; and when it opens a window, no tick
but the one before it has had volume, and the window that closes opened with a number. -/
def InStep (W : ℕ+) (seen : List Tick) (tick : Tick) : Prop :=
  ∀ last, seen.getLast? = some last →
    last.windowStart W ≤ tick.windowStart W ∧
      (last.windowStart W < tick.windowStart W →
        (∀ t ∈ seen.dropLast, t.volume.toInt = 0) ∧
          OpensWithNumber (bucketTicks W (last.windowStart W) seen))

section
variable {W : ℕ+} {w : ℕ} {seen : List Tick} {tick : Tick}

theorem bucketTicks_same (h : tick.windowStart W = w) :
    bucketTicks W w (seen ++ [tick]) = bucketTicks W w seen ++ [tick] := by
  rw [bucketTicks, List.rtakeWhile_concat_pos _ _ _ (by simpa using h)]
  rfl

theorem bucketTicks_new {last : Tick} (hlast : seen.getLast? = some last)
    (h : last.windowStart W ≠ tick.windowStart W) :
    bucketTicks W (tick.windowStart W) (seen ++ [tick]) = [tick] := by
  rw [bucketTicks_same rfl]
  obtain ⟨before, rfl⟩ := List.getLast?_eq_some_iff.mp hlast
  rw [bucketTicks, List.rtakeWhile_concat_neg _ _ _ (by simpa using h)]
  rfl

/-! ### Prices -/

/-- The prices of the two open candles, after the same ticks of one window. -/
structure SamePrices (candle : OhlcCandle) (acc : CandleAccumulator) (bucket : List Tick) :
    Prop where
  open_eq : candle.open = acc.open
  close_eq : candle.close = acc.close
  first : bucket.head?.map Tick.lastTradedPrice = some acc.open
  number : acc.open ≠ .nan →
    candle.high = acc.high ∧ candle.low = acc.low ∧ acc.high ≠ .nan ∧ acc.low ≠ .nan
  noNumber : acc.open = .nan →
    acc.high = .nan ∧ acc.low = .nan ∧
      (candle.high = .nan ↔ ∀ tick ∈ bucket, tick.lastTradedPrice = .nan) ∧
      (candle.low = .nan ↔ ∀ tick ∈ bucket, tick.lastTradedPrice = .nan)

theorem samePrices_open (W : ℕ+) (tick : Tick) (volume : ℕ) :
    SamePrices (openCandle W tick volume) (openAccumulator W tick) [tick] where
  open_eq := rfl
  close_eq := rfl
  first := rfl
  number h := ⟨rfl, rfl, h, h⟩
  noNumber h := ⟨h, h, by simp [openCandle], by simp [openCandle]⟩

variable {candle : OhlcCandle} {acc : CandleAccumulator} {bucket : List Tick}

theorem SamePrices.update (h : SamePrices candle acc bucket) (volumeDelta volume : ℕ) :
    SamePrices (updateCandle candle tick volumeDelta) (acc.update tick.lastTradedPrice volume)
      (bucket ++ [tick]) where
  open_eq := h.open_eq
  close_eq := rfl
  first := by
    have hfirst := h.first
    cases bucket with
    | nil => cases hfirst
    | cons t bucket => exact hfirst
  number hopen := by
    obtain ⟨hhigh, hlow, hhighNum, hlowNum⟩ := h.number hopen
    simp only [updateCandle, CandleAccumulator.update, hhigh, hlow, F64.fmax_of_ne_nan hhighNum,
      F64.fmin_of_ne_nan hlowNum, true_and]
    constructor
    · split
      · rename_i hlt
        intro hnan
        rw [hnan, F64.lt_nan] at hlt
        cases hlt
      · exact hhighNum
    · split
      · rename_i hlt
        intro hnan
        rw [hnan, F64.nan_lt] at hlt
        cases hlt
      · exact hlowNum
  noNumber hopen := by
    obtain ⟨hhigh, hlow, hhighIff, hlowIff⟩ := h.noNumber hopen
    refine ⟨?_, ?_, ?_, ?_⟩
    · simp [CandleAccumulator.update, hhigh, F64.nan_lt]
    · simp [CandleAccumulator.update, hlow, F64.lt_nan]
    · rw [List.forall_mem_append, List.forall_mem_singleton, ← hhighIff, updateCandle,
        F64.fmax_eq_nan]
    · rw [List.forall_mem_append, List.forall_mem_singleton, ← hlowIff, updateCandle,
        F64.fmin_eq_nan]

theorem SamePrices.extremes_iff (h : SamePrices candle acc bucket) :
    (candle.high = acc.high ∧ candle.low = acc.low) ↔ OpensWithNumber bucket := by
  rw [OpensWithNumber, h.first, Option.some_inj]
  by_cases hopen : acc.open = .nan
  · obtain ⟨hhigh, hlow, hhighIff, hlowIff⟩ := h.noNumber hopen
    rw [hhigh, hlow, hhighIff, hlowIff]
    simp [hopen]
  · obtain ⟨hhigh, hlow, -, -⟩ := h.number hopen
    simp [hopen, hhigh, hlow]

/-! ### Volumes -/

/-- The volumes of the two open candles after the ticks `seen` of their symbol. -/
structure SameVolumes (state : AlphaTerminal.SymbolState) (acc : CandleAccumulator)
    (seen : List Tick) : Prop where
  prev : state.prevCumulativeVolume = lastVolume seen
  candle_le : state.activeCandle.volume ≤ state.prevCumulativeVolume
  le_acc : state.prevCumulativeVolume ≤ acc.volume
  zero : state.prevCumulativeVolume = 0 → acc.volume = 0
  agree_iff : state.activeCandle.volume = acc.volume ↔ ∀ tick ∈ seen.dropLast, tick.volume.toInt = 0

theorem openAccumulator_volume (h : 0 ≤ tick.volume.toInt) :
    (openAccumulator W tick).volume = cumulativeVolume tick := asU64_volume h

theorem sameVolumes_first (h : 0 ≤ tick.volume.toInt) :
    SameVolumes (.first W tick) (openAccumulator W tick) [tick] where
  prev := rfl
  candle_le := Nat.le_refl _
  le_acc := Nat.le_of_eq (openAccumulator_volume h).symm
  zero hzero := (openAccumulator_volume h).trans hzero
  agree_iff := by
    rw [openAccumulator_volume h]
    simp [AlphaTerminal.SymbolState.first, openCandle]

variable {state : AlphaTerminal.SymbolState}

theorem SameVolumes.update (h : SameVolumes state acc seen)
    (hfeed : CumulativeVolumes (seen ++ [tick])) :
    SameVolumes
      ⟨updateCandle state.activeCandle tick (cumulativeVolume tick - state.prevCumulativeVolume),
        cumulativeVolume tick⟩
      (acc.update tick.lastTradedPrice (asU64 tick.volume.toInt)) (seen ++ [tick]) := by
  have hle : state.prevCumulativeVolume ≤ cumulativeVolume tick := by
    rw [h.prev]
    exact lastVolume_le.trans hfeed.last
  have hzero := (hfeed.restrict (List.prefix_append _ _)).lastVolume_eq_zero
  obtain ⟨hprev, hcandle, hacc, hnone, -⟩ := h
  rw [← hprev] at hzero
  rw [asU64_volume (hfeed.nonneg tick List.mem_concat_self)]
  refine ⟨lastVolume_concat.symm, ?_, ?_, ?_, ?_⟩
  · simp only [updateCandle]
    omega
  · simp only [CandleAccumulator.update]
    omega
  · simp only [CandleAccumulator.update]
    omega
  · rw [List.dropLast_concat, ← hzero]
    simp only [updateCandle, CandleAccumulator.update]
    omega

theorem SameVolumes.reopen (h : SameVolumes state acc seen)
    (hfeed : CumulativeVolumes (seen ++ [tick])) :
    SameVolumes
      ⟨openCandle W tick (cumulativeVolume tick - state.prevCumulativeVolume),
        cumulativeVolume tick⟩
      (openAccumulator W tick) (seen ++ [tick]) := by
  have hle : state.prevCumulativeVolume ≤ cumulativeVolume tick := by
    rw [h.prev]
    exact lastVolume_le.trans hfeed.last
  have hzero := (hfeed.restrict (List.prefix_append _ _)).lastVolume_eq_zero
  rw [← h.prev] at hzero
  have hvolume : (openAccumulator W tick).volume = cumulativeVolume tick :=
    openAccumulator_volume (hfeed.nonneg tick List.mem_concat_self)
  refine ⟨lastVolume_concat.symm, ?_, ?_, ?_, ?_⟩
  · simp only [openCandle]
    omega
  · exact Nat.le_of_eq hvolume.symm
  · exact fun hnone => hvolume.trans hnone
  · rw [List.dropLast_concat, ← hzero, hvolume]
    simp only [openCandle]
    omega

/-! ### Open candles that match -/

/-- Both have the window of the last tick open, and candles of the same ticks. -/
structure Matched (W : ℕ+) (seen : List Tick) (state : AlphaTerminal.SymbolState)
    (acc : CandleAccumulator) : Prop where
  start : acc.bucketStartMs = state.activeCandle.startTimestampMs
  last : ∃ last, seen.getLast? = some last ∧ last.windowStart W = acc.bucketStartMs
  symbol : state.activeCandle.symbol = acc.symbol
  prices : SamePrices state.activeCandle acc (bucketTicks W acc.bucketStartMs seen)
  volumes : SameVolumes state acc seen

theorem Matched.toJson_iff (h : Matched W seen state acc) :
    state.activeCandle.toJson = acc.toJson ↔
      (∀ tick ∈ seen.dropLast, tick.volume.toInt = 0) ∧
        OpensWithNumber (bucketTicks W acc.bucketStartMs seen) := by
  rw [← h.volumes.agree_iff, ← h.prices.extremes_iff]
  simp only [OhlcCandle.toJson, CandleAccumulator.toJson, CandleJson.mk.injEq, h.symbol, h.start,
    h.prices.open_eq, h.prices.close_eq, true_and]
  tauto

theorem Matched.inStep_iff (h : Matched W seen state acc) :
    InStep W seen tick ↔
      acc.bucketStartMs ≤ tick.windowStart W ∧
        (acc.bucketStartMs < tick.windowStart W →
          state.activeCandle.toJson = acc.toJson) := by
  obtain ⟨last, hlast, hstart⟩ := h.last
  rw [h.toJson_iff]
  simp [InStep, hlast, ← hstart]

theorem matched_first (h : 0 ≤ tick.volume.toInt) :
    Matched W [tick] (.first W tick) (openAccumulator W tick) where
  start := rfl
  last := ⟨tick, rfl, rfl⟩
  symbol := rfl
  prices := by
    rw [Aggregator.openAccumulator_bucket, ← List.nil_append [tick], bucketTicks_same rfl]
    exact samePrices_open W tick _
  volumes := sameVolumes_first h

theorem Matched.update (h : Matched W seen state acc)
    (hfeed : CumulativeVolumes (seen ++ [tick])) (hsame : tick.windowStart W = acc.bucketStartMs) :
    Matched W (seen ++ [tick])
      ⟨updateCandle state.activeCandle tick (cumulativeVolume tick - state.prevCumulativeVolume),
        cumulativeVolume tick⟩
      (acc.update tick.lastTradedPrice (asU64 tick.volume.toInt)) where
  start := h.start
  last := ⟨tick, List.getLast?_concat, hsame⟩
  symbol := h.symbol
  prices := by
    rw [show (acc.update tick.lastTradedPrice (asU64 tick.volume.toInt)).bucketStartMs =
      acc.bucketStartMs from rfl, bucketTicks_same hsame]
    exact h.prices.update _ _
  volumes := h.volumes.update hfeed

theorem Matched.reopen (h : Matched W seen state acc)
    (hfeed : CumulativeVolumes (seen ++ [tick])) (hnew : acc.bucketStartMs ≠ tick.windowStart W) :
    Matched W (seen ++ [tick])
      ⟨openCandle W tick (cumulativeVolume tick - state.prevCumulativeVolume),
        cumulativeVolume tick⟩
      (openAccumulator W tick) where
  start := rfl
  last := ⟨tick, List.getLast?_concat, rfl⟩
  symbol := rfl
  prices := by
    obtain ⟨last, hlast, hstart⟩ := h.last
    rw [Aggregator.openAccumulator_bucket, bucketTicks_new hlast (hstart.trans_ne hnew)]
    exact samePrices_open W tick _
  volumes := h.volumes.reopen hfeed

end

/-! ### Runs -/

/-- What the engine has emitted for one symbol, as it is sent. -/
def symbolEmitted (W : ℕ+) (ticks : List Tick) : List CandleJson :=
  (AlphaTerminal.symbolRun W ticks).2.map OhlcCandle.toJson

/-- The two after the same ticks of a symbol.  The server is never ahead of the engine in time,
nor behind it in candles; and as long as the candles agree, the open ones match. -/
def Tracked (W : ℕ+) (seen : List Tick) :
    Option AlphaTerminal.SymbolState → Option CandleAccumulator → Prop
  | none, none => seen = []
  | some state, some acc =>
      acc.bucketStartMs ≤ state.activeCandle.startTimestampMs ∧
        (symbolEmitted W seen).length ≤ (Aggregator.symbolCompleted W seen).length ∧
        (Aggregator.symbolCompleted W seen = symbolEmitted W seen → Matched W seen state acc)
  | _, _ => False

section
variable {W : ℕ+} {seen : List Tick} {tick : Tick}

theorem symbolEmitted_concat :
    symbolEmitted W (seen ++ [tick]) = symbolEmitted W seen ++
      (AlphaTerminal.symbolStep W (AlphaTerminal.symbolRun W seen).1 tick).2.map
        OhlcCandle.toJson := by
  rw [symbolEmitted, AlphaTerminal.symbolRun_concat, List.map_append]
  rfl

/-- A tick of the server's open bucket: neither closes a candle. -/
theorem agree_same {state : AlphaTerminal.SymbolState} {acc : CandleAccumulator}
    (hfeed : CumulativeVolumes (seen ++ [tick]))
    (hengine : (AlphaTerminal.symbolRun W seen).1 = some state)
    (hserver : (Aggregator.symbolRun W seen).1 = some acc)
    (h : Tracked W seen (some state) (some acc)) (hsame : acc.bucketStartMs = tick.windowStart W) :
    Tracked W (seen ++ [tick]) (AlphaTerminal.symbolRun W (seen ++ [tick])).1
        (Aggregator.symbolRun W (seen ++ [tick])).1 ∧
      (Aggregator.symbolCompleted W (seen ++ [tick]) = symbolEmitted W (seen ++ [tick]) ↔
        Aggregator.symbolCompleted W seen = symbolEmitted W seen ∧ InStep W seen tick) := by
  obtain ⟨hbehind, hlength, hmatched⟩ := h
  obtain ⟨hout, hstart⟩ := AlphaTerminal.next_not_newer (hsame ▸ hbehind)
  have hemit : symbolEmitted W (seen ++ [tick]) = symbolEmitted W seen := by
    rw [symbolEmitted_concat, hengine, AlphaTerminal.symbolStep, hout]
    exact List.append_nil _
  have hcomp : Aggregator.symbolCompleted W (seen ++ [tick]) =
      Aggregator.symbolCompleted W seen := by
    rw [Aggregator.symbolRun_concat.2, hserver, Aggregator.symbolStep_same hsame]
    exact List.append_nil _
  rw [Aggregator.symbolRun_concat.1, AlphaTerminal.symbolRun_concat, hengine, hserver,
    Aggregator.symbolStep_same hsame, AlphaTerminal.symbolStep, Tracked, hemit, hcomp]
  refine ⟨⟨hstart.symm ▸ hbehind, hlength, fun hagree => ?_⟩, fun hagree => ⟨hagree, ?_⟩,
    fun h => h.1⟩
  · have hmatch := hmatched hagree
    rw [AlphaTerminal.next_same (hsame.symm.trans hmatch.start)]
    exact hmatch.update hfeed hsame.symm
  · rw [(hmatched hagree).inStep_iff]
    exact ⟨Nat.le_of_eq hsame, fun hlt => absurd hsame (Nat.ne_of_lt hlt)⟩

/-- A tick of another bucket: the server closes its candle, and the engine only if the bucket is
newer. -/
theorem agree_other {state : AlphaTerminal.SymbolState} {acc : CandleAccumulator}
    (hfeed : CumulativeVolumes (seen ++ [tick]))
    (hengine : (AlphaTerminal.symbolRun W seen).1 = some state)
    (hserver : (Aggregator.symbolRun W seen).1 = some acc)
    (h : Tracked W seen (some state) (some acc)) (hother : acc.bucketStartMs ≠ tick.windowStart W) :
    Tracked W (seen ++ [tick]) (AlphaTerminal.symbolRun W (seen ++ [tick])).1
        (Aggregator.symbolRun W (seen ++ [tick])).1 ∧
      (Aggregator.symbolCompleted W (seen ++ [tick]) = symbolEmitted W (seen ++ [tick]) ↔
        Aggregator.symbolCompleted W seen = symbolEmitted W seen ∧ InStep W seen tick) := by
  obtain ⟨hbehind, hlength, hmatched⟩ := h
  have hcomp : Aggregator.symbolCompleted W (seen ++ [tick]) =
      Aggregator.symbolCompleted W seen ++ [acc.toJson] := by
    rw [Aggregator.symbolRun_concat.2, hserver, Aggregator.symbolStep_other hother]
    rfl
  rw [Aggregator.symbolRun_concat.1, AlphaTerminal.symbolRun_concat, hengine, hserver,
    Aggregator.symbolStep_other hother, AlphaTerminal.symbolStep, Tracked, hcomp,
    Aggregator.openAccumulator_bucket]
  rcases Nat.lt_or_ge state.activeCandle.startTimestampMs (tick.windowStart W) with hnewer | hlate
  · have hemit : symbolEmitted W (seen ++ [tick]) =
        symbolEmitted W seen ++ [state.activeCandle.toJson] := by
      rw [symbolEmitted_concat, hengine, AlphaTerminal.symbolStep, AlphaTerminal.next_newer hnewer]
      rfl
    have hclose : Aggregator.symbolCompleted W seen ++ [acc.toJson] =
          symbolEmitted W seen ++ [state.activeCandle.toJson] ↔
        Aggregator.symbolCompleted W seen = symbolEmitted W seen ∧
          state.activeCandle.toJson = acc.toJson := by
      rw [List.append_singleton_inj, eq_comm (a := acc.toJson)]
    rw [hemit, AlphaTerminal.next_newer hnewer, List.length_append, List.length_append, hclose]
    refine ⟨⟨Nat.le_refl _, Nat.add_le_add_right hlength _, fun hagree => ?_⟩,
      and_congr_right fun hagree => ?_⟩
    · exact (hmatched hagree.1).reopen hfeed hother
    · rw [(hmatched hagree).inStep_iff]
      exact ⟨fun h => ⟨hbehind.trans hnewer.le, fun _ => h⟩,
        fun h => h.2 (Nat.lt_of_le_of_lt hbehind hnewer)⟩
  · obtain ⟨hout, hstart⟩ := AlphaTerminal.next_not_newer hlate
    have hemit : symbolEmitted W (seen ++ [tick]) = symbolEmitted W seen := by
      rw [symbolEmitted_concat, hengine, AlphaTerminal.symbolStep, hout]
      exact List.append_nil _
    -- the server is one candle ahead from here on
    have hne : Aggregator.symbolCompleted W seen ++ [acc.toJson] ≠ symbolEmitted W seen := by
      intro hagree
      have hlen := congrArg List.length hagree
      rw [List.length_append, List.length_singleton] at hlen
      omega
    rw [hemit, hstart, List.length_append]
    refine ⟨⟨hlate, by omega, fun hagree => absurd hagree hne⟩, fun hagree => absurd hagree hne, ?_⟩
    rintro ⟨hagree, hstep⟩
    have hmatch := hmatched hagree
    have hle := (hmatch.inStep_iff.mp hstep).1
    have hstart := hmatch.start
    omega

/-- **One tick.** The candles still agree exactly when they did and the tick is in step. -/
theorem agree_concat (hfeed : CumulativeVolumes (seen ++ [tick]))
    (h : Tracked W seen (AlphaTerminal.symbolRun W seen).1 (Aggregator.symbolRun W seen).1) :
    Tracked W (seen ++ [tick]) (AlphaTerminal.symbolRun W (seen ++ [tick])).1
        (Aggregator.symbolRun W (seen ++ [tick])).1 ∧
      (Aggregator.symbolCompleted W (seen ++ [tick]) = symbolEmitted W (seen ++ [tick]) ↔
        Aggregator.symbolCompleted W seen = symbolEmitted W seen ∧ InStep W seen tick) := by
  cases hengine : (AlphaTerminal.symbolRun W seen).1 with
  | none =>
      obtain rfl := run_single_eq_none.mp hengine
      have hfirst := hfeed.nonneg tick List.mem_concat_self
      refine ⟨⟨Nat.le_refl _, Nat.le_refl _, fun _ => matched_first hfirst⟩,
        fun _ => ⟨rfl, fun last hlast => ?_⟩, fun _ => rfl⟩
      cases hlast
  | some state =>
      cases hserver : (Aggregator.symbolRun W seen).1 with
      | none =>
          rw [hengine, hserver] at h
          exact h.elim
      | some acc =>
          rw [hengine, hserver] at h
          by_cases hsame : acc.bucketStartMs = tick.windowStart W
          · exact agree_same hfeed hengine hserver h hsame
          · exact agree_other hfeed hengine hserver h hsame

theorem tracked {ticks : List Tick} (hfeed : CumulativeVolumes ticks) :
    Tracked W ticks (AlphaTerminal.symbolRun W ticks).1 (Aggregator.symbolRun W ticks).1 := by
  induction ticks using List.reverseRecOn with
  | nil => rfl
  | append_singleton ticks tick ih =>
      exact (agree_concat hfeed (ih (hfeed.restrict (List.prefix_append _ _)))).1

/-- The candles that the engine emits for one symbol have increasing starts, all before the start
of the open candle. -/
theorem emitted_ordered (W : ℕ+) (ticks : List Tick) :
    ((AlphaTerminal.symbolRun W ticks).2.map OhlcCandle.startTimestampMs).Pairwise (· < ·) ∧
      ∀ state, (AlphaTerminal.symbolRun W ticks).1 = some state →
        ∀ candle ∈ (AlphaTerminal.symbolRun W ticks).2,
          candle.startTimestampMs < state.activeCandle.startTimestampMs := by
  induction ticks using List.reverseRecOn with
  | nil => exact ⟨List.Pairwise.nil, fun state h => by cases h⟩
  | append_singleton ticks tick ih =>
      obtain ⟨hsorted, hbefore⟩ := ih
      rw [AlphaTerminal.symbolRun_concat]
      cases hrun : (AlphaTerminal.symbolRun W ticks).1 with
      | none =>
          obtain rfl := run_single_eq_none.mp hrun
          exact ⟨List.Pairwise.nil, fun state _ candle hc => by cases hc⟩
      | some state =>
          have hbefore := hbefore state hrun
          rw [AlphaTerminal.symbolStep]
          rcases Nat.lt_or_ge state.activeCandle.startTimestampMs (tick.windowStart W) with
            hnewer | hlate
          · rw [AlphaTerminal.next_newer hnewer, Option.toList_some, List.map_append,
              List.pairwise_append]
            refine ⟨⟨hsorted, List.pairwise_singleton _ _, fun a ha b hb => ?_⟩,
              fun state' h candle hc => ?_⟩
            · obtain ⟨candle, hc, rfl⟩ := List.mem_map.mp ha
              rw [List.mem_singleton.mp hb]
              exact hbefore candle hc
            · cases h
              rcases List.mem_append.mp hc with hc | hc
              · exact (hbefore candle hc).trans hnewer
              · rw [List.mem_singleton.mp hc]
                exact hnewer
          · obtain ⟨hout, hstart⟩ := AlphaTerminal.next_not_newer hlate
            rw [hout, Option.toList_none, List.append_nil]
            refine ⟨hsorted, fun state' h candle hc => ?_⟩
            cases h
            rw [hstart]
            exact hbefore candle hc

/-- **Candles.** The server completes the candles that the engine emits, and each bucket once, in
order, exactly when every tick is in step. -/
theorem completed_agree_iff (W : ℕ+) (symbol : String) (events : List Aggregator.Event)
    (hfeed : CumulativeVolumes (ticksOf symbol (Aggregator.ticksIn events))) :
    (Aggregator.completed W symbol events =
          (AlphaTerminal.emitted W symbol (Aggregator.ticksIn events)).map OhlcCandle.toJson ∧
        ((Aggregator.completed W symbol events).map CandleJson.startTimestampMs).Pairwise
          (· < ·)) ↔
      ∀ seen tick, seen ++ [tick] <+: ticksOf symbol (Aggregator.ticksIn events) →
        InStep W seen tick := by
  have hagree := last_iff_forall (P := fun ticks =>
      Aggregator.symbolCompleted W ticks = symbolEmitted W ticks) (J := InStep W) rfl
    (fun seen tick h => (agree_concat (hfeed.restrict h)
      (tracked (hfeed.restrict ((List.prefix_append _ _).trans h)))).2)
  rw [← hagree, Aggregator.completed_eq, AlphaTerminal.emitted_eq, symbolEmitted]
  refine and_iff_left_of_imp fun h => ?_
  rw [h, List.map_map]
  exact (emitted_ordered W _).1

end

/-! ### A minute with two ticks, and one with a late tick -/

instance (ticks : List Tick) : Decidable (CumulativeVolumes ticks) :=
  decidable_of_iff ((∀ tick ∈ ticks, 0 ≤ tick.volume.toInt) ∧
      ticks.Pairwise fun a b => a.volume.toInt ≤ b.volume.toInt)
    ⟨fun h => ⟨h.1, h.2⟩, fun h => ⟨h.nonneg, h.monotone⟩⟩

/-- A tick of one symbol. -/
def infosys (timestampMs : Int64) (volume : Int32) : Tick :=
  { symbol := "INFY", timestampMs, lastTradedPrice := .fin 1500, volume }

/-- Two ticks of a minute, one of the next, and then one that is a second late. -/
def lateMinute : List Aggregator.Event :=
  [.tick (infosys 0 10), .tick (infosys 1000 25), .tick (infosys 60000 25),
    .tick (infosys 59000 25), .tick (infosys 61000 25)]

/-- In the first minute 25 are traded, and 35 are shown; and the late tick completes the second
minute at once, and the first one again. -/
theorem completed_twice :
    CumulativeVolumes (ticksOf "INFY" (Aggregator.ticksIn lateMinute)) ∧
      Aggregator.completed Aggregator.candleIntervalMs "INFY" lateMinute ≠
        (AlphaTerminal.emitted Aggregator.candleIntervalMs "INFY"
          (Aggregator.ticksIn lateMinute)).map OhlcCandle.toJson ∧
      (AlphaTerminal.emitted Aggregator.candleIntervalMs "INFY"
          (Aggregator.ticksIn lateMinute)).map
            (fun candle => (candle.startTimestampMs, candle.volume)) = [(0, 25)] ∧
      (Aggregator.completed Aggregator.candleIntervalMs "INFY" lateMinute).map
          (fun candle => (candle.startTimestampMs, candle.volume)) =
        [(0, 35), (60000, 25), (0, 25)] := by
  decide +kernel

/-- A minute whose only volume comes with its last tick. -/
theorem completed_agree_iff_quiet :
    InStep Aggregator.candleIntervalMs [infosys 0 0, infosys 1000 25] (infosys 60000 30) :=
  (completed_agree_iff Aggregator.candleIntervalMs "INFY"
    [.tick (infosys 0 0), .flush, .tick (infosys 1000 25), .tick (infosys 60000 30)]
    (by decide +kernel)).mp (by decide +kernel) _ _ (List.prefix_refl _)

end AiTrader.MarketData
