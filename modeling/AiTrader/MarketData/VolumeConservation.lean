import AiTrader.Ingestion.Parser
import AiTrader.Library.Transition
import AiTrader.MarketData.Feed
import AiTrader.MarketData.Technical
import Mathlib.Data.Rat.Cast.Defs

/-! # Traded volume

Both consumers of the ticks take the volume traded since the last tick to be the difference of two
cumulative volumes, and remember the cumulative volume of every tick for the next one.  A packet
without volume is remembered as `0`, so the next one with volume counts the whole day again; and
the candle engine remembers the volume of a late tick, but counts it in no candle.

* `Conserved`: what the candles of a symbol hold, and the denominator of its VWAP, is the largest
  cumulative volume seen.
* `Accounted`: the ticks after which it stays so.
* `conserved_concat`: one tick; `volume_conserved_iff`: a run. -/

namespace AiTrader.MarketData

open AlphaTerminal (cumulativeVolume)
open Transition

/-- The volumes of the emitted candles and the active candle of a symbol. -/
def candleVolume (W : ℕ+) (symbol : String) (ticks : List Tick) : ℕ :=
  ((AlphaTerminal.emitted W symbol ticks).map OhlcCandle.volume).sum +
    ((AlphaTerminal.active W symbol ticks).map OhlcCandle.volume).getD 0

/-- No traded volume is lost or counted twice. -/
def Conserved {R : Type*} (rsi : Technical.RsiIndicator R) (rnd : ℚ → F64) (symbol : String)
    (ticks : List Tick) : Prop :=
  candleVolume AlphaTerminal.windowMs symbol ticks = volumeSeen (ticksOf symbol ticks) ∧
    Technical.denominator rsi rnd symbol ticks = .fin (volumeSeen (ticksOf symbol ticks))

/-- After the ticks `seen` of a symbol: a tick with volume does not follow one without, unless
none had any before; and a late tick brings no new volume. -/
def Accounted (W : ℕ+) (seen : List Tick) (tick : Tick) : Prop :=
  (0 < cumulativeVolume tick → lastVolume seen = 0 → volumeSeen seen = 0) ∧
    (tick.windowStart W < newestWindow W seen → cumulativeVolume tick ≤ volumeSeen seen)

/-! ### One symbol of the candle engine -/

section
variable {W : ℕ+} {ticks : List Tick} {tick : Tick}

/-- The volume that the engine of one symbol has put into candles. -/
def symbolVolume (W : ℕ+) (ticks : List Tick) : ℕ :=
  ((AlphaTerminal.symbolRun W ticks).2.map OhlcCandle.volume).sum +
    ((AlphaTerminal.symbolRun W ticks).1.map fun state => state.activeCandle.volume).getD 0

/-- After the first tick there is a state: it remembers the volume of the last tick, and its
candle is the one of the newest window. -/
def Remembers (W : ℕ+) (ticks : List Tick) : Option AlphaTerminal.SymbolState → Prop
  | none => ticks = []
  | some state =>
      state.prevCumulativeVolume = lastVolume ticks ∧
        state.activeCandle.startTimestampMs = newestWindow W ticks

/-- **One tick in the engine.** Volume is counted unless the tick is late. -/
theorem engine_concat (h : Remembers W ticks (AlphaTerminal.symbolRun W ticks).1) :
    Remembers W (ticks ++ [tick]) (AlphaTerminal.symbolRun W (ticks ++ [tick])).1 ∧
      symbolVolume W (ticks ++ [tick]) =
        if tick.windowStart W < newestWindow W ticks then symbolVolume W ticks
        else symbolVolume W ticks + (cumulativeVolume tick - lastVolume ticks) := by
  simp only [symbolVolume, AlphaTerminal.symbolRun_concat]
  cases hrun : (AlphaTerminal.symbolRun W ticks).1 with
  | none =>
      rw [hrun, Remembers] at h
      subst h
      simp [AlphaTerminal.symbolStep, Remembers, AlphaTerminal.SymbolState.first,
        AlphaTerminal.openCandle, newestWindow, lastVolume, AlphaTerminal.symbolRun]
  | some state =>
      rw [hrun] at h
      obtain ⟨hprev, hstart⟩ := h
      rw [← hprev, ← hstart, AlphaTerminal.symbolStep]
      rcases lt_trichotomy (tick.windowStart W) state.activeCandle.startTimestampMs with
        hlate | hsame | hnewer
      · rw [AlphaTerminal.next_late hlate, if_pos hlate]
        simp [Remembers, ← hstart, Nat.le_of_lt hlate]
      · rw [AlphaTerminal.next_same hsame, if_neg (by omega)]
        simp [Remembers, AlphaTerminal.updateCandle, ← hstart, hsame, Nat.add_assoc]
      · rw [AlphaTerminal.next_newer hnewer, if_neg (by omega)]
        simp [Remembers, AlphaTerminal.openCandle, ← hstart, Nat.le_of_lt hnewer]

theorem remembers (W : ℕ+) (ticks : List Tick) :
    Remembers W ticks (AlphaTerminal.symbolRun W ticks).1 := by
  induction ticks using List.reverseRecOn with
  | nil => rfl
  | append_singleton ticks tick ih => exact (engine_concat ih).1

theorem candleVolume_eq (symbol : String) :
    candleVolume W symbol ticks = symbolVolume W (ticksOf symbol ticks) := by
  rw [candleVolume, AlphaTerminal.emitted_eq, AlphaTerminal.active_eq, Option.map_map]
  rfl

end

/-! ### One symbol of the technical agent -/

section
variable {R : Type*} {rsi : Technical.RsiIndicator R} {rnd : ℚ → F64} {ticks : List Tick}
  {tick : Tick}

/-- The indicators of one symbol after its ticks. -/
def indicators (rsi : Technical.RsiIndicator R) (rnd : ℚ → F64) (ticks : List Tick) :
    Technical.SymbolState R :=
  (Technical.symbolRun rsi rnd ticks).1.getD (.new rsi)

theorem indicators_prev (rsi : Technical.RsiIndicator R) (rnd : ℚ → F64)
    (h : ∀ tick ∈ ticks, 0 ≤ tick.volume.toInt) :
    (indicators rsi rnd ticks).prevCumulativeVolume = lastVolume ticks := by
  rcases List.eq_nil_or_concat ticks with rfl | ⟨ticks, t, rfl⟩
  · rfl
  · rw [List.concat_eq_append] at h ⊢
    rw [indicators, Technical.symbolRun_concat, Option.getD_some, Technical.symbolStep_counters.1,
      lastVolume_concat, asU64_volume (h t List.mem_concat_self)]

/-- **One tick in the agent.** As long as the sum is a number that a double holds exactly. -/
theorem agent_concat (hrnd : ∀ n : ℕ, n ≤ 2 ^ 53 → rnd n = .fin n)
    (h : ∀ t ∈ ticks ++ [tick], 0 ≤ t.volume.toInt) {n : ℕ} (hn : n < 2 ^ 31)
    (hden : (indicators rsi rnd ticks).cumulativeVolume = .fin n) :
    (indicators rsi rnd (ticks ++ [tick])).cumulativeVolume =
      .fin (n + (cumulativeVolume tick - lastVolume ticks) : ℕ) := by
  have hlt := cumulativeVolume_lt tick
  have hprev := indicators_prev rsi rnd fun t ht => h t (List.mem_append_left _ ht)
  rw [indicators] at hprev hden
  rw [indicators, Technical.symbolRun_concat, Option.getD_some, Technical.symbolStep_counters.2,
    asU64_volume (h tick List.mem_concat_self), hprev, hden]
  split
  · rename_i hzero
    rw [hzero, Nat.add_zero]
  · rw [hrnd _ (by omega), F64.add_fin, ← Nat.cast_add, hrnd _ (by omega)]

end

/-! ### Both -/

section
variable {R : Type*} {rsi : Technical.RsiIndicator R} {rnd : ℚ → F64} {symbol : String}
  {ticks : List Tick} {tick : Tick}

theorem conserved_iff :
    Conserved rsi rnd symbol ticks ↔
      symbolVolume AlphaTerminal.windowMs (ticksOf symbol ticks) =
          volumeSeen (ticksOf symbol ticks) ∧
        (indicators rsi rnd (ticksOf symbol ticks)).cumulativeVolume =
          .fin (volumeSeen (ticksOf symbol ticks)) := by
  rw [Conserved, candleVolume_eq, Technical.denominator_eq]
  rfl

/-- **One tick.** Volume stays conserved exactly after a tick that is accounted for. -/
theorem conserved_concat (hrnd : ∀ n : ℕ, n ≤ 2 ^ 53 → rnd n = .fin n)
    (hfeed : CumulativeFeed (ticksOf symbol (ticks ++ [tick])))
    (h : Conserved rsi rnd symbol ticks) :
    Conserved rsi rnd symbol (ticks ++ [tick]) ↔
      (tick.symbol = symbol →
        Accounted AlphaTerminal.windowMs (ticksOf symbol ticks) tick) := by
  rw [conserved_iff] at h ⊢
  rw [ticksOf_concat] at hfeed ⊢
  by_cases hsym : tick.symbol = symbol
  · rw [if_pos hsym] at hfeed ⊢
    obtain ⟨hcandles, hden⟩ := h
    have hlast := hfeed.last
    have hprev := (hfeed.restrict (List.prefix_append _ _)).lastVolume
    rw [agent_concat hrnd hfeed.nonneg (volumeSeen_lt _) hden, (engine_concat (remembers _ _)).2,
      hcandles, volumeSeen_concat, F64.fin.injEq, Nat.cast_inj]
    simp only [hsym, forall_const, Accounted]
    split
    · omega
    · omega
  · rw [if_neg hsym]
    simp [h, hsym]

/-- **Traded volume.** The candles and the VWAP of a symbol account for the largest cumulative
volume seen after each tick, exactly when no tick with volume follows one without (once there was
volume) and no late tick brings new volume. -/
theorem volume_conserved_iff (rsi : Technical.RsiIndicator R) (rnd : ℚ → F64)
    (hrnd : ∀ n : ℕ, n ≤ 2 ^ 53 → rnd n = .fin n) (symbol : String) (ticks : List Tick)
    (hfeed : CumulativeFeed (ticksOf symbol ticks)) :
    (∀ seen, seen <+: ticks → Conserved rsi rnd symbol seen) ↔
      ∀ seen tick, seen ++ [tick] <+: ticks → tick.symbol = symbol →
        Accounted AlphaTerminal.windowMs (ticksOf symbol seen) tick :=
  forall_prefix_iff ⟨rfl, rfl⟩ fun _ _ hp h =>
    conserved_concat hrnd (hfeed.restrict (ticksOf_mono hp)) h

end

/-! ### A day with one packet without volume -/

/-- The calculator at a price that does not change. -/
def flatRsi : Technical.RsiIndicator Unit := ⟨(), fun _ _ => ((), .fin 50)⟩

/-- A price, 100.00, and nothing else. -/
def ltpPacket : List UInt8 := [0, 0, 0, 1, 0, 0, 39, 16]

/-- The same price, with the day's volume 100. -/
def quotePacket : List UInt8 :=
  ltpPacket ++ List.replicate 8 0 ++ [0, 0, 0, 100] ++ List.replicate 24 0

/-- The ticks of a few packets. -/
def parsePackets (packets : List (List UInt8)) : Except String (List Tick) :=
  packets.mapM fun packet => Ingestion.parseBinaryTick F64.fin 0 packet "RELIANCE"

instance {R : Type*} (rsi : Technical.RsiIndicator R) (rnd : ℚ → F64) (symbol : String)
    (ticks : List Tick) : Decidable (Conserved rsi rnd symbol ticks) :=
  inferInstanceAs (Decidable (_ ∧ _))

instance (W : ℕ+) (seen : List Tick) (tick : Tick) : Decidable (Accounted W seen tick) :=
  inferInstanceAs (Decidable (_ ∧ _))

instance (ticks : List Tick) : Decidable (CumulativeFeed ticks) :=
  decidable_of_iff ((∀ tick ∈ ticks, 0 ≤ tick.volume.toInt) ∧
      ticks.Pairwise fun a b => b.volume.toInt = 0 ∨ a.volume.toInt ≤ b.volume.toInt)
    ⟨fun h => ⟨h.1, h.2⟩, fun h => ⟨h.nonneg, h.monotone⟩⟩

/-- The second quote reports no new volume, and the day's volume is counted again. -/
theorem volume_counted_twice :
    ∃ ticks, parsePackets [quotePacket, ltpPacket, quotePacket] = .ok ticks ∧
      CumulativeFeed (ticksOf "RELIANCE" ticks) ∧
      ¬ Conserved flatRsi F64.fin "RELIANCE" ticks ∧
      volumeSeen (ticksOf "RELIANCE" ticks) = 100 ∧
      candleVolume AlphaTerminal.windowMs "RELIANCE" ticks = 200 ∧
      Technical.denominator flatRsi F64.fin "RELIANCE" ticks = .fin 200 := by
  refine ⟨(parsePackets [quotePacket, ltpPacket, quotePacket]).toOption.getD [], ?_⟩
  decide +kernel

/-- A tick at 100.00. -/
def reliance (timestampMs : Int64) (volume : Int32) : Tick :=
  { symbol := "RELIANCE", timestampMs, lastTradedPrice := .fin 100, volume }

/-- A day whose last packet is the one without volume. -/
theorem volume_conserved_iff_quotes :
    Conserved flatRsi F64.fin "RELIANCE" [reliance 0 40, reliance 1 70, reliance 2 0] := by
  refine (volume_conserved_iff flatRsi F64.fin (fun _ _ => rfl) "RELIANCE" _
    (by decide +kernel)).mpr (fun seen tick h _ => ?_) _ (List.prefix_refl _)
  rcases seen with _ | ⟨a, _ | ⟨b, _ | ⟨c, seen⟩⟩⟩
  · simp only [List.nil_append, List.cons_prefix_cons] at h
    rw [h.1]
    decide +kernel
  · simp only [List.cons_append, List.nil_append, List.cons_prefix_cons] at h
    rw [h.1, h.2.1]
    decide +kernel
  · simp only [List.cons_append, List.nil_append, List.cons_prefix_cons] at h
    rw [h.1, h.2.1, h.2.2.1]
    decide +kernel
  · simp [List.cons_prefix_cons] at h

end AiTrader.MarketData
