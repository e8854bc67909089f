import AiTrader.MarketData.Engine
import Mathlib.Data.List.Induction

/-! # Streamed candles and the batch fold

What the candle engine emits for a symbol, followed by the candle it has open, against a
definition that looks at the whole list of ticks: the accepted ones are those not older than the
newest window before them (`accepted`), and a window's candle is read off its accepted prices
(`WindowCandle`).  `Tracked` is the invariant: one lemma for each way a tick can come in, and
`tracked` for every list of ticks. -/

namespace AiTrader.AlphaTerminal

open MarketData

/-! ### The batch fold -/

/-- The start of the window of a tick, counted from the epoch. -/
def window (W : ℕ+) (tick : Tick) : ℕ := tick.timestampMs.toInt.toNat / W * W

/-- The accepted ticks of a list that comes after some earlier ticks. -/
def acceptedAfter (W : ℕ+) : List Tick → List Tick → List Tick
  | _, [] => []
  | earlier, tick :: rest =>
      if ∀ e ∈ earlier, window W e ≤ window W tick then
        tick :: acceptedAfter W (earlier ++ [tick]) rest
      else acceptedAfter W (earlier ++ [tick]) rest

/-- The ticks whose window is not before the newest window reached by the ticks before them. -/
def accepted (W : ℕ+) (ticks : List Tick) : List Tick := acceptedAfter W [] ticks

/-- The accepted prices of the window that starts at `w`, in order of arrival. -/
def windowPrices (W : ℕ+) (w : ℕ) (ticks : List Tick) : List F64 :=
  ((accepted W ticks).filter fun tick => decide (window W tick = w)).map Tick.lastTradedPrice

/-- The candle of a list of prices. -/
structure WindowCandle (W : ℕ+) (symbol : String) (prices : List F64) (candle : OhlcCandle) :
    Prop where
  symbol_eq : candle.symbol = symbol
  stop : candle.endTimestampMs = candle.startTimestampMs + W
  first : prices.head? = some candle.open
  last : prices.getLast? = some candle.close
  highest : F64.IsHighest candle.high prices
  lowest : F64.IsLowest candle.low prices

/-- The candles of a symbol's ticks: one for each window with an accepted tick, in increasing
order, each read off the accepted prices of its window. -/
structure Folded (W : ℕ+) (symbol : String) (ticks : List Tick) (candles : List OhlcCandle) :
    Prop where
  increasing : (candles.map OhlcCandle.startTimestampMs).Pairwise (· < ·)
  windows : ∀ w, w ∈ candles.map OhlcCandle.startTimestampMs ↔
    w ∈ (accepted W ticks).map (window W)
  candle : ∀ candle ∈ candles,
    WindowCandle W symbol (windowPrices W candle.startTimestampMs ticks) candle

section
variable {W : ℕ+} {tick : Tick} {ticks : List Tick} {symbol : String} {w : ℕ}
  {candle : OhlcCandle} {prices : List F64}

theorem windowStart_eq_window (h : 0 ≤ tick.timestampMs.toInt) :
    tick.windowStart W = window W tick := by
  have hlt := tick.timestampMs.toInt_lt
  rw [Tick.windowStart, window, asU64_of_nonneg h (by omega)]

/-- The end of a window does not wrap. -/
theorem window_add_lt (hW : (W : ℕ) ≤ 2 ^ 62) : (window W tick + W) % 2 ^ 64 = window W tick + W := by
  have hlt := tick.timestampMs.toInt_lt
  have hle : window W tick ≤ tick.timestampMs.toInt.toNat := Nat.div_mul_le_self _ _
  exact Nat.mod_eq_of_lt (by omega)

/-! ### One more tick, in the batch fold -/

theorem acceptedAfter_concat (earlier ticks : List Tick) (tick : Tick) :
    acceptedAfter W earlier (ticks ++ [tick]) =
      acceptedAfter W earlier ticks ++
        if ∀ e ∈ earlier ++ ticks, window W e ≤ window W tick then [tick] else [] := by
  induction ticks generalizing earlier with
  | nil => simp [acceptedAfter]
  | cons first rest ih =>
      rw [List.cons_append, acceptedAfter, acceptedAfter, ih]
      have hassoc : earlier ++ [first] ++ rest = earlier ++ first :: rest := by simp
      rw [hassoc]
      split
      · rfl
      · rfl

theorem accepted_concat_of_le (h : ∀ e ∈ ticks, window W e ≤ window W tick) :
    accepted W (ticks ++ [tick]) = accepted W ticks ++ [tick] := by
  rw [accepted, acceptedAfter_concat, if_pos (by simpa using h)]
  rfl

theorem accepted_concat_of_lt {newer : Tick} (hmem : newer ∈ ticks)
    (h : window W tick < window W newer) : accepted W (ticks ++ [tick]) = accepted W ticks := by
  rw [accepted, acceptedAfter_concat,
    if_neg fun hall => absurd (hall newer (by simpa using hmem)) (not_le.mpr h), List.append_nil]
  rfl

theorem mem_of_mem_accepted (h : tick ∈ accepted W ticks) : tick ∈ ticks := by
  induction ticks using List.reverseRecOn with
  | nil => exact h
  | append_singleton ticks last ih =>
      rw [accepted, acceptedAfter_concat] at h
      rcases List.mem_append.mp h with h | h
      · exact List.mem_append_left _ (ih h)
      · split at h
        · exact List.mem_append_right _ h
        · cases h

theorem windowPrices_same (h : ∀ e ∈ ticks, window W e ≤ window W tick) :
    windowPrices W (window W tick) (ticks ++ [tick]) =
      windowPrices W (window W tick) ticks ++ [tick.lastTradedPrice] := by
  simp [windowPrices, accepted_concat_of_le h]

theorem windowPrices_other (h : ∀ e ∈ ticks, window W e ≤ window W tick)
    (hw : window W tick ≠ w) :
    windowPrices W w (ticks ++ [tick]) = windowPrices W w ticks := by
  simp [windowPrices, accepted_concat_of_le h, hw]

theorem windowPrices_empty (h : ∀ e ∈ ticks, window W e < w) : windowPrices W w ticks = [] := by
  rw [windowPrices, List.filter_eq_nil_iff.mpr, List.map_nil]
  intro e he
  have := h e (mem_of_mem_accepted he)
  simp only [decide_eq_true_eq]
  omega

/-! ### One more tick, in the engine's candle -/

theorem windowCandle_open (hW : (W : ℕ) ≤ 2 ^ 62) (hsymbol : tick.symbol = symbol)
    (hw : tick.windowStart W = window W tick) (volumeDelta : ℕ) :
    WindowCandle W symbol [tick.lastTradedPrice] (openCandle W tick volumeDelta) where
  symbol_eq := hsymbol
  stop := by
    rw [openCandle, hw, window_add_lt hW]
  first := rfl
  last := rfl
  highest := F64.isHighest_singleton _
  lowest := F64.isLowest_singleton _

theorem WindowCandle.update (h : WindowCandle W symbol prices candle) (tick : Tick)
    (volumeDelta : ℕ) :
    WindowCandle W symbol (prices ++ [tick.lastTradedPrice])
      (updateCandle candle tick volumeDelta) where
  symbol_eq := h.symbol_eq
  stop := h.stop
  first := by
    rw [List.head?_append, h.first]
    rfl
  last := by
    rw [List.getLast?_concat]
    rfl
  highest := h.highest.concat _
  lowest := h.lowest.concat _

end

/-! ### The invariant -/

/-- The engine of one symbol after some ticks: what it has emitted, and its state. -/
structure Tracked (W : ℕ+) (symbol : String) (ticks : List Tick) (out : List OhlcCandle)
    (state : SymbolState) : Prop where
  folded : Folded W symbol ticks (out ++ [state.activeCandle])
  newest : ∀ tick ∈ ticks, window W tick ≤ state.activeCandle.startTimestampMs

section
variable {W : ℕ+} {tick : Tick} {ticks : List Tick} {symbol : String} {out : List OhlcCandle}
  {state : SymbolState}

theorem Tracked.reached (h : Tracked W symbol ticks out state) :
    ∃ tick ∈ ticks, window W tick = state.activeCandle.startTimestampMs := by
  obtain ⟨tick, hmem, hw⟩ := List.mem_map.mp <|
    (h.folded.windows state.activeCandle.startTimestampMs).mp (by simp)
  exact ⟨tick, mem_of_mem_accepted hmem, hw⟩

theorem Tracked.before (h : Tracked W symbol ticks out state) :
    ∀ candle ∈ out, candle.startTimestampMs < state.activeCandle.startTimestampMs := by
  intro candle hmem
  have hincreasing := h.folded.increasing
  rw [List.map_append, List.pairwise_append] at hincreasing
  exact hincreasing.2.2 _ (List.mem_map_of_mem hmem) _ (List.mem_singleton_self _)

theorem tracked_first (hW : (W : ℕ) ≤ 2 ^ 62) (hsymbol : tick.symbol = symbol)
    (hw : tick.windowStart W = window W tick) :
    Tracked W symbol [tick] [] (.first W tick) where
  folded :=
    { increasing := List.pairwise_singleton _ _
      windows := fun w => by
        simp [SymbolState.first, openCandle, hw, accepted, acceptedAfter]
      candle := fun candle hmem => by
        rw [List.mem_singleton.mp hmem]
        have hprices : windowPrices W (window W tick) [tick] = [tick.lastTradedPrice] := by
          simp [windowPrices, accepted, acceptedAfter]
        have hopen := windowCandle_open hW hsymbol hw (cumulativeVolume tick)
        rw [← hprices] at hopen
        simpa [SymbolState.first, openCandle, hw] using hopen }
  newest := by
    simp [SymbolState.first, openCandle, hw]

/-- A late tick is not accepted, and the candles stay. -/
theorem Tracked.late (h : Tracked W symbol ticks out state)
    (hlate : window W tick < state.activeCandle.startTimestampMs) (volume : ℕ) :
    Tracked W symbol (ticks ++ [tick]) out ⟨state.activeCandle, volume⟩ := by
  obtain ⟨newer, hmem, hnewer⟩ := h.reached
  have haccepted : accepted W (ticks ++ [tick]) = accepted W ticks :=
    accepted_concat_of_lt hmem (hnewer ▸ hlate)
  refine ⟨⟨h.folded.increasing, ?_, ?_⟩, ?_⟩
  · rw [haccepted]
    exact h.folded.windows
  · intro candle hcandle
    rw [windowPrices, haccepted]
    exact h.folded.candle candle hcandle
  · intro e he
    rcases List.mem_append.mp he with he | he
    · exact h.newest e he
    · rw [List.mem_singleton.mp he]
      exact hlate.le

/-- A tick of the open window is one more price of its candle, and of no other. -/
theorem Tracked.same (h : Tracked W symbol ticks out state)
    (hsame : window W tick = state.activeCandle.startTimestampMs) (volumeDelta volume : ℕ) :
    Tracked W symbol (ticks ++ [tick]) out
      ⟨updateCandle state.activeCandle tick volumeDelta, volume⟩ := by
  have hnewest : ∀ e ∈ ticks, window W e ≤ window W tick := fun e he => hsame ▸ h.newest e he
  have hstarts : (out ++ [updateCandle state.activeCandle tick volumeDelta]).map
        OhlcCandle.startTimestampMs =
      (out ++ [state.activeCandle]).map OhlcCandle.startTimestampMs := by
    simp [updateCandle]
  refine ⟨⟨?_, fun w => ?_, ?_⟩, ?_⟩
  · rw [hstarts]
    exact h.folded.increasing
  · rw [hstarts, h.folded.windows w, accepted_concat_of_le hnewest, List.map_append,
      List.mem_append]
    refine (or_iff_left_of_imp fun hw => ?_).symm
    rw [← h.folded.windows w, List.mem_singleton.mp hw, hsame]
    simp
  · intro candle hcandle
    rcases List.mem_append.mp hcandle with hout | hopen
    · rw [windowPrices_other hnewest (by have := h.before candle hout; omega)]
      exact h.folded.candle candle (List.mem_append_left _ hout)
    · rw [List.mem_singleton.mp hopen]
      change WindowCandle W symbol (windowPrices W state.activeCandle.startTimestampMs _) _
      have hactive := h.folded.candle state.activeCandle (by simp)
      rw [← hsame] at hactive ⊢
      rw [windowPrices_same hnewest]
      exact hactive.update tick volumeDelta
  · intro e he
    change window W e ≤ state.activeCandle.startTimestampMs
    rcases List.mem_append.mp he with he | he
    · exact h.newest e he
    · rw [List.mem_singleton.mp he, hsame]

/-- A tick of a newer window closes the open candle and is the first price of its own. -/
theorem Tracked.newer (h : Tracked W symbol ticks out state) (hW : (W : ℕ) ≤ 2 ^ 62)
    (hsymbol : tick.symbol = symbol) (hw : tick.windowStart W = window W tick)
    (hnewer : state.activeCandle.startTimestampMs < window W tick) (volumeDelta volume : ℕ) :
    Tracked W symbol (ticks ++ [tick]) (out ++ [state.activeCandle])
      ⟨openCandle W tick volumeDelta, volume⟩ := by
  have hbefore : ∀ e ∈ ticks, window W e < window W tick :=
    fun e he => (h.newest e he).trans_lt hnewer
  have hnewest : ∀ e ∈ ticks, window W e ≤ window W tick := fun e he => (hbefore e he).le
  have hstart : (openCandle W tick volumeDelta).startTimestampMs = window W tick := hw
  have hlower : ∀ candle ∈ out ++ [state.activeCandle],
      candle.startTimestampMs < window W tick := by
    intro candle hcandle
    rcases List.mem_append.mp hcandle with hout | hopen
    · exact (h.before candle hout).trans hnewer
    · rwa [List.mem_singleton.mp hopen]
  refine ⟨⟨?_, fun w => ?_, ?_⟩, ?_⟩
  · rw [List.map_append, List.pairwise_append]
    refine ⟨h.folded.increasing, List.pairwise_singleton _ _, fun a ha b hb => ?_⟩
    obtain ⟨candle, hcandle, rfl⟩ := List.mem_map.mp ha
    rw [List.mem_singleton.mp hb, hstart]
    exact hlower candle hcandle
  · rw [List.map_append, List.mem_append, h.folded.windows w, accepted_concat_of_le hnewest,
      List.map_append, List.mem_append]
    simp [hstart]
  · intro candle hcandle
    rcases List.mem_append.mp hcandle with hout | hopen
    · rw [windowPrices_other hnewest (hlower candle hout).ne']
      exact h.folded.candle candle hout
    · rw [List.mem_singleton.mp hopen, hstart, windowPrices_same hnewest,
        windowPrices_empty hbefore, List.nil_append]
      exact windowCandle_open hW hsymbol hw volumeDelta
  · intro e he
    change window W e ≤ (openCandle W tick volumeDelta).startTimestampMs
    rw [hstart]
    rcases List.mem_append.mp he with he | he
    · exact hnewest e he
    · rw [List.mem_singleton.mp he]

theorem Tracked.next (h : Tracked W symbol ticks out state) (hW : (W : ℕ) ≤ 2 ^ 62)
    (hsymbol : tick.symbol = symbol) (hw : tick.windowStart W = window W tick) :
    Tracked W symbol (ticks ++ [tick]) (out ++ (state.next W tick).2.toList)
      (state.next W tick).1 := by
  rcases lt_trichotomy (window W tick) state.activeCandle.startTimestampMs with
    hlate | hsame | hnewer
  · rw [next_late (hw ▸ hlate), Option.toList_none, List.append_nil]
    exact h.late hlate _
  · rw [next_same (hw.trans hsame), Option.toList_none, List.append_nil]
    exact h.same hsame _ _
  · rw [next_newer (hw ▸ hnewer), Option.toList_some]
    exact h.newer hW hsymbol hw hnewer _ _

/-- The run of one symbol.  Induction on its ticks, from the last one on. -/
theorem folded_symbolRun (symbol : String) (ticks : List Tick) (hW : (W : ℕ) ≤ 2 ^ 62)
    (hticks : ∀ tick ∈ ticks, tick.symbol = symbol ∧ 0 ≤ tick.timestampMs.toInt) :
    match (symbolRun W ticks).1 with
    | none => ticks = [] ∧ (symbolRun W ticks).2 = []
    | some state => Tracked W symbol ticks (symbolRun W ticks).2 state := by
  induction ticks using List.reverseRecOn with
  | nil => exact ⟨rfl, rfl⟩
  | append_singleton ticks tick ih =>
      have ih := ih fun e he => hticks e (List.mem_append_left _ he)
      obtain ⟨hsymbol, htime⟩ := hticks tick (by simp)
      have hw := windowStart_eq_window (W := W) htime
      rw [symbolRun_concat]
      cases hrun : (symbolRun W ticks).1 with
      | none =>
          rw [hrun] at ih
          obtain ⟨rfl, hout⟩ := ih
          rw [hout]
          exact tracked_first hW hsymbol hw
      | some state =>
          rw [hrun] at ih
          exact ih.next hW hsymbol hw

theorem folded_nil (W : ℕ+) (symbol : String) : Folded W symbol [] [] where
  increasing := List.Pairwise.nil
  windows _ := Iff.rfl
  candle _ h := absurd h List.not_mem_nil

end

/-! ### Streaming is folding -/

/-- What the engine has emitted for a symbol, with its open candle last, is the fold of the
symbol's ticks, whatever ticks of other symbols came in between. -/
theorem streamed_eq_fold (symbol : String) (ticks : List Tick)
    (hticks : ∀ tick ∈ ticks, 0 ≤ tick.timestampMs.toInt) :
    Folded windowMs symbol (ticksOf symbol ticks)
        (emitted windowMs symbol ticks ++ (active windowMs symbol ticks).toList) ∧
      ∀ ticks', ticksOf symbol ticks' = ticksOf symbol ticks →
        emitted windowMs symbol ticks' = emitted windowMs symbol ticks ∧
          active windowMs symbol ticks' = active windowMs symbol ticks := by
  constructor
  · have hown : ∀ tick ∈ ticksOf symbol ticks,
        tick.symbol = symbol ∧ 0 ≤ tick.timestampMs.toInt := by
      intro tick hmem
      rw [ticksOf, List.mem_filter] at hmem
      exact ⟨of_decide_eq_true hmem.2, hticks tick hmem.1⟩
    have hrun := folded_symbolRun (W := windowMs) symbol (ticksOf symbol ticks) (by decide) hown
    rw [emitted_eq, active_eq]
    cases hstate : (symbolRun windowMs (ticksOf symbol ticks)).1 with
    | none =>
        rw [hstate] at hrun
        rw [hrun.2, hrun.1]
        exact folded_nil windowMs symbol
    | some state =>
        rw [hstate] at hrun
        exact hrun.folded
  · intro ticks' hsame
    rw [emitted_eq, emitted_eq, active_eq, active_eq, hsame]
    exact ⟨rfl, rfl⟩

/-- Two ticks of one window, one of the next, a late one, and ticks of another symbol between. -/
theorem streamed_eq_fold_late :
    let price (symbol : String) (timestampMs : Int64) (q : ℚ) : Tick :=
      { symbol, timestampMs, lastTradedPrice := .fin q, volume := 0 }
    let ticks := [price "INFY" 10 5, price "TCS" 20 90, price "INFY" 30 3, price "INFY" 700000 8,
      price "INFY" 40 1, price "TCS" 800000 70]
    Folded windowMs "INFY" (ticksOf "INFY" ticks)
      [⟨"INFY", 0, 600000, .fin 5, .fin 5, .fin 3, .fin 3, 0⟩,
        ⟨"INFY", 600000, 1200000, .fin 8, .fin 8, .fin 8, .fin 8, 0⟩] :=
  (streamed_eq_fold "INFY" _ (by decide)).1

end AiTrader.AlphaTerminal
