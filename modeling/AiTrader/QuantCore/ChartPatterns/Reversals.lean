import AiTrader.QuantCore.ChartPatterns.Helpers

/-! # Chart patterns: reversals

The detectors of `src/quant-core/src/chart_patterns.rs` from `detect_harmonics` to
`detect_falling_wedge`.  The tops and the bottoms of one shape are one definition, which looks at
the chart from either side.

Every one of them returns, and what it returns is admissible. -/

namespace AiTrader.QuantCore.ChartPatterns

section
variable (fmt : ℕ → ℚ → String) (candles : List Bar) (swings : List Swing)

/-! ### Harmonics -/

/-- `classify_harmonic`. -/
def classifyHarmonic (abXa adXa : ℚ) : Option (String × ℚ) :=
  if matchesFib abXa (618 / 1000) && matchesFib adXa (786 / 1000) then
    some ("Gartley", 786 / 1000)
  else if (matchesFib abXa (382 / 1000) || matchesFib abXa (50 / 100)) &&
      matchesFib adXa (886 / 1000) then
    some ("Bat", 886 / 1000)
  else if matchesFib abXa (786 / 1000) && matchesFib adXa (1272 / 1000) then
    some ("Butterfly", 1272 / 1000)
  else if abXa ≥ 33 / 100 ∧ abXa ≤ 66 / 100 ∧ matchesFib adXa (1618 / 1000) then
    some ("Crab", 1618 / 1000)
  else if abXa ≥ 108 / 100 ∧ abXa ≤ 166 / 100 ∧ matchesFib adXa (886 / 1000) then
    some ("Shark", 886 / 1000)
  else none

/-- `detect_harmonics`. -/
def detectHarmonics : Option (List ChartPattern) :=
  let n := swings.length
  if n < 5 then some []
  else do
    let x ← swings[n - 5]?
    let a ← swings[n - 4]?
    let b ← swings[n - 3]?
    let c ← swings[n - 2]?
    let d ← swings[n - 1]?
    if x.kind = a.kind ∨ a.kind = b.kind ∨ b.kind = c.kind ∨ c.kind = d.kind then some []
    else
      let isBullish := decide (x.kind = .trough)
      let xa := |a.price - x.price|
      let ab := |b.price - a.price|
      if xa < tiny ∨ ab < tiny then some []
      else do
        let abXa ← divide ab xa
        let adXa ← divide |d.price - a.price| xa
        match classifyHarmonic abXa adXa with
        | none => some []
        | some (name, targetD) =>
            if x.idx < candles.length ∧ d.idx < candles.length then do
              let vX ← volumeAt candles x.idx
              let vD ← volumeAt candles d.idx
              if vD < vX then
                let bias := if isBullish then "Bullish Reversal" else "Bearish Reversal"
                some [{
                  patternType := "Harmonic " ++ name
                  sentiment := if isBullish then "Bullish" else "Bearish"
                  confidence := 90 / 100
                  startIdx := x.idx
                  endIdx := d.idx
                  description := "Harmonic " ++ name ++ ": X→A→B→C→D confirmed. D at " ++
                    fmt 4 targetD ++ " retracement of XA. " ++ bias ++ "."
                  structuralBias := bias
                  geometricStrictness := 95 / 100
                  volumeValidation := "Confirmed: Reversal Exhaustion"
                  breakoutStatus := "Confirmed" }]
              else some []
            else some []

/-! ### Heads and shoulders -/

/-- The neckline is broken: through the first and the last swing between the shoulders, if there
are two. -/
def brokenNeckline (side : Side) (left right : Swing) : Option Bool :=
  let necks := between left.idx right.idx (ofKind side.opposite swings)
  if necks.length ≥ 2 then do
    let t1 ← necks[0]?
    let t2 ← necks[necks.length - 1]?
    let necklineSlope ← if t2.idx ≠ t1.idx then
      divide (t2.price - t1.price) ((t2.idx : ℚ) - t1.idx) else some 0
    let currentIdx : ℚ := (candles.length - 1 : ℕ)
    let necklineVal := t1.price + necklineSlope * (currentIdx - t1.idx)
    return side.beyond necklineVal (currentPrice candles)
  else some false

/-- One turn of the loop of the two detectors. -/
def shouldersAt (side : Side) (patternType sentiment label structuralBias : String) :
    Swing × Swing × Swing → Option (List ChartPattern)
  | (left, head, right) =>
    if !side.beyond head.price left.price || !side.beyond head.price right.price then some []
    else do
      let matched ← pricesMatch left.price right.price shoulderTolerance
      if matched ∧ left.idx < candles.length ∧ right.idx < candles.length then do
        let vLs ← volumeAt candles left.idx
        let vRs ← volumeAt candles right.idx
        if vRs ≥ vLs then some []
        else do
          let isBreakout ← brokenNeckline candles swings side left right
          let texts ← breakoutTexts candles isBreakout "Confirmed: Reversal Exhaustion"
          let shoulderAvg := (left.price + right.price) / 2
          let headProminence ← divide (side.gap head.price shoulderAvg) shoulderAvg
          let asymmetry ← divide |left.price - right.price| shoulderAvg
          let shoulderSymmetry := 1 - asymmetry
          let confidence :=
            min (5 / 10 + min headProminence (3 / 10) + shoulderSymmetry * (2 / 10)) 1
          return [{
            patternType, sentiment, confidence, structuralBias
            startIdx := left.idx
            endIdx := right.idx
            description := label ++ ": LS " ++ fmt 2 left.price ++ ", Head " ++ fmt 2 head.price ++
              ", RS " ++ fmt 2 right.price ++ ". Volume exhaustion confirmed. " ++ texts.1 ++ "."
            geometricStrictness := shoulderSymmetry
            volumeValidation := texts.2
            breakoutStatus := texts.1 }]
      else some []

def detectShoulders (side : Side) (patternType sentiment label structuralBias : String) :
    Option (List ChartPattern) :=
  let extremes := ofKind side.extreme swings
  if extremes.length < 3 then some []
  else ((windows3 extremes).mapM
    (shouldersAt fmt candles swings side patternType sentiment label structuralBias)).map
      List.flatten

/-- `detect_head_and_shoulders`. -/
def detectHeadAndShoulders : Option (List ChartPattern) :=
  detectShoulders fmt candles swings .top "Head & Shoulders Top" "Bearish" "H&S Top"
    "Bearish Reversal"

/-- `detect_inverse_head_and_shoulders`. -/
def detectInverseHeadAndShoulders : Option (List ChartPattern) :=
  detectShoulders fmt candles swings .bottom "Inverse Head & Shoulders" "Bullish" "IH&S"
    "Bullish Reversal"

/-! ### Double tops and bottoms -/

/-- One turn of the loop of the two detectors. -/
def doubleAt (side : Side) (patternType sentiment exhaustion order structuralBias : String) :
    Swing × Swing → Option (List ChartPattern)
  | (p1, p2) => do
    let matched ← pricesMatch p1.price p2.price matchTolerance
    if !matched then some []
    else match (between p1.idx p2.idx (ofKind side.opposite swings)).head? with
      | none => some []
      | some middle =>
          if p1.idx < candles.length ∧ p2.idx < candles.length then do
            let v1 ← volumeAt candles p1.idx
            let v2 ← volumeAt candles p2.idx
            if v2 ≥ v1 then some []
            else do
              let avg := (p1.price + p2.price) / 2
              let depth ← divide (side.gap avg middle.price) avg
              if depth < 5 / 1000 then some []
              else do
                let isBreakout := side.beyond middle.price (currentPrice candles)
                let texts ← breakoutTexts candles isBreakout exhaustion
                let deviation ← divide |p1.price - p2.price| (max p1.price p2.price)
                let strictness := 1 - deviation
                let confidence :=
                  min (55 / 100 + strictness * (25 / 100) + min depth (2 / 10)) 1
                return [{
                  patternType, sentiment, confidence, structuralBias
                  startIdx := p1.idx
                  endIdx := p2.idx
                  description := patternType ++ " at " ++ fmt 2 p1.price ++ " and " ++
                    fmt 2 p2.price ++ ". Vol exhaustion: " ++ order ++ ". " ++ texts.1 ++ "."
                  geometricStrictness := strictness
                  volumeValidation := texts.2
                  breakoutStatus := texts.1 }]
          else some []

def detectDouble (side : Side) (patternType sentiment exhaustion order structuralBias : String) :
    Option (List ChartPattern) :=
  let extremes := ofKind side.extreme swings
  if extremes.length < 2 then some []
  else ((windows2 extremes).mapM
    (doubleAt fmt candles swings side patternType sentiment exhaustion order structuralBias)).map
      List.flatten

/-- `detect_double_top`. -/
def detectDoubleTop : Option (List ChartPattern) :=
  detectDouble fmt candles swings .top "Double Top" "Bearish" "Confirmed: Peak Exhaustion"
    "P2 < P1" "Bearish Reversal"

/-- `detect_double_bottom`. -/
def detectDoubleBottom : Option (List ChartPattern) :=
  detectDouble fmt candles swings .bottom "Double Bottom" "Bullish" "Confirmed: Trough Exhaustion"
    "T2 < T1" "Bullish Reversal"

/-! ### Triple tops and bottoms -/

/-- One turn of the loop of the two detectors. -/
def tripleAt (patternType sentiment zone structuralBias : String) :
    Swing × Swing × Swing → Option (List ChartPattern)
  | (p1, p2, p3) => do
    let avg := (p1.price + p2.price + p3.price) / 3
    let m1 ← pricesMatch p1.price avg matchTolerance
    let m2 ← pricesMatch p2.price avg matchTolerance
    let m3 ← pricesMatch p3.price avg matchTolerance
    if !m1 || !m2 || !m3 then some []
    else if p1.idx < candles.length ∧ p3.idx < candles.length then do
      let v1 ← volumeAt candles p1.idx
      let v3 ← volumeAt candles p3.idx
      let volValid := decide (v3 < v1)
      let maxDev := [|p1.price - avg|, |p2.price - avg|, |p3.price - avg|].foldl max 0
      let deviation ← divide maxDev avg
      let confidence := min (6 / 10 + 3 / 10 * (1 - deviation)) 1
      return [{
        patternType, sentiment, confidence, structuralBias
        startIdx := p1.idx
        endIdx := p3.idx
        description := patternType ++ " at " ++ fmt 2 p1.price ++ ", " ++ fmt 2 p2.price ++ ", " ++
          fmt 2 p3.price ++ ". Strong " ++ zone ++ " zone."
        geometricStrictness := 1 - deviation
        volumeValidation := if volValid then "Confirmed: Reversal Exhaustion" else "Unconfirmed"
        breakoutStatus := "Pending Breakout" }]
    else some []

def detectTriple (side : Side) (patternType sentiment zone structuralBias : String) :
    Option (List ChartPattern) :=
  let extremes := ofKind side.extreme swings
  if extremes.length < 3 then some []
  else ((windows3 extremes).mapM
    (tripleAt fmt candles patternType sentiment zone structuralBias)).map List.flatten

/-- `detect_triple_top`. -/
def detectTripleTop : Option (List ChartPattern) :=
  detectTriple fmt candles swings .top "Triple Top" "Bearish" "resistance" "Bearish Reversal"

/-- `detect_triple_bottom`. -/
def detectTripleBottom : Option (List ChartPattern) :=
  detectTriple fmt candles swings .bottom "Triple Bottom" "Bullish" "support" "Bullish Reversal"

/-! ### Quasimodo -/

/-- One of the two shapes: the extreme is overrun, then the swing between. -/
def quasimodoAt (side other : Side) (sentiment bText cText : String) :
    Swing × Swing × Swing × Swing → Option (List ChartPattern)
  | (sX, sA, sB, sC) =>
    if sX.kind = side.extreme ∧ sA.kind = side.opposite ∧ sB.kind = side.extreme ∧
        sC.kind = side.opposite then
      if side.beyond sB.price sX.price && other.beyond sC.price sA.price then
        if sX.idx < candles.length then do
          let vX ← volumeAt candles sX.idx
          let vCurr := currentVolume candles
          if vCurr < vX then
            some [{
              patternType := "Quasimodo (" ++ sentiment ++ ")"
              sentiment
              confidence := 85 / 100
              startIdx := sX.idx
              endIdx := sC.idx
              description := sentiment ++ " QM: X=" ++ fmt 2 sX.price ++ ", A=" ++
                fmt 2 sA.price ++ ", B=" ++ fmt 2 sB.price ++ "(" ++ bText ++ "), C=" ++
                fmt 2 sC.price ++ "(" ++ cText ++ "). Volume exhaustion confirmed."
              structuralBias := sentiment ++ " Reversal"
              geometricStrictness := 90 / 100
              volumeValidation := "Confirmed: Reversal Exhaustion"
              breakoutStatus := "Pending Neckline Test" }]
          else some []
        else some []
      else some []
    else some []

/-- `detect_quasimodo`. -/
def detectQuasimodo : Option (List ChartPattern) :=
  let n := swings.length
  if n < 4 then some []
  else do
    let sX ← swings[n - 4]?
    let sA ← swings[n - 3]?
    let sB ← swings[n - 2]?
    let sC ← swings[n - 1]?
    let bullish ←
      quasimodoAt fmt candles .bottom .top "Bullish" "lower low" "higher high" (sX, sA, sB, sC)
    let bearish ←
      quasimodoAt fmt candles .top .bottom "Bearish" "higher high" "lower low" (sX, sA, sB, sC)
    return bullish ++ bearish

/-! ### Three drives -/

/-- `detect_three_drives`. -/
def detectThreeDrives : Option (List ChartPattern) :=
  let n := swings.length
  if n < 6 then some []
  else do
    let d1 ← swings[n - 6]?
    let c1 ← swings[n - 5]?
    let d2 ← swings[n - 4]?
    let c2 ← swings[n - 3]?
    let d3 ← swings[n - 2]?
    let _ ← swings[n - 1]?
    if d1.kind ≠ d2.kind ∨ d2.kind ≠ d3.kind then some []
    else
      let isBullish := decide (d1.kind = .trough)
      let d1Range := |c1.price - d1.price|
      let d2Range := |c2.price - d2.price|
      if d1Range < tiny ∨ d2Range < tiny then some []
      else do
        let d2Ext ← divide |d2.price - c1.price| d1Range
        let d3Ext ← divide |d3.price - c2.price| d2Range
        if (matchesFib d2Ext (1272 / 1000) || matchesFib d2Ext (1618 / 1000)) &&
            (matchesFib d3Ext (1272 / 1000) || matchesFib d3Ext (1618 / 1000)) then
          if d1.idx < candles.length ∧ d3.idx < candles.length then do
            let vD1 ← volumeAt candles d1.idx
            let vD3 ← volumeAt candles d3.idx
            if vD3 < vD1 then
              let bias := if isBullish then "Bullish Reversal" else "Bearish Reversal"
              some [{
                patternType := "Three Drives"
                sentiment := if isBullish then "Bullish" else "Bearish"
                confidence := 90 / 100
                startIdx := d1.idx
                endIdx := d3.idx
                description := "Three Drives: D2 ext " ++ fmt 3 d2Ext ++ ", D3 ext " ++
                  fmt 3 d3Ext ++ ". Volume exhaustion at Drive 3. " ++ bias ++ "."
                structuralBias := bias
                geometricStrictness := 90 / 100
                volumeValidation := "Confirmed: Reversal Exhaustion"
                breakoutStatus := "Confirmed" }]
            else some []
          else some []
        else some []

/-! ### Wedges -/

/-- `detect_rising_wedge`. -/
def detectRisingWedge : Option (List ChartPattern) :=
  if (ofKind .peak swings).length < 2 ∨ (ofKind .trough swings).length < 2 then some []
  else do
    let (resSlope, supSlope) ← slopes swings
    if resSlope > 0 ∧ supSlope > 0 ∧ supSlope > resSlope then do
      let first ← swings.head?
      let last ← swings.getLast?
      let volSlope ← getVolumeSlope candles first.idx last.idx
      let convergence ← divide (supSlope - resSlope) (max |supSlope| tiny)
      let confidence := min (45 / 100 + min convergence (4 / 10) * (5 / 10)) (9 / 10)
      return [{
        patternType := "Rising Wedge"
        sentiment := "Bearish"
        confidence
        startIdx := first.idx
        endIdx := last.idx
        description := "Rising Wedge: sup slope " ++ fmt 6 supSlope ++ ", res slope " ++
          fmt 6 resSlope ++ ". Converging upward — bearish reversal."
        structuralBias := "Bearish Reversal"
        geometricStrictness := 85 / 100
        volumeValidation := dryingText (decide (volSlope < 0))
        breakoutStatus := "Pending Breakout" }]
    else some []

/-- `detect_falling_wedge`. -/
def detectFallingWedge : Option (List ChartPattern) :=
  if (ofKind .peak swings).length < 2 ∨ (ofKind .trough swings).length < 2 then some []
  else do
    let (resSlope, supSlope) ← slopes swings
    if resSlope < 0 ∧ supSlope < 0 ∧ resSlope < supSlope then do
      let first ← swings.head?
      let last ← swings.getLast?
      let volSlope ← getVolumeSlope candles first.idx last.idx
      let convergence ← divide |supSlope - resSlope| (max |resSlope| tiny)
      let confidence := min (45 / 100 + min convergence (4 / 10) * (5 / 10)) (9 / 10)
      return [{
        patternType := "Falling Wedge"
        sentiment := "Bullish"
        confidence
        startIdx := first.idx
        endIdx := last.idx
        description := "Falling Wedge: res slope " ++ fmt 6 resSlope ++ ", sup slope " ++
          fmt 6 supSlope ++ ". Converging downward — bullish reversal."
        structuralBias := "Bullish Reversal"
        geometricStrictness := 85 / 100
        volumeValidation := dryingText (decide (volSlope < 0))
        breakoutStatus := "Pending Breakout" }]
    else some []

end

/-! ### What they find is admissible -/

section
variable {fmt : ℕ → ℚ → String} {candles : List Bar} {swings : List Swing}

theorem returns_brokenNeckline (side : Side) (left right : Swing) :
    Returns (brokenNeckline candles swings side left right) fun _ => True := by
  unfold brokenNeckline
  dsimp only
  refine .ite (fun hlen => ?_) fun _ => .some trivial
  refine .bind (.getElem? (by omega)) fun t1 _ => .bind (.getElem? (by omega)) fun t2 _ => ?_
  refine .ite (fun hne => ?_) fun _ => .some trivial
  have hdiff : (t2.idx : ℚ) - t1.idx ≠ 0 := sub_ne_zero.mpr (Nat.cast_injective.ne hne)
  exact .bind (returns_divide _ hdiff) fun slope _ => .some trivial

theorem Side.gap_pos {side : Side} {a b : ℚ} (h : side.beyond a b = true) : 0 < side.gap a b := by
  cases side
  · exact sub_pos.mpr (of_decide_eq_true h)
  · exact sub_pos.mpr (of_decide_eq_true h)

/-- A head beyond both shoulders is beyond their average. -/
theorem Side.gap_average_pos {side : Side} {a b c : ℚ} (hb : side.beyond a b = true)
    (hc : side.beyond a c = true) : 0 < side.gap a ((b + c) / 2) := by
  have hb := Side.gap_pos hb
  have hc := Side.gap_pos hc
  cases side
  · simp only [Side.gap] at hb hc ⊢
    linarith
  · simp only [Side.gap] at hb hc ⊢
    linarith

theorem returns_shouldersAt (h : WellPlaced candles swings) (side : Side)
    {patternType sentiment label structuralBias : String} {left head right : Swing}
    (hw : (left, head, right) ∈ windows3 (ofKind side.extreme swings)) :
    Returns (shouldersAt fmt candles swings side patternType sentiment label structuralBias
      (left, head, right)) (AllAdmissible candles.length) := by
  obtain ⟨hleft, -, hright, hle⟩ := of_mem_windows3 (h.filter _).ordered hw
  have hpl := (h.filter _).price left hleft
  have hpr := (h.filter _).price right hright
  unfold shouldersAt
  refine .guard (List.forall_mem_nil _) fun hbeyond => ?_
  obtain ⟨hhl, hhr⟩ : side.beyond head.price left.price = true ∧
      side.beyond head.price right.price = true := by
    simpa using hbeyond
  refine .bind (returns_pricesMatch hpl hpr) fun matched hmatched => ?_
  refine .ite (fun hin => ?_) fun _ => returns_nil _
  refine .bind (returns_volumeAt hin.2.1) fun vLs _ =>
    .bind (returns_volumeAt hin.2.2) fun vRs _ => ?_
  refine .guard (List.forall_mem_nil _) fun _ => ?_
  refine .bind (returns_brokenNeckline side left right) fun isBreakout _ =>
    .bind (returns_breakoutTexts candles isBreakout _) fun texts _ => ?_
  have havg : 0 < (left.price + right.price) / 2 := by linarith
  refine .bind (returns_divide _ havg.ne') fun headProminence hprominence =>
    .bind (returns_divide _ havg.ne') fun asymmetry hasymmetry => ?_
  have hpositive : 0 < headProminence := by
    rw [hprominence]
    exact div_pos (Side.gap_average_pos hhl hhr) havg
  have hsmall : asymmetry ≤ shoulderTolerance := by
    rw [hasymmetry]
    exact (div_le_iff₀ havg).mpr (hmatched hin.1)
  have hconfidence : 0 ≤ 5 / 10 + min headProminence (3 / 10) + (1 - asymmetry) * (2 / 10) := by
    have := lt_min hpositive (show (0 : ℚ) < 3 / 10 by norm_num)
    unfold shoulderTolerance at hsmall
    linarith
  exact returns_singleton (.capped rfl hconfidence zero_le_one le_rfl hle hin.2.2)

theorem returns_detectShoulders (h : WellPlaced candles swings) (side : Side)
    {patternType sentiment label structuralBias : String} :
    Returns (detectShoulders fmt candles swings side patternType sentiment label structuralBias)
      (AllAdmissible candles.length) := by
  unfold detectShoulders
  dsimp only
  exact .guard (List.forall_mem_nil _) fun _ =>
    returns_flatten fun w hw => returns_shouldersAt h side hw

theorem returns_doubleAt (h : WellPlaced candles swings) (side : Side)
    {patternType sentiment exhaustion order structuralBias : String} {p1 p2 : Swing}
    (hw : (p1, p2) ∈ windows2 (ofKind side.extreme swings)) :
    Returns (doubleAt fmt candles swings side patternType sentiment exhaustion order
      structuralBias (p1, p2)) (AllAdmissible candles.length) := by
  obtain ⟨h1, h2, hle⟩ := of_mem_windows2 (h.filter _).ordered hw
  have hp1 := (h.filter _).price p1 h1
  have hp2 := (h.filter _).price p2 h2
  have hpos1 : 0 < p1.price := by linarith
  have hpos2 : 0 < p2.price := by linarith
  unfold doubleAt
  refine .bind (returns_pricesMatch hp1 hp2) fun matched _ => ?_
  refine .guard (List.forall_mem_nil _) fun _ => ?_
  cases (between p1.idx p2.idx (ofKind side.opposite swings)).head? with
  | none => exact returns_nil _
  | some middle =>
      refine .ite (fun hin => ?_) fun _ => returns_nil _
      refine .bind (returns_volumeAt hin.1) fun v1 _ =>
        .bind (returns_volumeAt hin.2) fun v2 _ => ?_
      refine .guard (List.forall_mem_nil _) fun _ => ?_
      have havg : 0 < (p1.price + p2.price) / 2 := by linarith
      refine .bind (returns_divide _ havg.ne') fun depth _ => ?_
      refine .guard (List.forall_mem_nil _) fun hdepth => ?_
      have hmax : 0 < max p1.price p2.price := lt_max_of_lt_left hpos1
      refine .bind (returns_breakoutTexts candles _ _) fun texts _ =>
        .bind (returns_divide _ hmax.ne') fun deviation hdeviation => ?_
      have hsmall : deviation ≤ 1 := by
        rw [hdeviation]
        refine (div_le_one hmax).mpr (abs_le.mpr ⟨?_, ?_⟩)
        · linarith [le_max_right p1.price p2.price]
        · linarith [le_max_left p1.price p2.price]
      have hconfidence : 0 ≤ 55 / 100 + (1 - deviation) * (25 / 100) + min depth (2 / 10) := by
        have := le_min (not_lt.mp hdepth) (show (5 / 1000 : ℚ) ≤ 2 / 10 by norm_num)
        linarith
      exact returns_singleton (.capped rfl hconfidence zero_le_one le_rfl hle hin.2)

theorem returns_detectDouble (h : WellPlaced candles swings) (side : Side)
    {patternType sentiment exhaustion order structuralBias : String} :
    Returns (detectDouble fmt candles swings side patternType sentiment exhaustion order
      structuralBias) (AllAdmissible candles.length) := by
  unfold detectDouble
  dsimp only
  exact .guard (List.forall_mem_nil _) fun _ =>
    returns_flatten fun w hw => returns_doubleAt h side hw

theorem returns_tripleAt (h : WellPlaced candles swings) (side : Side)
    {patternType sentiment zone structuralBias : String} {p1 p2 p3 : Swing}
    (hw : (p1, p2, p3) ∈ windows3 (ofKind side.extreme swings)) :
    Returns (tripleAt fmt candles patternType sentiment zone structuralBias (p1, p2, p3))
      (AllAdmissible candles.length) := by
  obtain ⟨h1, h2, h3, hle⟩ := of_mem_windows3 (h.filter _).ordered hw
  have hp1 := (h.filter _).price p1 h1
  have hp2 := (h.filter _).price p2 h2
  have hp3 := (h.filter _).price p3 h3
  have havg : 1 / 100 ≤ (p1.price + p2.price + p3.price) / 3 := by linarith
  unfold tripleAt
  refine .bind (returns_pricesMatch hp1 havg) fun m1 _ =>
    .bind (returns_pricesMatch hp2 havg) fun m2 _ =>
      .bind (returns_pricesMatch hp3 havg) fun m3 _ => ?_
  refine .guard (List.forall_mem_nil _) fun _ => ?_
  refine .ite (fun hin => ?_) fun _ => returns_nil _
  have hpos : 0 < (p1.price + p2.price + p3.price) / 3 := by linarith
  refine .bind (returns_volumeAt hin.1) fun v1 _ => .bind (returns_volumeAt hin.2) fun v3 _ =>
    .bind (returns_divide _ hpos.ne') fun deviation hdeviation => ?_
  -- None of three positive numbers is further from their average than twice the average.
  have hsmall : deviation ≤ 2 := by
    rw [hdeviation, div_le_iff₀ hpos]
    simp only [List.foldl_cons, List.foldl_nil, max_le_iff, abs_le]
    refine ⟨⟨⟨by linarith, ?_, ?_⟩, ?_, ?_⟩, ?_, ?_⟩ <;> linarith
  have hconfidence : 0 ≤ 6 / 10 + 3 / 10 * (1 - deviation) := by linarith
  exact returns_singleton (.capped rfl hconfidence zero_le_one le_rfl hle hin.2)

theorem returns_detectTriple (h : WellPlaced candles swings) (side : Side)
    {patternType sentiment zone structuralBias : String} :
    Returns (detectTriple fmt candles swings side patternType sentiment zone structuralBias)
      (AllAdmissible candles.length) := by
  unfold detectTriple
  dsimp only
  exact .guard (List.forall_mem_nil _) fun _ =>
    returns_flatten fun w hw => returns_tripleAt h side hw

theorem returns_detectHarmonics (h : WellPlaced candles swings) :
    Returns (detectHarmonics fmt candles swings) (AllAdmissible candles.length) := by
  unfold detectHarmonics
  dsimp only
  refine .guard (List.forall_mem_nil _) fun hn => ?_
  refine .bind (.getElem? (by omega)) fun x hx => .bind (.getElem? (by omega)) fun a _ =>
    .bind (.getElem? (by omega)) fun b _ => .bind (.getElem? (by omega)) fun c _ =>
      .bind (.getElem? (by omega)) fun d hd => ?_
  refine .guard (List.forall_mem_nil _) fun _ => .guard (List.forall_mem_nil _) fun hranges => ?_
  push Not at hranges
  have hxa := tiny_pos.trans_le hranges.1
  refine .bind (returns_divide _ hxa.ne') fun abXa _ =>
    .bind (returns_divide _ hxa.ne') fun adXa _ => ?_
  cases classifyHarmonic abXa adXa with
  | none => exact returns_nil _
  | some found =>
      refine .ite (fun hin => ?_) fun _ => returns_nil _
      refine .bind (returns_volumeAt hin.1) fun vX _ =>
        .bind (returns_volumeAt hin.2) fun vD _ => ?_
      refine .ite (fun _ => ?_) fun _ => returns_nil _
      exact returns_singleton ⟨by norm_num, by norm_num, h.le hx hd (by omega), hin.2⟩

theorem returns_quasimodoAt (h : WellPlaced candles swings) (side other : Side)
    {sentiment bText cText : String} {sX sA sB sC : Swing} (hC : sC ∈ swings)
    (hle : sX.idx ≤ sC.idx) :
    Returns (quasimodoAt fmt candles side other sentiment bText cText (sX, sA, sB, sC))
      (AllAdmissible candles.length) := by
  unfold quasimodoAt
  refine .ite (fun _ => ?_) fun _ => returns_nil _
  refine .ite (fun _ => ?_) fun _ => returns_nil _
  refine .ite (fun hin => ?_) fun _ => returns_nil _
  refine .bind (returns_volumeAt hin) fun vX _ => ?_
  refine .ite (fun _ => ?_) fun _ => returns_nil _
  exact returns_singleton ⟨by norm_num, by norm_num, hle, h.inside hC⟩

theorem returns_detectQuasimodo (h : WellPlaced candles swings) :
    Returns (detectQuasimodo fmt candles swings) (AllAdmissible candles.length) := by
  unfold detectQuasimodo
  dsimp only
  refine .guard (List.forall_mem_nil _) fun hn => ?_
  refine .bind (.getElem? (by omega)) fun sX hX => .bind (.getElem? (by omega)) fun sA _ =>
    .bind (.getElem? (by omega)) fun sB _ => .bind (.getElem? (by omega)) fun sC hC => ?_
  have hle : sX.idx ≤ sC.idx := h.le hX hC (by omega)
  refine .bind (returns_quasimodoAt h .bottom .top (List.mem_of_getElem? hC) hle)
    fun bullish hbullish =>
      .bind (returns_quasimodoAt h .top .bottom (List.mem_of_getElem? hC) hle)
        fun bearish hbearish => .some ?_
  exact List.forall_mem_append.mpr ⟨hbullish, hbearish⟩

theorem returns_detectThreeDrives (h : WellPlaced candles swings) :
    Returns (detectThreeDrives fmt candles swings) (AllAdmissible candles.length) := by
  unfold detectThreeDrives
  dsimp only
  refine .guard (List.forall_mem_nil _) fun hn => ?_
  refine .bind (.getElem? (by omega)) fun d1 h1 => .bind (.getElem? (by omega)) fun c1 _ =>
    .bind (.getElem? (by omega)) fun d2 _ => .bind (.getElem? (by omega)) fun c2 _ =>
      .bind (.getElem? (by omega)) fun d3 h3 => .bind (.getElem? (by omega)) fun _ _ => ?_
  refine .guard (List.forall_mem_nil _) fun _ => .guard (List.forall_mem_nil _) fun hranges => ?_
  push Not at hranges
  have hd1 := tiny_pos.trans_le hranges.1
  have hd2 := tiny_pos.trans_le hranges.2
  refine .bind (returns_divide _ hd1.ne') fun d2Ext _ =>
    .bind (returns_divide _ hd2.ne') fun d3Ext _ => ?_
  refine .ite (fun _ => ?_) fun _ => returns_nil _
  refine .ite (fun hin => ?_) fun _ => returns_nil _
  refine .bind (returns_volumeAt hin.1) fun vD1 _ => .bind (returns_volumeAt hin.2) fun vD3 _ => ?_
  refine .ite (fun _ => ?_) fun _ => returns_nil _
  exact returns_singleton ⟨by norm_num, by norm_num, h.le h1 h3 (by omega), hin.2⟩

theorem WellPlaced.exists_span (h : WellPlaced candles swings) (hne : swings ≠ []) :
    ∃ first last, swings.head? = some first ∧ swings.getLast? = some last ∧
      first.idx ≤ last.idx ∧ last.idx < candles.length := by
  have hpos := List.length_pos_iff.mpr hne
  have hfirst : swings[0]? = swings.head? := List.head?_eq_getElem?.symm
  have hlast : swings[swings.length - 1]? = swings.getLast? := List.getLast?_eq_getElem?.symm
  rw [List.head?_eq_some_head hne] at hfirst
  rw [List.getLast?_eq_some_getLast hne] at hlast
  exact ⟨_, _, List.head?_eq_some_head hne, List.getLast?_eq_some_getLast hne,
    h.le hfirst hlast (Nat.zero_le _), h.inside (List.getLast_mem hne)⟩

theorem ne_nil_of_two {kind : SwingKind} (h : ¬ (ofKind kind swings).length < 2) : swings ≠ [] := by
  rintro rfl
  exact h zero_lt_two

theorem wedge_confidence {convergence : ℚ} (h : 0 ≤ convergence) :
    0 ≤ 45 / 100 + min convergence (4 / 10) * (5 / 10) := by
  have hmin : 0 ≤ min convergence (4 / 10) := le_min h (by norm_num)
  linarith

theorem returns_detectRisingWedge (h : WellPlaced candles swings) :
    Returns (detectRisingWedge fmt candles swings) (AllAdmissible candles.length) := by
  unfold detectRisingWedge
  refine .guard (List.forall_mem_nil _) fun hlen => ?_
  obtain ⟨first, last, hfirst, hlast, hle, hin⟩ :=
    h.exists_span (ne_nil_of_two fun hpeaks => hlen (.inl hpeaks))
  refine .bind (returns_slopes swings) fun lines _ => ?_
  obtain ⟨resSlope, supSlope⟩ := lines
  refine .ite (fun hslopes => ?_) fun _ => returns_nil _
  refine .bind (.of_eq hfirst) ?_
  rintro _ rfl
  refine .bind (.of_eq hlast) ?_
  rintro _ rfl
  have hmax : 0 < max |supSlope| tiny := lt_max_of_lt_right tiny_pos
  refine .bind (returns_getVolumeSlope candles _ _) fun volSlope _ =>
    .bind (returns_divide _ hmax.ne') fun convergence hconvergence => ?_
  have hpos : 0 ≤ convergence := by
    rw [hconvergence]
    exact div_nonneg (by linarith [hslopes.2.2]) hmax.le
  exact returns_singleton
    (.capped rfl (wedge_confidence hpos) (by norm_num) (by norm_num) hle hin)

theorem returns_detectFallingWedge (h : WellPlaced candles swings) :
    Returns (detectFallingWedge fmt candles swings) (AllAdmissible candles.length) := by
  unfold detectFallingWedge
  refine .guard (List.forall_mem_nil _) fun hlen => ?_
  obtain ⟨first, last, hfirst, hlast, hle, hin⟩ :=
    h.exists_span (ne_nil_of_two fun hpeaks => hlen (.inl hpeaks))
  refine .bind (returns_slopes swings) fun lines _ => ?_
  obtain ⟨resSlope, supSlope⟩ := lines
  refine .ite (fun _ => ?_) fun _ => returns_nil _
  refine .bind (.of_eq hfirst) ?_
  rintro _ rfl
  refine .bind (.of_eq hlast) ?_
  rintro _ rfl
  have hmax : 0 < max |resSlope| tiny := lt_max_of_lt_right tiny_pos
  refine .bind (returns_getVolumeSlope candles _ _) fun volSlope _ =>
    .bind (returns_divide _ hmax.ne') fun convergence hconvergence => ?_
  have hpos : 0 ≤ convergence := by
    rw [hconvergence]
    exact div_nonneg (abs_nonneg _) hmax.le
  exact returns_singleton
    (.capped rfl (wedge_confidence hpos) (by norm_num) (by norm_num) hle hin)

end

end AiTrader.QuantCore.ChartPatterns
