import AiTrader.QuantCore.ChartPatterns.Reversals

/-! # Chart patterns: continuations

The detectors of `src/quant-core/src/chart_patterns.rs` from `detect_flags_and_pennants` to
`detect_rectangle`.  Every one of them returns, and what it returns is admissible. -/

namespace AiTrader.QuantCore.ChartPatterns

section
variable (fmt : ℕ → ℚ → String) (candles : List Bar) (swings : List Swing)

/-! ### Flags and pennants -/

/-- `f64::MAX`. -/
def f64Max : ℚ := (2 ^ 53 - 1) * 2 ^ 971

/-- Open of the first and close of the last candle of the pole. -/
def pole (poleStart poleEnd : ℕ) : Option (ℚ × ℚ) := do
  let poleCandles := (candles.take poleEnd).drop poleStart
  let first ← poleCandles.head?
  let last ← poleCandles.getLast?
  return (first.open, last.close)

/-- The slope through some swings, flat through one. -/
def consolSlope (points : List (ℚ × ℚ)) : Option ℚ :=
  if points.length ≥ 2 then (linearRegression points).map Prod.fst else points[0]?.map fun _ => 0

/-- `ratio`. -/
def consolRatio (consolRange poleRange : ℚ) : Option ℚ :=
  if poleRange > tiny then divide consolRange poleRange else some 1

/-- A flag or a pennant. -/
def flagPattern (isBullishPole : Bool) (shape text : String) (confidence ratio : ℚ)
    (poleStart endIdx : ℕ) (poleOpen poleClose move : ℚ) (volDrying : Bool) : ChartPattern :=
  let pattern := (if isBullishPole then "Bull " else "Bear ") ++ shape
  { patternType := pattern
    sentiment := if isBullishPole then "Bullish" else "Bearish"
    confidence
    startIdx := poleStart
    endIdx
    description := pattern ++ ": Pole " ++ fmt 2 poleOpen ++ " → " ++ fmt 2 poleClose ++ " (" ++
      fmt 1 (move * 100) ++ "% move). " ++ text
    structuralBias := if isBullishPole then "Bullish Continuation" else "Bearish Continuation"
    geometricStrictness := 1 - ratio
    volumeValidation := dryingText volDrying
    breakoutStatus := "Pending Breakout" }

/-- `detect_flags_and_pennants`. -/
def detectFlagsAndPennants : Option (List ChartPattern) :=
  let n := candles.length
  if n < minFlagpoleCandles + 10 ∨ swings.length < 4 then some []
  else
    let poleEnd := n - 10
    if poleEnd < minFlagpoleCandles then some []
    else
      let poleStart := poleEnd - 20
      if ((candles.take poleEnd).drop poleStart).isEmpty then some []
      else do
        let (poleOpen, poleClose) ← pole candles poleStart poleEnd
        let poleRange := |poleClose - poleOpen|
        let avgPrice := (poleOpen + poleClose) / 2
        if avgPrice < tiny then some []
        else do
          let move ← divide poleRange avgPrice
          if move < flagpoleMinRangeRatio then some []
          else
            let isBullishPole := decide (poleClose > poleOpen)
            let consolSwings := swings.filter fun s => decide (s.idx ≥ poleEnd)
            if consolSwings.length < 2 then some []
            else
              let consolPeaks := ofKind .peak consolSwings
              let consolTroughs := ofKind .trough consolSwings
              if consolPeaks.isEmpty ∨ consolTroughs.isEmpty then some []
              else do
                let resSlope ← consolSlope (points consolPeaks)
                let supSlope ← consolSlope (points consolTroughs)
                let consolHigh := (consolPeaks.map SwingPoint.price).foldl max (-f64Max)
                let consolLow := (consolTroughs.map SwingPoint.price).foldl min f64Max
                let consolRange := consolHigh - consolLow
                let volSlope ← getVolumeSlope candles poleEnd (n - 1)
                let volDrying := decide (volSlope < 0)
                let slopesParallel := decide (|resSlope - supSlope| < 1 / 1000)
                let slopesConverge := decide (resSlope < 0 ∧ supSlope > 0) ||
                  decide (|resSlope| > 1 / 10000 ∧ |supSlope| > 1 / 10000 ∧
                    resSlope * supSlope < 0)
                let ratio ← consolRatio consolRange poleRange
                if ratio > 1 / 2 then some []
                else
                  let baseConfidence := 50 / 100 + (1 - ratio) * (3 / 10)
                  let flag := if slopesParallel then
                    [flagPattern fmt isBullishPole "Flag" "Parallel consolidation channel."
                      (min baseConfidence (9 / 10)) ratio poleStart (n - 1) poleOpen poleClose move
                      volDrying]
                    else []
                  let pennant := if slopesConverge then
                    [flagPattern fmt isBullishPole "Pennant"
                      "Converging triangle after sharp move."
                      (min (baseConfidence + 5 / 100) (9 / 10)) ratio poleStart (n - 1) poleOpen
                      poleClose move volDrying]
                    else []
                  some (flag ++ pennant)

/-! ### Cups -/

/-- The lowest of some swings, the first of them; on the other side the highest, the last of
them. -/
def furthest (side : Side) : List Swing → Option Swing
  | [] => none
  | s :: rest => some (rest.foldl (fun m t => match side with
      | .top => if t.price < m.price then t else m
      | .bottom => if m.price ≤ t.price then t else m) s)

/-- One turn of the loop of the two detectors. -/
def cupAt (side : Side) (patternType sentiment label low deep structuralBias : String)
    (rims inner : List Swing) (i : ℕ) : Option (List ChartPattern) := do
  let leftRim ← rims[i]?
  let rightRim ← rims[i + 1]?
  let matched ← pricesMatch leftRim.price rightRim.price cupAsymmetryTolerance
  if !matched then some []
  else match furthest side (between leftRim.idx rightRim.idx inner) with
    | none => some []
    | some bottom => do
        let rimAvg := (leftRim.price + rightRim.price) / 2
        let cupDepth ← divide (side.gap rimAvg bottom.price) rimAvg
        if cupDepth < 2 / 100 ∨ cupDepth > 35 / 100 then some []
        else match (inner.filter fun t => decide (t.idx > rightRim.idx)).head? with
          | none => some []
          | some handle => do
              let handleDepth ← divide (side.gap rightRim.price handle.price) rightRim.price
              if handleDepth > 0 ∧ handleDepth < cupDepth * (1 / 2) then do
                let part ← divide handleDepth cupDepth
                let confidence :=
                  min (55 / 100 + min cupDepth (2 / 10) + (1 - part) * (15 / 100)) (95 / 100)
                return [{
                  patternType, sentiment, confidence, structuralBias
                  startIdx := leftRim.idx
                  endIdx := handle.idx
                  description := label ++ ": rims " ++ fmt 2 leftRim.price ++ "/" ++
                    fmt 2 rightRim.price ++ ", " ++ low ++ " " ++ fmt 2 bottom.price ++ " (" ++
                    fmt 1 (cupDepth * 100) ++ "% " ++ deep ++ "), handle " ++
                    fmt 2 handle.price ++ "."
                  geometricStrictness := 85 / 100
                  volumeValidation := "Geometric Only"
                  breakoutStatus := "Pending Breakout" }]
              else some []

def detectCup (side : Side) (patternType sentiment label low deep structuralBias : String) :
    Option (List ChartPattern) :=
  let inner := ofKind side.opposite swings
  let rims := ofKind side.extreme swings
  if inner.length < 2 ∨ rims.length < 3 then some []
  else ((List.range (rims.length - 2)).mapM
    (cupAt fmt side patternType sentiment label low deep structuralBias rims inner)).map
      List.flatten

/-- `detect_cup_and_handle`. -/
def detectCupAndHandle : Option (List ChartPattern) :=
  detectCup fmt swings .top "Cup and Handle" "Bullish" "Cup and Handle" "bottom" "deep"
    "Bullish Continuation"

/-- `detect_inverse_cup_and_handle`. -/
def detectInverseCupAndHandle : Option (List ChartPattern) :=
  detectCup fmt swings .bottom "Inverse Cup and Handle" "Bearish" "Inverse Cup" "dome" "high"
    "Bearish Continuation"

/-! ### Triangles and rectangles -/

/-- `swings.first().map(|s| s.idx).unwrap_or(0)`, and the same of the last. -/
def span : ℕ × ℕ :=
  ((swings.head?.map SwingPoint.idx).getD 0, (swings.getLast?.map SwingPoint.idx).getD 0)

/-- A triangle. -/
def triangle (patternType sentiment description structuralBias : String) (confidence : ℚ)
    (volDrying : Bool) : ChartPattern where
  patternType := patternType
  sentiment := sentiment
  confidence := confidence
  startIdx := (span swings).1
  endIdx := (span swings).2
  description := description
  structuralBias := structuralBias
  geometricStrictness := 90 / 100
  volumeValidation := dryingText volDrying
  breakoutStatus := "Pending Breakout"

/-- `detect_triangles`. -/
def detectTriangles : Option (List ChartPattern) :=
  if (ofKind .peak swings).length < 2 ∨ (ofKind .trough swings).length < 2 then some []
  else do
    let (resSlope, supSlope) ← slopes swings
    let volSlope ← getVolumeSlope candles (span swings).1 (span swings).2
    let volDrying := decide (volSlope < 0)
    let ascending := if |resSlope| < flatSlopeThreshold ∧ supSlope > flatSlopeThreshold then
      [triangle swings "Ascending Triangle" "Bullish"
        "Ascending Triangle: flat resistance, rising support." "Bullish Breakout"
        (min (5 / 10 + min |supSlope| (1 / 100) * 30) (85 / 100)) volDrying]
      else []
    let descending := if |supSlope| < flatSlopeThreshold ∧ resSlope < -flatSlopeThreshold then
      [triangle swings "Descending Triangle" "Bearish"
        "Descending Triangle: falling resistance, flat support." "Bearish Breakout"
        (min (5 / 10 + min |resSlope| (1 / 100) * 30) (85 / 100)) volDrying]
      else []
    let convergenceRate := (|resSlope| + |supSlope|) / 2
    let symmetrical := if resSlope < -flatSlopeThreshold ∧ supSlope > flatSlopeThreshold then
      [triangle swings "Symmetrical Triangle" "Neutral"
        "Symmetrical Triangle: converging trendlines. Breakout direction determines bias."
        "Bilateral Breakout"
        (min (45 / 100 + min convergenceRate (1 / 100) * 30) (85 / 100)) volDrying]
      else []
    return ascending ++ descending ++ symmetrical

/-- The mean of some numbers. -/
def mean (xs : List ℚ) : Option ℚ := divide xs.sum xs.length

/-- `detect_rectangle`. -/
def detectRectangle : Option (List ChartPattern) :=
  let peaks := ofKind .peak swings
  let troughs := ofKind .trough swings
  if peaks.length < 2 ∨ troughs.length < 2 then some []
  else do
    let (resSlope, supSlope) ← slopes swings
    if |resSlope| < flatSlopeThreshold ∧ |supSlope| < flatSlopeThreshold then do
      let avgRes ← mean (peaks.map SwingPoint.price)
      let avgSup ← mean (troughs.map SwingPoint.price)
      let channelWidth := avgRes - avgSup
      let mid := (avgRes + avgSup) / 2
      if |mid| < tiny then some []
      else do
        let width ← divide channelWidth mid
        if width < 5 / 1000 then some []
        else do
          let resDev ← mean (peaks.map fun p => |p.price - avgRes|)
          let supDev ← mean (troughs.map fun p => |p.price - avgSup|)
          let deviation ← divide (resDev + supDev) (2 * channelWidth)
          let tightness := 1 - min deviation (5 / 10)
          let confidence := min (45 / 100 + tightness * (4 / 10)) (9 / 10)
          return [{
            patternType := "Rectangle"
            sentiment := "Neutral"
            confidence
            startIdx := (span swings).1
            endIdx := (span swings).2
            description := "Rectangle: support " ++ fmt 2 avgSup ++ ", resistance " ++
              fmt 2 avgRes ++ ". Width " ++ fmt 2 channelWidth ++ " (" ++ fmt 1 (width * 100) ++
              "%)."
            structuralBias := "Bilateral Breakout"
            geometricStrictness := tightness
            volumeValidation := "Geometric Only"
            breakoutStatus := "Pending Breakout" }]
    else some []

end

/-! ### What they find is admissible -/

section
variable {fmt : ℕ → ℚ → String} {candles : List Bar} {swings : List Swing}

theorem returns_pole {poleStart poleEnd : ℕ}
    (h : ((candles.take poleEnd).drop poleStart).isEmpty = false) :
    Returns (pole candles poleStart poleEnd) fun _ => True := by
  have hne : (candles.take poleEnd).drop poleStart ≠ [] := List.isEmpty_eq_false_iff.mp h
  unfold pole
  dsimp only
  exact .bind (.of_eq (List.head?_eq_some_head hne)) fun first _ =>
    .bind (.of_eq (List.getLast?_eq_some_getLast hne)) fun last _ => .some trivial

theorem returns_consolSlope {ps : List (ℚ × ℚ)} (h : ps ≠ []) :
    Returns (consolSlope ps) fun _ => True := by
  unfold consolSlope
  refine .ite (fun _ => .map ((returns_linearRegression ps).mono fun _ _ => trivial)) fun _ => ?_
  exact .map ((Returns.getElem? (List.length_pos_iff.mpr h)).mono fun _ _ => trivial)

theorem returns_consolRatio (consolRange poleRange : ℚ) :
    Returns (consolRatio consolRange poleRange) fun _ => True := by
  unfold consolRatio
  refine .ite (fun hpole => ?_) fun _ => .some trivial
  exact (returns_divide _ (tiny_pos.trans hpole).ne').mono fun _ _ => trivial

theorem flag_confidence {ratio bonus : ℚ} (hratio : ¬ ratio > 1 / 2) (hbonus : 0 ≤ bonus) :
    0 ≤ 50 / 100 + (1 - ratio) * (3 / 10) + bonus := by
  have hle := not_lt.mp hratio
  linarith

theorem returns_detectFlagsAndPennants :
    Returns (detectFlagsAndPennants fmt candles swings) (AllAdmissible candles.length) := by
  unfold detectFlagsAndPennants
  dsimp only
  refine .guard (List.forall_mem_nil _) fun hlen => ?_
  refine .guard (List.forall_mem_nil _) fun _ => ?_
  refine .guard (List.forall_mem_nil _) fun hpole => ?_
  refine .bind (returns_pole (Bool.not_eq_true _ ▸ hpole)) fun ends _ => ?_
  obtain ⟨poleOpen, poleClose⟩ := ends
  refine .guard (List.forall_mem_nil _) fun havg => ?_
  have hpos := tiny_pos.trans_le (not_lt.mp havg)
  refine .bind (returns_divide _ hpos.ne') fun move _ => ?_
  refine .guard (List.forall_mem_nil _) fun _ => ?_
  refine .guard (List.forall_mem_nil _) fun _ => ?_
  refine .guard (List.forall_mem_nil _) fun hsome => ?_
  rw [List.isEmpty_iff, List.isEmpty_iff, not_or] at hsome
  refine .bind (returns_consolSlope ?_) fun resSlope _ => .bind (returns_consolSlope ?_)
    fun supSlope _ => .bind (returns_getVolumeSlope candles _ _) fun volSlope _ =>
      .bind (returns_consolRatio _ _) fun ratio _ => ?_
  · exact fun hnil => hsome.1 (List.map_eq_nil_iff.mp hnil)
  · exact fun hnil => hsome.2 (List.map_eq_nil_iff.mp hnil)
  refine .guard (List.forall_mem_nil _) fun hratio => .some ?_
  have hbounds : candles.length - 10 - 20 ≤ candles.length - 1 ∧
      candles.length - 1 < candles.length := by
    unfold minFlagpoleCandles at hlen
    omega
  have hflag := flag_confidence hratio le_rfl
  rw [add_zero] at hflag
  have hpennant := flag_confidence hratio (show (0 : ℚ) ≤ 5 / 100 by norm_num)
  have hcap : (0 : ℚ) ≤ 9 / 10 := by norm_num
  have hcap_le : (9 / 10 : ℚ) ≤ 1 := by norm_num
  refine List.forall_mem_append.mpr ⟨?_, ?_⟩ <;> split
  · exact List.forall_mem_singleton.mpr (.capped rfl hflag hcap hcap_le hbounds.1 hbounds.2)
  · exact List.forall_mem_nil _
  · exact List.forall_mem_singleton.mpr (.capped rfl hpennant hcap hcap_le hbounds.1 hbounds.2)
  · exact List.forall_mem_nil _

theorem cup_confidence {cupDepth part : ℚ} (hdepth : ¬ cupDepth < 2 / 100) (hpart : part ≤ 1) :
    0 ≤ 55 / 100 + min cupDepth (2 / 10) + (1 - part) * (15 / 100) := by
  have hmin : 0 ≤ min cupDepth (2 / 10) := le_min (by linarith) (by norm_num)
  linarith

theorem returns_cupAt (h : WellPlaced candles swings) (side : Side)
    {patternType sentiment label low deep structuralBias : String} {i : ℕ}
    (hi : i + 1 < (ofKind side.extreme swings).length) :
    Returns (cupAt fmt side patternType sentiment label low deep structuralBias
      (ofKind side.extreme swings) (ofKind side.opposite swings) i)
      (AllAdmissible candles.length) := by
  have hrims : WellPlaced candles (ofKind side.extreme swings) := h.filter _
  have hinner : WellPlaced candles (ofKind side.opposite swings) := h.filter _
  unfold cupAt
  refine .bind (.getElem? (Nat.lt_of_succ_lt hi)) fun leftRim hleft =>
    .bind (.getElem? hi) fun rightRim hright => ?_
  have hpl := hrims.price leftRim (List.mem_of_getElem? hleft)
  have hpr := hrims.price rightRim (List.mem_of_getElem? hright)
  have hle := hrims.le hleft hright (Nat.le_succ i)
  refine .bind (returns_pricesMatch hpl hpr) fun matched _ =>
    .guard (List.forall_mem_nil _) fun _ => ?_
  split
  · exact returns_nil _
  have hrim : (leftRim.price + rightRim.price) / 2 ≠ 0 := by
    intro hzero
    linarith
  refine .bind (returns_divide _ hrim) fun cupDepth _ =>
    .guard (List.forall_mem_nil _) fun hdepth => ?_
  rw [not_or] at hdepth
  have hcup : 0 < cupDepth := by linarith [not_lt.mp hdepth.1]
  split
  · exact returns_nil _
  · rename_i handle hhandle
    obtain ⟨hmem, hafter⟩ := List.mem_filter.mp (List.mem_of_head? hhandle)
    have hprice : rightRim.price ≠ 0 := by
      intro hzero
      linarith
    refine .bind (returns_divide _ hprice) fun handleDepth _ =>
      .ite (fun hshallow => ?_) fun _ => returns_nil _
    refine .bind (returns_divide _ hcup.ne') fun part hpart => ?_
    have hpart_le : part ≤ 1 := by
      rw [hpart, div_le_one hcup]
      linarith [hshallow.2]
    exact returns_singleton (.capped rfl (cup_confidence hdepth.1 hpart_le) (by norm_num)
      (by norm_num) (hle.trans (of_decide_eq_true hafter).le) (hinner.inside hmem))

theorem returns_detectCup (h : WellPlaced candles swings) (side : Side)
    {patternType sentiment label low deep structuralBias : String} :
    Returns (detectCup fmt swings side patternType sentiment label low deep structuralBias)
      (AllAdmissible candles.length) := by
  unfold detectCup
  refine .guard (List.forall_mem_nil _) fun _ => returns_flatten fun i hi => returns_cupAt h side ?_
  rw [List.mem_range] at hi
  omega

/-! ### Triangles and rectangles -/

theorem triangle_confidence {base s : ℚ} (hbase : 0 ≤ base) (hs : 0 ≤ s) :
    0 ≤ base + min s (1 / 100) * 30 := by
  have hmin : 0 ≤ min s (1 / 100) := le_min hs (by norm_num)
  linarith

theorem WellPlaced.span (h : WellPlaced candles swings) (hne : swings ≠ []) :
    (span swings).1 ≤ (span swings).2 ∧ (span swings).2 < candles.length := by
  obtain ⟨first, last, hfirst, hlast, hspan⟩ := h.exists_span hne
  rw [ChartPatterns.span, hfirst, hlast]
  exact hspan

theorem returns_detectTriangles (h : WellPlaced candles swings) :
    Returns (detectTriangles candles swings) (AllAdmissible candles.length) := by
  unfold detectTriangles
  refine .guard (List.forall_mem_nil _) fun hlen => ?_
  obtain ⟨hle, hin⟩ := h.span (ne_nil_of_two fun hpeaks => hlen (.inl hpeaks))
  refine .bind (returns_slopes swings) fun lines _ => ?_
  obtain ⟨resSlope, supSlope⟩ := lines
  refine .bind (returns_getVolumeSlope candles _ _) fun volSlope _ => .some ?_
  have hhalf : (0 : ℚ) ≤ 5 / 10 := by norm_num
  have hbase : (0 : ℚ) ≤ 45 / 100 := by norm_num
  have hrate : 0 ≤ (|resSlope| + |supSlope|) / 2 := by positivity
  have hasc := triangle_confidence hhalf (abs_nonneg supSlope)
  have hdesc := triangle_confidence hhalf (abs_nonneg resSlope)
  have hsym := triangle_confidence hbase hrate
  have hcap : (0 : ℚ) ≤ 85 / 100 := by norm_num
  have hcap_le : (85 / 100 : ℚ) ≤ 1 := by norm_num
  refine List.forall_mem_append.mpr ⟨List.forall_mem_append.mpr ⟨?_, ?_⟩, ?_⟩ <;> split
  · exact List.forall_mem_singleton.mpr (.capped rfl hasc hcap hcap_le hle hin)
  · exact List.forall_mem_nil _
  · exact List.forall_mem_singleton.mpr (.capped rfl hdesc hcap hcap_le hle hin)
  · exact List.forall_mem_nil _
  · exact List.forall_mem_singleton.mpr (.capped rfl hsym hcap hcap_le hle hin)
  · exact List.forall_mem_nil _

theorem returns_mean {xs : List ℚ} (hne : xs ≠ []) :
    Returns (mean xs) fun m => m = xs.sum / xs.length :=
  returns_divide _ (Nat.cast_ne_zero.mpr (List.length_pos_iff.mpr hne).ne')

theorem returns_meanPrice (h : WellPlaced candles swings) {kind : SwingKind}
    (hne : ofKind kind swings ≠ []) :
    Returns (mean ((ofKind kind swings).map SwingPoint.price)) (0 ≤ ·) := by
  refine (returns_mean (List.map_eq_nil_iff.not.mpr hne)).mono fun avg havg => ?_
  rw [havg]
  refine div_nonneg (List.sum_nonneg fun x hx => ?_) (Nat.cast_nonneg _)
  obtain ⟨s, hs, rfl⟩ := List.mem_map.mp hx
  linarith [(h.filter _).price s hs]

theorem returns_detectRectangle (h : WellPlaced candles swings) :
    Returns (detectRectangle fmt swings) (AllAdmissible candles.length) := by
  unfold detectRectangle
  dsimp only
  refine .guard (List.forall_mem_nil _) fun hlen => ?_
  obtain ⟨hle, hin⟩ := h.span (ne_nil_of_two fun hpeaks => hlen (.inl hpeaks))
  rw [not_or, not_lt, not_lt] at hlen
  have hpeaks : ofKind .peak swings ≠ [] := List.length_pos_iff.mp (by omega)
  have htroughs : ofKind .trough swings ≠ [] := List.length_pos_iff.mp (by omega)
  refine .bind (returns_slopes swings) fun lines _ => ?_
  obtain ⟨resSlope, supSlope⟩ := lines
  refine .ite (fun _ => ?_) fun _ => returns_nil _
  refine .bind (returns_meanPrice h hpeaks) fun avgRes hres =>
    .bind (returns_meanPrice h htroughs) fun avgSup hsup => ?_
  refine .guard (List.forall_mem_nil _) fun hmid => ?_
  have hmid_nonneg : 0 ≤ (avgRes + avgSup) / 2 := by linarith
  rw [abs_of_nonneg hmid_nonneg, not_lt] at hmid
  have hmid_pos := tiny_pos.trans_le hmid
  refine .bind (returns_divide _ hmid_pos.ne') fun width hwidth =>
    .guard (List.forall_mem_nil _) fun hwide => ?_
  have hchannel : 0 < avgRes - avgSup := by
    have hwidth_pos : 0 < width := by linarith [not_lt.mp hwide]
    rw [hwidth] at hwidth_pos
    exact (div_pos_iff_of_pos_right hmid_pos).mp hwidth_pos
  have htwice : 0 < 2 * (avgRes - avgSup) := by linarith
  refine .bind (returns_mean (List.map_eq_nil_iff.not.mpr hpeaks)) fun resDev _ =>
    .bind (returns_mean (List.map_eq_nil_iff.not.mpr htroughs)) fun supDev _ =>
      .bind (returns_divide _ htwice.ne') fun deviation _ => ?_
  have hhalf : min deviation (5 / 10) ≤ 5 / 10 := min_le_right _ _
  have hconfidence : 0 ≤ 45 / 100 + (1 - min deviation (5 / 10)) * (4 / 10) := by linarith
  exact returns_singleton (.capped rfl hconfidence (by norm_num) (by norm_num) hle hin)

end

end AiTrader.QuantCore.ChartPatterns
