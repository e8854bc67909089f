import AiTrader.QuantCore.ChartPatterns.Continuations

/-! # Chart patterns: the engine

`ChartPatternEngine::analyze` of `src/quant-core/src/chart_patterns.rs`: the sixteen detectors on
the swing skeleton, and what they find in order of confidence.

`analyze_admissible`: on quoted prices the engine returns, and every pattern that it reports is
admissible. -/

namespace AiTrader.QuantCore.ChartPatterns

section
variable (fmt : ℕ → ℚ → String) (candles : List Bar)

/-- `a` is listed before `b`, or may be. -/
def ahead (a b : ChartPattern) : Bool := decide (a.confidence ≥ b.confidence)

/-- The detectors, in the order in which they run. -/
def detectors (swings : List Swing) : List (Option (List ChartPattern)) :=
  [detectHarmonics fmt candles swings, detectHeadAndShoulders fmt candles swings,
    detectInverseHeadAndShoulders fmt candles swings, detectDoubleTop fmt candles swings,
    detectDoubleBottom fmt candles swings, detectTripleTop fmt candles swings,
    detectTripleBottom fmt candles swings, detectQuasimodo fmt candles swings,
    detectThreeDrives fmt candles swings, detectRisingWedge fmt candles swings,
    detectFallingWedge fmt candles swings, detectFlagsAndPennants fmt candles swings,
    detectCupAndHandle fmt swings, detectInverseCupAndHandle fmt swings,
    detectTriangles candles swings, detectRectangle fmt swings]

/-- `analyze`. -/
def analyze : Option (List ChartPattern) :=
  if candles.length < 20 then some []
  else do
    let rawSwings ← findSwings candles
    if rawSwings.length < 3 then some []
    else
      let swings := alternateSwings rawSwings
      if swings.length < 3 then some []
      else do
        let patterns ← (detectors fmt candles swings).mapM id
        return patterns.flatten.mergeSort ahead

end

variable {fmt : ℕ → ℚ → String} {candles : List Bar} {swings : List Swing}

theorem wellPlaced_skeleton (hprice : ∀ c ∈ candles, 1 / 100 ≤ c.high ∧ 1 / 100 ≤ c.low) :
    WellPlaced candles (alternateSwings ((searched candles).flatMap (swingsOf candles))) where
  ordered := (pairwise_before_skeleton candles).imp fun h => h.elim le_of_lt fun h => h.1.le
  inside hs := (Nat.le_add_right _ _).trans_lt (standsOut_of_mem_skeleton hs).2.1
  price s hs := by
    obtain ⟨-, -, c, hc, hkind⟩ := standsOut_of_mem_skeleton hs
    have hquoted := hprice c (List.mem_of_getElem? hc)
    split at hkind
    · rw [hkind.1]
      exact hquoted.1
    · rw [hkind.1]
      exact hquoted.2

theorem returns_detectors (h : WellPlaced candles swings) :
    ∀ detector ∈ detectors fmt candles swings,
      Returns detector (AllAdmissible candles.length) := by
  simp only [detectors, List.forall_mem_cons]
  exact ⟨returns_detectHarmonics h, returns_detectShoulders h .top,
    returns_detectShoulders h .bottom, returns_detectDouble h .top, returns_detectDouble h .bottom,
    returns_detectTriple h .top, returns_detectTriple h .bottom, returns_detectQuasimodo h,
    returns_detectThreeDrives h, returns_detectRisingWedge h, returns_detectFallingWedge h,
    returns_detectFlagsAndPennants, returns_detectCup h .top, returns_detectCup h .bottom,
    returns_detectTriangles h, returns_detectRectangle h,
    List.forall_mem_nil _⟩

/-- The sort by confidence keeps patterns admissible and puts them in order. -/
theorem sorted_admissible {n : ℕ} {ps : List ChartPattern} (h : AllAdmissible n ps) :
    AllAdmissible n (ps.mergeSort ahead) ∧
      (ps.mergeSort ahead).Pairwise fun a b => a.confidence ≥ b.confidence := by
  refine ⟨fun p hp => h p (List.mem_mergeSort.mp hp), ?_⟩
  have hsorted : (ps.mergeSort ahead).Pairwise fun a b => ahead a b = true := by
    refine List.pairwise_mergeSort (fun a b c hab hbc => ?_) (fun a b => ?_) ps
    · exact decide_eq_true ((of_decide_eq_true hbc).trans (of_decide_eq_true hab))
    · rw [ahead, ahead, Bool.or_eq_true, decide_eq_true_iff, decide_eq_true_iff]
      exact le_total _ _
  exact hsorted.imp of_decide_eq_true

/-- **Every reported pattern is admissible.**  On bars whose highs and lows are at least a
hundredth, the engine reads inside its lists and divides by nothing zero; the confidences are
between zero and one, in falling order, and the spans lie on the chart. -/
theorem analyze_admissible (hprice : ∀ c ∈ candles, 1 / 100 ≤ c.high ∧ 1 / 100 ≤ c.low) :
    ∃ ps, analyze fmt candles = some ps ∧ AllAdmissible candles.length ps ∧
      ps.Pairwise fun a b => a.confidence ≥ b.confidence := by
  have hnone : AllAdmissible candles.length [] ∧
      List.Pairwise (fun a b : ChartPattern => a.confidence ≥ b.confidence) [] :=
    ⟨List.forall_mem_nil _, .nil⟩
  unfold analyze
  refine Returns.guard hnone fun _ => .bind (.of_eq (findSwings_eq candles)) ?_
  rintro _ rfl
  refine .guard hnone fun _ => .guard hnone fun _ => ?_
  refine .bind (.mapM (returns_detectors (wellPlaced_skeleton hprice))) fun pss hpss => .some ?_
  refine sorted_admissible fun p hp => ?_
  obtain ⟨ps, hps, hp⟩ := List.mem_flatten.mp hp
  exact hpss ps hps p hp

/-- Two tops at one height, on falling volume. -/
def twoTops : List Bar :=
  [2, 3, 4, 5, 6, 7, 8, 9, 8, 7, 6, 5, 4, 3, 4, 5, 6, 7, 8, 9, 8, 7, 6, 5, 4, 3, 2, 1, 2, 3, 4, 5,
    6].zipIdx.map fun p : ℕ × ℕ => ⟨p.1 + 1, p.1 + 2, p.1 + 1, p.1 + 1, 100 - p.2⟩

theorem analyze_admissible_twoTops : ∃ ps, analyze (fun _ x => toString x) twoTops = some ps ∧
    AllAdmissible twoTops.length ps ∧ ps.Pairwise fun a b => a.confidence ≥ b.confidence := by
  refine analyze_admissible fun c hc => ?_
  obtain ⟨p, -, rfl⟩ := List.mem_map.mp hc
  have hheight : (0 : ℚ) ≤ p.1 := Nat.cast_nonneg p.1
  exact ⟨by dsimp only; linarith, by dsimp only; linarith⟩

end AiTrader.QuantCore.ChartPatterns
