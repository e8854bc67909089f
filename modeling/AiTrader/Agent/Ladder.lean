import AiTrader.Journal.SetupKey
import AiTrader.FloatRounding
import AiTrader.Options.Config
import Mathlib.Tactic.Linarith

/-! # The ladder of tiers

`evaluate_tier` and `size_factor` of `opportunity.py`, and `_stamp_opportunity_tier` of `graph.py`:
the evidence for a decision is read into a tier, and the tier into the part of the full size that
the decision is worth.

* `evaluateTier`: the descent of the ladder; `none` where `math.isfinite` or a product raises.
* `stampOpportunityTier`: the decision with its tier.
* `tier_stamp`: what the stamp says, and what better evidence does to it. -/

namespace AiTrader.Ladder

open Agent (Host AgentState Decision Env sampleHost)
open Text
open Options (resolveFloat resolveBool)
open Journal (tierTag doubleOf)

/-! ### Tiers and their sizes -/

/-- `OPPORTUNITY_TIERS`. -/
inductive Tier where
  | aPlus
  | bContinuation
  | scalp
  | standAside
deriving DecidableEq, Repr

def Tier.text : Tier → String
  | .aPlus => "a_plus"
  | .bContinuation => "b_continuation"
  | .scalp => "scalp"
  | .standAside => "stand_aside"

/-- The part of `OpportunityConfig` that the ladder reads. -/
structure LadderConfig where
  sizeFactorAPlus : F64
  sizeFactorBContinuation : F64
  sizeFactorScalp : F64
  lowerTiersEnabled : Bool

section
variable (h : Host) (env : Options.Environment)

/-- A factor of `resolve_opportunity_config`: zero is in the range but is no size. -/
def resolveFactor (envName : String) (default : F64) : F64 :=
  let value := resolveFloat env envName default (.fin 0) (.fin 1)
  if F64.le value (.fin 0) then default else value

/-- `resolve_opportunity_config`, for the ladder. -/
def resolveLadderConfig : LadderConfig where
  sizeFactorAPlus := resolveFactor env "OPPORTUNITY_SIZE_FACTOR_A_PLUS" (.fin 1)
  sizeFactorBContinuation :=
    resolveFactor env "OPPORTUNITY_SIZE_FACTOR_B_CONTINUATION" (h.rnd (6 / 10))
  sizeFactorScalp := resolveFactor env "OPPORTUNITY_SIZE_FACTOR_SCALP" (h.rnd (3 / 10))
  lowerTiersEnabled := resolveBool env h.casing.lower "OPPORTUNITY_LOWER_TIERS_ENABLED" true

end

/-- `_cfg_factor`. -/
def cfgFactor (value : F64) : F64 := if value.isFinite then value else .fin 0

/-- `min(a, b)`. -/
def pyMin (a b : F64) : F64 := if F64.lt b a then b else a

/-- `size_factor`: the ladder never rises on the way down, whatever the factors. -/
def sizeFactor (cfg : LadderConfig) (tier : Tier) : F64 :=
  let aPlus := cfgFactor cfg.sizeFactorAPlus
  let bCont := pyMin (cfgFactor cfg.sizeFactorBContinuation) aPlus
  let scalp := pyMin (cfgFactor cfg.sizeFactorScalp) bCont
  match tier with
  | .aPlus => aPlus
  | .bContinuation => bCont
  | .scalp => scalp
  | .standAside => .fin 0

/-! ### Evidence -/

/-- The six signals of a confluence. -/
inductive Signal where
  | regime
  | session
  | relativeStrength
  | forecast
  | macroTrend
  | options
deriving DecidableEq, Repr

namespace Signal

def all : List Signal := [regime, session, relativeStrength, forecast, macroTrend, options]

/-- Where the evidence has the signal. -/
def field : Signal → String
  | regime => "regime"
  | session => "session"
  | relativeStrength => "relative_strength"
  | forecast => "forecast"
  | macroTrend => "macro"
  | options => "options"

/-- The fields that may hold its state, in the order they are tried. -/
def keys : Signal → List String
  | regime => ["favorability"]
  | session => ["time_favorability", "favorability"]
  | forecast => ["forecast_alignment", "alignment"]
  | relativeStrength | macroTrend | options => ["alignment"]

end Signal

/-- What the ladder reads of the evidence. -/
structure TierEvidence where
  triple : Bool
  conf : F64
  states : Signal → ℤ

namespace TierEvidence

variable (e : TierEvidence)

def aligned : ℕ := Signal.all.countP fun s => decide (0 < e.states s)

def misaligned : ℕ := Signal.all.countP fun s => decide (e.states s < 0)

end TierEvidence

section
variable (h : Host)

/-- `a - b`, of numbers that are finite. -/
def difference (a b : PyVal) : PyVal :=
  match a, b with
  | .int x, .int y => .int (x - y)
  | a, b =>
      .float (F64.sub h.rnd ((doubleOf h a).getD (.fin 0)) ((doubleOf h b).getD (.fin 0)))

/-- `float(v)` of a number; `none` where an int is too large. -/
def toDouble (v : PyVal) : Option F64 := (isFiniteNumber v).bind fun _ => doubleOf h v

/-- `a * b > 0.0`, of numbers; `none` where it raises. -/
def productPositive (a b : PyVal) : Option Bool :=
  match a, b with
  | .int x, .int y => some (decide (0 < x * y))
  | a, b =>
      (toDouble h a).bind fun x =>
        (toDouble h b).map fun y => F64.lt (.fin 0) (F64.mul h.rnd x y)

/-- Whether all are finite; `none` where `math.isfinite` raises on the way. -/
def allFinite : List PyVal → Option Bool
  | [] => some true
  | v :: vs => (isFiniteNumber v).bind fun finite => if finite then allFinite vs else some false

/-- `_has_defensible_triple`. -/
def hasDefensibleTriple (ev : Kwargs) : Option Bool :=
  match ev.get "has_defensible_triple" with
  | .bool override => some override
  | _ =>
      let entry := ev.get "entry"
      let stop := ev.get "stop"
      let target := ev.get "target"
      (allFinite [entry, stop, target]).bind fun finite =>
        if finite then productPositive h (difference h target entry) (difference h entry stop)
        else some false

/-- `max(0.0, min(1.0, x))`. -/
def clampUnit (x : F64) : F64 :=
  let low := if F64.lt x (.fin 1) then x else .fin 1
  if F64.lt (.fin 0) low then low else .fin 0

/-- `_pattern_confidence`. -/
def patternConfidence (ev : Kwargs) : Option F64 :=
  let val := ev.get "pattern_confidence"
  (isFiniteNumber val).map fun finite =>
    if finite then clampUnit ((doubleOf h val).getD (.fin 0)) else .fin 0

def strOf : PyVal → Option String
  | .str s => some s
  | _ => none

def isFalse : PyVal → Bool
  | .bool false => true
  | _ => false

/-- The state that a text names. -/
def stateOf (raw : String) : ℤ :=
  if raw ∈ ["favorable", "aligned"] then 1
  else if raw ∈ ["unfavorable", "misaligned"] then -1
  else 0

/-- `_signal_state`. -/
def signalState (keys : List String) : PyVal → ℤ
  | .dict sub =>
      if isFalse (Kwargs.get sub "available") then 0
      else
        match keys.findSome? fun key => strOf (Kwargs.get sub key) with
        | some s => stateOf (h.casing.lower (strip s))
        | none => 0
  | _ => 0

/-- `_signal_states`. -/
def signalStates (ev : Kwargs) (s : Signal) : ℤ := signalState h s.keys (ev.get s.field)

/-- `evidence`, or an empty dictionary. -/
def asDict : PyVal → Kwargs
  | .dict ev => ev
  | _ => []

/-- What `evaluate_tier` reads first. -/
def readEvidence (evidence : PyVal) : Option TierEvidence :=
  (hasDefensibleTriple h (asDict evidence)).bind fun triple =>
    (patternConfidence h (asDict evidence)).map fun conf =>
      { triple, conf, states := signalStates h (asDict evidence) }

end

/-! ### The descent -/

/-- Why a tier was not taken. -/
inductive GatedBy where
  | regime
  | session
  | evidenceBar
  | config
deriving DecidableEq, Repr

def GatedBy.text : GatedBy → String
  | .regime => "regime"
  | .session => "session"
  | .evidenceBar => "evidence-bar"
  | .config => "config"

structure TierEvaluation where
  tier : Tier
  sizeFactor : F64
  rationale : String
  gatedBy : Option GatedBy
deriving DecidableEq

section
variable (h : Host) (fixed2 : F64 → String)

def aPlusMinPatternConf : F64 := .fin (3 / 4)
def bContinuationMinPatternConf : F64 := h.rnd (55 / 100)
def scalpMinPatternConf : F64 := h.rnd (40 / 100)

/-- The bar of a tier: a triple, enough confidence and enough signals that agree. -/
def TierEvidence.clears (e : TierEvidence) (minConf : F64) (minAligned : ℕ) : Bool :=
  e.triple && F64.le minConf e.conf && decide (minAligned ≤ e.aligned)

def TierEvidence.clearsAPlus (e : TierEvidence) : Bool :=
  e.clears aPlusMinPatternConf 3 && decide (e.misaligned = 0)

def TierEvidence.clearsBContinuation (e : TierEvidence) : Bool :=
  e.clears (bContinuationMinPatternConf h) 2

def TierEvidence.clearsScalp (e : TierEvidence) : Bool := e.clears (scalpMinPatternConf h) 1

/-- What a stand-aside on the evidence alone lacks; `fixed2 x` is `f"{x:.2f}"`. -/
def lacking (e : TierEvidence) : String :=
  if e.triple = false then "no defensible entry/stop/target triple is present"
  else if F64.lt e.conf (scalpMinPatternConf h) then
    "structural pattern confidence " ++ fixed2 e.conf ++ " is below the " ++
      fixed2 (scalpMinPatternConf h) ++ " floor for even a scalp"
  else
    "only " ++ toString e.aligned ++ " aligned confluence signal(s) — below the minimum " ++
      "evidence bar for any tradeable tier"

/-- `evaluate_tier`, of what it has read. -/
def descend (cfg : LadderConfig) (e : TierEvidence) : TierEvaluation :=
  if e.clearsAPlus then
    { tier := .aPlus, sizeFactor := sizeFactor cfg .aPlus, gatedBy := none
      rationale := "A+ setup: defensible entry/stop/target triple, structural pattern " ++
        "confidence " ++ fixed2 e.conf ++ " >= " ++ fixed2 aPlusMinPatternConf ++ ", " ++
        toString e.aligned ++ " aligned confluence signals with no misalignment." }
  else if e.clearsBContinuation h || e.clearsScalp h then
    -- the gates, in the order of the source
    if cfg.lowerTiersEnabled = false then
      { tier := .standAside, sizeFactor := .fin 0, gatedBy := some .config
        rationale := "Stand aside: a lower-tier setup is present but tiers below A+ are " ++
          "disabled by configuration (A+-only policy)." }
    else if e.states .regime < 0 then
      { tier := .standAside, sizeFactor := .fin 0, gatedBy := some .regime
        rationale := "Stand aside: a lower-tier setup is present but the market regime is " ++
          "unfavorable, so no b_continuation or scalp trade is taken." }
    else if e.states .session < 0 then
      { tier := .standAside, sizeFactor := .fin 0, gatedBy := some .session
        rationale := "Stand aside: a lower-tier setup is present but the session " ++
          "time-favorability is unfavorable, so no b_continuation or scalp trade is taken." }
    else if e.clearsBContinuation h then
      { tier := .bContinuation, sizeFactor := sizeFactor cfg .bContinuation, gatedBy := none
        rationale := "B/continuation setup: defensible triple, structural pattern confidence " ++
          fixed2 e.conf ++ " >= " ++ fixed2 (bContinuationMinPatternConf h) ++ ", " ++
          toString e.aligned ++ " aligned confluence signals, regime and session not " ++
          "unfavorable." }
    else
      { tier := .scalp, sizeFactor := sizeFactor cfg .scalp, gatedBy := none
        rationale := "Scalp/micro setup: defensible triple, structural pattern confidence " ++
          fixed2 e.conf ++ " >= " ++ fixed2 (scalpMinPatternConf h) ++ ", " ++
          toString e.aligned ++ " aligned confluence signal(s), regime and session not " ++
          "unfavorable." }
  else
    { tier := .standAside, sizeFactor := .fin 0, gatedBy := some .evidenceBar
      rationale := "Stand aside: " ++ lacking h fixed2 e ++ "." }

/-- `evaluate_tier`. -/
def evaluateTier (cfg : LadderConfig) (evidence : PyVal) : Option TierEvaluation :=
  (readEvidence h evidence).map (descend h fixed2 cfg)

/-! ### The stamp -/

/-- `float(v)` of a finite number, if it is one; `none` where `math.isfinite` raises. -/
def finiteDouble (v : PyVal) : Option (Option F64) :=
  (isFiniteNumber v).map fun finite => if finite then doubleOf h v else none

/-- The direction from entry to target. -/
def tripleDir (entry target : PyVal) : Option ℤ :=
  (finiteDouble h entry).bind fun
    | none => some 0
    | some e => (finiteDouble h target).map fun
      | none => 0
      | some t => if F64.lt e t then 1 else if F64.lt t e then -1 else 0

/-- The fields that are finite numbers; `none` where one raises. -/
def finiteFields (fields : Kwargs) : Option (List (String × F64)) :=
  (fields.mapM fun kv => (finiteDouble h kv.2).map fun x => x.map (kv.1, ·)).map (·.filterMap id)

/-- The reference levels, or else the levels of the evidence when they are structural. -/
def readLevels (ev : Kwargs) : Option (List (String × F64)) :=
  (finiteFields h (asDict (ev.get "reference_levels"))).bind fun levels =>
    if levels = [] ∧ ((List.lookup "levels_structural" ev).all PyVal.truthy) = true then
      finiteFields h (["entry", "stop", "target"].map fun key => (key, ev.get key))
    else some levels

/-- `why_standing_aside`. -/
def readWhy (evaluation : TierEvaluation) : String :=
  if strip evaluation.rationale ≠ "" then strip evaluation.rationale
  else "Current best available tier: " ++ evaluation.tier.text ++ "."

/-- The result of `best_current_read`. -/
structure Read where
  bias : String
  levels : List (String × F64)
  whyStandingAside : String

def biasOfScore (score : ℤ) : String :=
  if 0 < score then "bullish" else if score < 0 then "bearish" else "neutral"

/-- `best_current_read`. -/
def bestCurrentRead (evidence : PyVal) (evaluation : TierEvaluation) : Option Read :=
  let ev := asDict evidence
  let net := (Signal.all.map (signalStates h ev)).sum
  (tripleDir h (ev.get "entry") (ev.get "target")).bind fun direction =>
    (readLevels h ev).map fun levels =>
      { bias := biasOfScore (net + direction), levels, whyStandingAside := readWhy evaluation }

/-- A dictionary that says it is available. -/
def isAvailable : PyVal → Bool
  | .dict kvs => isTrue (Kwargs.get kvs "available")
  | _ => false
where
  isTrue : PyVal → Bool
    | .bool b => b
    | _ => false

/-- The bias of the secondary prediction, when it has a direction. -/
def predictionBias (prediction : PyVal) : Option String :=
  if isAvailable prediction then
    match (asDict prediction).get "direction" with
    | .str "up" => some "bullish"
    | .str "down" => some "bearish"
    | _ => none
  else none

def predictionNote : String :=
  "Interim direction from the secondary prediction (forecast unavailable)."

/-- `_best_current_read`: the prediction stands in for a forecast that is missing. -/
def currentRead (evidence : PyVal) (evaluation : TierEvaluation) : Option Read :=
  (bestCurrentRead h evidence evaluation).map fun read =>
    let ev := asDict evidence
    if read.bias ≠ "neutral" ∨ isAvailable (ev.get "forecast") then read
    else
      match predictionBias (ev.get "prediction") with
      | none => read
      | some bias =>
          { read with
            bias := bias
            whyStandingAside := strip (read.whyStandingAside ++ " " ++ predictionNote) }

def Read.toDict (read : Read) : PyVal :=
  .dict [("bias", .str read.bias), ("levels", .dict (read.levels.map fun l => (l.1, .float l.2))),
    ("why_standing_aside", .str read.whyStandingAside)]

/-- `act in ("BUY", "SELL")`, of an action that may be missing. -/
def isTrade (action : Option String) : Bool :=
  decide (h.casing.upper (action.getD "") ∈ ["BUY", "SELL"])

/-- A trade that is taken is never labelled a stand-aside. -/
def stampedTier (evaluated : Tier) (action : Option String) : Tier :=
  if isTrade h action then
    if evaluated ≠ .standAside then evaluated else .scalp
  else .standAside

/-- `decision.setdefault("best_current_read", read)`. -/
def setDefaultRead (decision : Kwargs) (read : PyVal) : Kwargs :=
  if (List.lookup "best_current_read" decision).isSome then decision
  else decision.set "best_current_read" read

/-- `_stamp_opportunity_tier`, of the evidence and the action for the decision. -/
def stampOpportunityTier (cfg : LadderConfig) (evidence : PyVal) (action : Option String)
    (decision : Kwargs) : Kwargs :=
  match evaluateTier h fixed2 cfg evidence with
  | none => decision
  | some evaluation =>
      let tier := stampedTier h evaluation.tier action
      let stamped := (decision.set "opportunity_tier" (.str tier.text)).set "size_factor"
        (.float (sizeFactor cfg tier))
      if tier = .standAside then
        -- a read that raises leaves what is stamped
        match currentRead h evidence evaluation with
        | none => stamped
        | some read => setDefaultRead stamped read.toDict
      else stamped

/-- What the graph knows of the ladder: the tier stamped on a decision and the interim read. -/
def tierOf (cfg : LadderConfig) (evidenceOf : AgentState → Decision → PyVal × Option String)
    (s : AgentState) (d : Decision) : Option (String × PyVal) :=
  (evaluateTier h fixed2 cfg (evidenceOf s d).1).map fun evaluation =>
    ((stampedTier h evaluation.tier (evidenceOf s d).2).text,
      ((currentRead h (evidenceOf s d).1 evaluation).map Read.toDict).getD .none)

end

/-! ### The sizes that are configured -/

structure LadderConfig.Resolved (cfg : LadderConfig) : Prop where
  aPlus : cfg.sizeFactorAPlus.IsFraction
  bContinuation : cfg.sizeFactorBContinuation.IsFraction
  scalp : cfg.sizeFactorScalp.IsFraction

theorem isFraction_resolveFactor (env : Options.Environment) (envName : String) {default : F64}
    (hdefault : default.IsFraction) : (resolveFactor env envName default).IsFraction := by
  unfold resolveFactor
  dsimp only
  split
  · exact hdefault
  · rename_i hzero
    obtain hvalue | ⟨q, hvalue, -, -, -, hhigh⟩ :=
      Options.resolveFloat_cases env envName default (.fin 0) (.fin 1) true
    · rwa [hvalue]
    · rw [hvalue] at hzero ⊢
      exact ⟨q, rfl, by simpa using hzero, by simpa using hhigh⟩

theorem resolved_resolveLadderConfig {h : Host} {r : ℚ → ℚ} (hr : F64.RoundsBy h.rnd r)
    (env : Options.Environment) : (resolveLadderConfig h env).Resolved where
  aPlus := isFraction_resolveFactor env _ F64.isFraction_one
  bContinuation := isFraction_resolveFactor env _ (hr.isFraction (by norm_num) (by norm_num))
  scalp := isFraction_resolveFactor env _ (hr.isFraction (by norm_num) (by norm_num))

def Tier.rank : Tier → ℕ
  | .standAside => 0
  | .scalp => 1
  | .bContinuation => 2
  | .aPlus => 3

/-- What the tiers are worth, as numbers. -/
structure Sizes (cfg : LadderConfig) (size : Tier → ℚ) : Prop where
  eq : ∀ t, sizeFactor cfg t = .fin (size t)
  mono : ∀ s t, s.rank ≤ t.rank → size s ≤ size t
  pos_iff : ∀ t, 0 < size t ↔ t ≠ .standAside
  nonneg : ∀ t, 0 ≤ size t
  le_one : ∀ t, size t ≤ 1

theorem cfgFactor_fin (q : ℚ) : cfgFactor (.fin q) = .fin q := rfl

theorem pyMin_fin (a b : ℚ) : pyMin (.fin a) (.fin b) = .fin (min a b) := by
  unfold pyMin
  rw [F64.lt_fin]
  split
  · rename_i hlt
    rw [min_eq_right (of_decide_eq_true hlt).le]
  · rename_i hle
    rw [min_eq_left (not_lt.mp fun hlt => hle (decide_eq_true hlt))]

theorem exists_sizes {cfg : LadderConfig} (hcfg : cfg.Resolved) : ∃ size, Sizes cfg size := by
  obtain ⟨full, hfull, hfull_pos, hfull_le⟩ := hcfg.aPlus
  obtain ⟨reduced, hreduced, hreduced_pos, -⟩ := hcfg.bContinuation
  obtain ⟨small, hsmall, hsmall_pos, -⟩ := hcfg.scalp
  have hmiddle : 0 < min reduced full := lt_min hreduced_pos hfull_pos
  have hlast : 0 < min small (min reduced full) := lt_min hsmall_pos hmiddle
  have hmiddle_le : min reduced full ≤ full := min_le_right _ _
  have hlast_le : min small (min reduced full) ≤ min reduced full := min_le_right _ _
  generalize hm : min reduced full = middle at *
  generalize hl : min small middle = last at *
  refine ⟨fun t => [0, last, middle, full].getD t.rank 0, ⟨fun t => ?_, ?_, ?_, ?_, ?_⟩⟩
  · cases t <;>
      simp [sizeFactor, hfull, hreduced, hsmall, cfgFactor_fin, pyMin_fin, hm, hl, Tier.rank]
  · intro s t hst
    cases s <;> cases t <;> simp [Tier.rank] at hst ⊢ <;> linarith
  · intro t
    cases t <;> simp [Tier.rank, *]
  · intro t
    cases t <;> simp [Tier.rank] <;> linarith
  · intro t
    cases t <;> simp [Tier.rank] <;> linarith

/-! ### Better evidence -/

/-- The evidence `b` is at least as good as `a`. -/
structure NoBetter (a b : TierEvidence) : Prop where
  triple : a.triple = true → b.triple = true
  conf : F64.le a.conf b.conf = true
  states : ∀ s, a.states s ≤ b.states s

namespace NoBetter

variable {h : Host} {a b : TierEvidence}

theorem aligned_le (hab : NoBetter a b) : a.aligned ≤ b.aligned :=
  List.countP_mono_left fun s _ hs =>
    decide_eq_true ((of_decide_eq_true hs).trans_le (hab.states s))

theorem misaligned_le (hab : NoBetter a b) : b.misaligned ≤ a.misaligned :=
  List.countP_mono_left fun s _ hs =>
    decide_eq_true ((hab.states s).trans_lt (of_decide_eq_true hs))

theorem clears (hab : NoBetter a b) {minConf : F64} {minAligned : ℕ}
    (ha : a.clears minConf minAligned = true) : b.clears minConf minAligned = true := by
  simp only [TierEvidence.clears, Bool.and_eq_true, decide_eq_true_eq] at ha ⊢
  obtain ⟨⟨htriple, hconf⟩, haligned⟩ := ha
  exact ⟨⟨hab.triple htriple, F64.le_of_le_of_le hconf hab.conf⟩,
    haligned.trans hab.aligned_le⟩

theorem clearsAPlus (hab : NoBetter a b) (ha : a.clearsAPlus = true) : b.clearsAPlus = true := by
  simp only [TierEvidence.clearsAPlus, Bool.and_eq_true, decide_eq_true_eq] at ha ⊢
  refine ⟨hab.clears ha.1, ?_⟩
  have hle := hab.misaligned_le
  omega

theorem clearsBContinuation (hab : NoBetter a b) (ha : a.clearsBContinuation h = true) :
    b.clearsBContinuation h = true := hab.clears ha

theorem clearsScalp (hab : NoBetter a b) (ha : a.clearsScalp h = true) :
    b.clearsScalp h = true := hab.clears ha

end NoBetter

/-- The gates of the lower tiers are open. -/
structure Open (cfg : LadderConfig) (e : TierEvidence) : Prop where
  enabled : cfg.lowerTiersEnabled = true
  regime : 0 ≤ e.states .regime
  session : 0 ≤ e.states .session

theorem NoBetter.gatesOpen {cfg : LadderConfig} {a b : TierEvidence} (hab : NoBetter a b)
    (ha : Open cfg a) : Open cfg b :=
  ⟨ha.enabled, ha.regime.trans (hab.states .regime), ha.session.trans (hab.states .session)⟩

section
variable (h : Host) (fixed2 : F64 → String) (cfg : LadderConfig)

/-- What the descent ends with. -/
inductive Descends (e : TierEvidence) : TierEvaluation → Prop
  | aPlus (rationale : String) : e.clearsAPlus = true →
      Descends e ⟨.aPlus, sizeFactor cfg .aPlus, rationale, none⟩
  | bContinuation (rationale : String) : e.clearsAPlus = false → Open cfg e →
      e.clearsBContinuation h = true →
      Descends e ⟨.bContinuation, sizeFactor cfg .bContinuation, rationale, none⟩
  | scalp (rationale : String) : e.clearsAPlus = false → Open cfg e →
      e.clearsBContinuation h = false → e.clearsScalp h = true →
      Descends e ⟨.scalp, sizeFactor cfg .scalp, rationale, none⟩
  | gated (rationale : String) (gate : GatedBy) : e.clearsAPlus = false → ¬ Open cfg e →
      Descends e ⟨.standAside, .fin 0, rationale, some gate⟩
  | evidenceBar (rationale : String) : e.clearsAPlus = false → e.clearsBContinuation h = false →
      e.clearsScalp h = false →
      Descends e ⟨.standAside, .fin 0, rationale, some .evidenceBar⟩

theorem descends_descend (e : TierEvidence) : Descends h cfg e (descend h fixed2 cfg e) := by
  unfold descend
  split
  · exact .aPlus _ ‹_›
  · rename_i htop
    rw [Bool.not_eq_true] at htop
    split
    · rename_i hbar
      split
      · rename_i hdisabled
        exact .gated _ _ htop fun hopen => by simp [hopen.enabled] at hdisabled
      · rename_i henabled
        split
        · rename_i hregime
          exact .gated _ _ htop fun hopen => not_lt.mpr hopen.regime hregime
        · rename_i hregime
          split
          · rename_i hsession
            exact .gated _ _ htop fun hopen => not_lt.mpr hopen.session hsession
          · rename_i hsession
            have hopen : Open cfg e :=
              ⟨by simpa using henabled, not_lt.mp hregime, not_lt.mp hsession⟩
            split
            · exact .bContinuation _ htop hopen ‹_›
            · rename_i hb
              rw [Bool.not_eq_true] at hb
              exact .scalp _ htop hopen hb (by simpa [hb] using hbar)
    · rename_i hbar
      simp only [Bool.or_eq_true, not_or, Bool.not_eq_true] at hbar
      exact .evidenceBar _ htop hbar.1 hbar.2

end

section
variable {h : Host} {fixed2 : F64 → String} {cfg : LadderConfig} {a b : TierEvidence}
  {x y : TierEvaluation}

theorem Descends.clearsAPlus (hx : Descends h cfg a x) (htier : x.tier = .aPlus) :
    a.clearsAPlus = true := by
  cases hx with
  | aPlus _ ha => exact ha
  | _ => cases htier

theorem Descends.clearsBContinuation (hx : Descends h cfg a x) (htier : x.tier = .bContinuation) :
    Open cfg a ∧ a.clearsBContinuation h = true := by
  cases hx with
  | bContinuation _ _ hopen ha => exact ⟨hopen, ha⟩
  | _ => cases htier

theorem Descends.rank_le (hx : Descends h cfg a x) (hy : Descends h cfg b y)
    (hab : NoBetter a b) : x.tier.rank ≤ y.tier.rank := by
  cases hy with
  | aPlus _ _ => cases hx <;> simp [Tier.rank]
  | bContinuation _ htop _ _ =>
      cases hx with
      | aPlus _ ha => simp [hab.clearsAPlus ha] at htop
      | _ => simp [Tier.rank]
  | scalp _ htop _ hb _ =>
      cases hx with
      | aPlus _ ha => simp [hab.clearsAPlus ha] at htop
      | bContinuation _ _ _ ha => simp [hab.clearsBContinuation ha] at hb
      | _ => simp [Tier.rank]
  | gated _ _ htop hclosed =>
      cases hx with
      | aPlus _ ha => simp [hab.clearsAPlus ha] at htop
      | bContinuation _ _ hopen _ => exact absurd (hab.gatesOpen hopen) hclosed
      | scalp _ _ hopen _ _ => exact absurd (hab.gatesOpen hopen) hclosed
      | _ => simp [Tier.rank]
  | evidenceBar _ htop hb hs =>
      cases hx with
      | aPlus _ ha => simp [hab.clearsAPlus ha] at htop
      | bContinuation _ _ _ ha => simp [hab.clearsBContinuation ha] at hb
      | scalp _ _ _ _ ha => simp [hab.clearsScalp ha] at hs
      | _ => simp [Tier.rank]

/-! ### What is stamped -/

theorem stampedTier_eq_standAside {evaluated : Tier} {action : Option String} :
    stampedTier h evaluated action = .standAside ↔ isTrade h action = false := by
  unfold stampedTier
  split
  · rename_i htrade
    rw [htrade]
    split <;> simp_all
  · simp_all

theorem stampedTier_rank_le {s t : Tier} (action : Option String) (hst : s.rank ≤ t.rank) :
    (stampedTier h s action).rank ≤ (stampedTier h t action).rank := by
  unfold stampedTier
  split
  · cases s <;> cases t <;> simp_all [Tier.rank]
  · exact le_rfl

theorem stampedTier_above {evaluated : Tier} {action : Option String}
    (hrank : 2 ≤ (stampedTier h evaluated action).rank) :
    stampedTier h evaluated action = evaluated := by
  unfold stampedTier at hrank ⊢
  split at hrank
  · rename_i htrade
    rw [if_pos htrade]
    split at hrank
    · rename_i hne
      rw [if_pos hne]
    · simp [Tier.rank] at hrank
  · simp [Tier.rank] at hrank

theorem get_setDefaultRead {decision : Kwargs} {read : PyVal} {k : String}
    (hk : k ≠ "best_current_read") : (setDefaultRead decision read).get k = decision.get k := by
  unfold setDefaultRead
  split
  · rfl
  · exact Kwargs.get_set_of_ne hk

variable {evidence : PyVal} {action : Option String} {decision : Kwargs} {e : TierEvidence}

theorem evaluateTier_eq (he : readEvidence h evidence = some e) :
    evaluateTier h fixed2 cfg evidence = some (descend h fixed2 cfg e) := by
  rw [evaluateTier, he, Option.map_some]

theorem get_stamp (he : readEvidence h evidence = some e) {k : String}
    (hk : k ≠ "best_current_read") :
    (stampOpportunityTier h fixed2 cfg evidence action decision).get k =
      ((decision.set "opportunity_tier"
          (.str (stampedTier h (descend h fixed2 cfg e).tier action).text)).set "size_factor"
        (.float (sizeFactor cfg (stampedTier h (descend h fixed2 cfg e).tier action)))).get k := by
  unfold stampOpportunityTier
  rw [evaluateTier_eq he]
  dsimp only
  split
  · split
    · rfl
    · exact get_setDefaultRead hk
  · rfl

theorem tierTag_text {tier : Tier} (hd : decision.get "opportunity_tier" = .str tier.text) :
    tierTag h decision = tier.text := by
  have hwords : ∀ t ∈ ["a_plus", "b_continuation", "scalp", "stand_aside"],
      t.toList.all isPlainChar = true := by decide
  have hmem : tier.text ∈ ["a_plus", "b_continuation", "scalp", "stand_aside"] := by
    cases tier <;> decide
  rw [tierTag, hd]
  dsimp only
  rw [strip_word (hwords _ hmem), h.casing.lower_word (hwords _ hmem), Journal.among, if_pos hmem,
    Option.getD_some]

theorem get_stamp_tier (he : readEvidence h evidence = some e) :
    (stampOpportunityTier h fixed2 cfg evidence action decision).get "opportunity_tier" =
      .str (stampedTier h (descend h fixed2 cfg e).tier action).text := by
  rw [get_stamp he (by decide), Kwargs.get_set_of_ne (by decide), Kwargs.get_set_self]

/-- The journal reads the tier that was stamped. -/
theorem tierTag_stamp (he : readEvidence h evidence = some e) :
    tierTag h (stampOpportunityTier h fixed2 cfg evidence action decision) =
      (stampedTier h (descend h fixed2 cfg e).tier action).text :=
  tierTag_text (get_stamp_tier he)

/-- What the stamp made of a decision: its tier, its size, and nothing else. -/
structure Stamped (h : Host) (action : Option String) (decision stamped : Kwargs) (tier : Tier)
    (size : ℚ) : Prop where
  tier_eq : stamped.get "opportunity_tier" = .str tier.text
  tag : tierTag h stamped = tier.text
  size_eq : stamped.get "size_factor" = .float (.fin size)
  size_nonneg : 0 ≤ size
  size_le_one : size ≤ 1
  size_pos_iff : 0 < size ↔ isTrade h action = true
  aside_iff : tier = .standAside ↔ isTrade h action = false
  frame : ∀ k, k ∉ ["opportunity_tier", "size_factor", "best_current_read"] →
    stamped.get k = decision.get k

theorem stamped_stamp {size : Tier → ℚ} (hsize : Sizes cfg size)
    (he : readEvidence h evidence = some e) :
    Stamped h action decision (stampOpportunityTier h fixed2 cfg evidence action decision)
      (stampedTier h (descend h fixed2 cfg e).tier action)
      (size (stampedTier h (descend h fixed2 cfg e).tier action)) where
  tier_eq := get_stamp_tier he
  tag := tierTag_stamp he
  size_eq := by
    rw [get_stamp he (by decide), Kwargs.get_set_self, hsize.eq]
  size_nonneg := hsize.nonneg _
  size_le_one := hsize.le_one _
  size_pos_iff := by
    rw [hsize.pos_iff, ne_eq, stampedTier_eq_standAside, Bool.not_eq_false]
  aside_iff := stampedTier_eq_standAside
  frame k hk := by
    simp only [List.mem_cons, List.not_mem_nil, or_false, not_or] at hk
    rw [get_stamp he hk.2.2, Kwargs.get_set_of_ne hk.2.1, Kwargs.get_set_of_ne hk.1]

end

theorem stamp_agrees {h : Host} {fixed2 : F64 → String} {cfg : LadderConfig} {env : Env}
    {evidenceOf : AgentState → Decision → PyVal × Option String} {s : AgentState} {d : Decision}
    {e : TierEvidence} (htier : env.tierOf = tierOf h fixed2 cfg evidenceOf)
    (he : readEvidence h (evidenceOf s d).1 = some e) (decision : Kwargs) :
    (Agent.stampOpportunityTier env s d).opportunityTier = some (tierTag h
      (stampOpportunityTier h fixed2 cfg (evidenceOf s d).1 (evidenceOf s d).2 decision)) := by
  rw [Agent.stampOpportunityTier, htier, tierOf, evaluateTier_eq he, tierTag_stamp he]
  rfl

/-- Under any configuration, a trade that is taken carries a tier and a size above zero and
anything else stands aside with none; the tier is written under its name, and the journal reads it
back; the higher tiers are for evidence that clears their bars, and better evidence never lowers the
tier or the size. -/
theorem tier_stamp {r : ℚ → ℚ} (h : Host) (hr : F64.RoundsBy h.rnd r) (fixed2 : F64 → String)
    (env : Options.Environment) (evidence : PyVal) (e : TierEvidence)
    (he : readEvidence h evidence = some e) (action : Option String) (decision : Kwargs) :
    ∃ tier size,
      Stamped h action decision
        (stampOpportunityTier h fixed2 (resolveLadderConfig h env) evidence action decision)
        tier size ∧
      (tier = .aPlus → e.clearsAPlus = true) ∧
      (tier = .bContinuation →
        Open (resolveLadderConfig h env) e ∧ e.clearsBContinuation h = true) ∧
      ∀ evidence' e' decision', readEvidence h evidence' = some e' → NoBetter e e' →
        ∃ tier' size',
          Stamped h action decision'
            (stampOpportunityTier h fixed2 (resolveLadderConfig h env) evidence' action decision')
            tier' size' ∧ tier.rank ≤ tier'.rank ∧ size ≤ size' := by
  obtain ⟨size, hsize⟩ := exists_sizes (resolved_resolveLadderConfig hr env)
  have hdescends := descends_descend h fixed2 (resolveLadderConfig h env) e
  refine ⟨_, _, stamped_stamp hsize he, fun htop => ?_, fun hmiddle => ?_,
    fun evidence' e' decision' he' hbetter => ⟨_, _, stamped_stamp hsize he', ?_⟩⟩
  · have hsame := stampedTier_above (by rw [htop]; decide)
    exact hdescends.clearsAPlus (hsame.symm.trans htop)
  · have hsame := stampedTier_above (by rw [hmiddle]; decide)
    exact hdescends.clearsBContinuation (hsame.symm.trans hmiddle)
  · have hrank := stampedTier_rank_le (h := h) action
      (hdescends.rank_le (descends_descend h fixed2 (resolveLadderConfig h env) e') hbetter)
    exact ⟨hrank, hsize.mono _ _ hrank⟩

/-- No variable is set. -/
def unset : Options.Environment where
  getenv _ := none
  toFloat _ := none
  toInt _ := none

/-- A long setup in a favorable regime. -/
def longEvidence : Kwargs :=
  [("pattern_confidence", .float (.fin (4 / 5))), ("entry", .float (.fin 100)),
    ("stop", .float (.fin 95)), ("target", .float (.fin 112)),
    ("regime", .dict [("favorability", .str "favorable")])]

theorem readEvidence_long : readEvidence sampleHost (.dict longEvidence) =
    some ⟨true, .fin (4 / 5), signalStates sampleHost longEvidence⟩ := by
  have htriple : hasDefensibleTriple sampleHost longEvidence = some true := by
    have hoverride : Kwargs.get longEvidence "has_defensible_triple" = .none := rfl
    have hentry : Kwargs.get longEvidence "entry" = .float (.fin 100) := rfl
    have hstop : Kwargs.get longEvidence "stop" = .float (.fin 95) := rfl
    have htarget : Kwargs.get longEvidence "target" = .float (.fin 112) := rfl
    have hpositive : productPositive sampleHost
        (difference sampleHost (.float (.fin 112)) (.float (.fin 100)))
        (difference sampleHost (.float (.fin 100)) (.float (.fin 95))) = some true := by
      simp [productPositive, difference, toDouble, doubleOf, isFiniteNumber, sampleHost]
      norm_num
    rw [hasDefensibleTriple, hoverride]
    dsimp only
    rw [hentry, hstop, htarget]
    exact hpositive
  have hconf : patternConfidence sampleHost longEvidence = some (.fin (4 / 5)) := by
    have hval : Kwargs.get longEvidence "pattern_confidence" = .float (.fin (4 / 5)) := rfl
    have hclamp : clampUnit (.fin (4 / 5)) = .fin (4 / 5) := by norm_num [clampUnit]
    rw [patternConfidence, hval]
    exact congrArg some hclamp
  rw [readEvidence, asDict, htriple, Option.bind_some, hconf, Option.map_some]

theorem tier_stamp_long : ∃ tier size,
    Stamped sampleHost (some "BUY") [] (stampOpportunityTier sampleHost (fun _ => "")
      (resolveLadderConfig sampleHost unset) (.dict longEvidence) (some "BUY") []) tier size ∧
    0 < size := by
  obtain ⟨tier, size, hstamped, -⟩ := tier_stamp sampleHost F64.RoundsBy.exact (fun _ => "") unset
    (.dict longEvidence) _ readEvidence_long (some "BUY") []
  exact ⟨tier, size, hstamped, hstamped.size_pos_iff.mpr (by decide)⟩

end AiTrader.Ladder
