import AiTrader.Agent.Graph
import AiTrader.FloatSum
import AiTrader.Library.Rounding
import AiTrader.PyJson

/-! # The stances of a debate

`debate.py`: what a role answered is read as a stance, the stance is stored as a dictionary, and the
Judge reads it back and weighs the two.

* `parseStance`: the stance; `none` where `float` of a large integer raises.
* `stance_round_trip`: the Judge reads the stance that was stored.
* `judge_verdict`: what the consensus, the conviction and the bias make of two stances. -/

namespace AiTrader.Agent

open PyJson Json Text

/-- `DEBATE_LEANS`. -/
def debateLeans : List String := ["long", "short", "neutral"]

section
variable (h : Host) (N : NumSyntax PyNum)

/-! ### Reading an answer -/

/-- `_coerce_to_mapping`. -/
def coerceToMapping : PyVal → Option Kwargs
  | .dict kvs => some kvs
  | .str s =>
      if strip s = "" then none
      else
        match loads N (strip s) with
        | some (.dict kvs) => some kvs
        | _ => none
  | _ => none

/-- A lean that the text names. -/
def leanNamed : PyVal → Option String
  | .str s =>
      let normalized := h.casing.lower (strip s)
      if normalized ∈ debateLeans then some normalized else none
  | _ => none

/-- `_coerce_lean`. -/
def coerceLean (v : PyVal) : String := (leanNamed h v).getD "neutral"

/-- `max(0.0, min(100.0, x))`; what is not a number passes both bounds as 100. -/
def clampToBounds (x : F64) : F64 :=
  let low := if F64.lt x (.fin 100) then x else .fin 100
  if F64.lt (.fin 0) low then low else .fin 0

/-- `int(round(x))`, of a number. -/
def roundedInt : F64 → ℤ
  | .fin q => roundHalfEven q
  | _ => 0

def clampStrength (x : F64) : ℕ := (roundedInt (clampToBounds x)).toNat

/-- `_coerce_strength`; `none` where it raises. -/
def coerceStrength : PyVal → Option ℕ
  | .int z => if (h.rnd z).isFinite then some (clampStrength (h.rnd z)) else none
  | .float x => some (clampStrength x)
  | .str s => some (((h.parseFloat (strip s)).map clampStrength).getD 0)
  | _ => some 0

/-- An argument with some text. -/
def argumentText (v : PyVal) : Option String :=
  match v with
  | .none => none
  | v => if strip (h.text v) = "" then none else some (strip (h.text v))

/-- `_coerce_arguments`. -/
def coerceArguments : PyVal → List String
  | .str s => (argumentText h (.str s)).toList
  | .list xs => xs.filterMap (argumentText h)
  | _ => []

/-- `_coerce_biggest_risk`. -/
def coerceBiggestRisk : PyVal → String
  | .none => ""
  | v => strip (h.text v)

/-- A strength that is a number or reads as one. -/
def recognizedStrength : PyVal → Bool
  | .int _ => true
  | .float _ => true
  | .str s => (h.parseFloat (strip s)).isSome
  | _ => false

/-- What a mapping says about its own availability, or else whether it says anything. -/
def coerceAvailable (data : Kwargs) (arguments : List String) (biggestRisk : String) : Bool :=
  match data.get "available" with
  | .bool b => b
  | _ => !arguments.isEmpty || decide (biggestRisk ≠ "") ||
      (leanNamed h (data.get "lean")).isSome || recognizedStrength h (data.get "strength")

/-- `parse_stance`. -/
def parseStance (role : String) (raw : PyVal) : Option Stance :=
  let role := h.casing.lower (strip role)
  match coerceToMapping N raw with
  | none => some ⟨role, "neutral", 0, [], "", false⟩
  | some data =>
      (coerceStrength h (data.get "strength")).map fun strength =>
        let arguments := coerceArguments h (data.get "arguments")
        let biggestRisk := coerceBiggestRisk h (data.get "biggest_risk")
        { role, lean := coerceLean h (data.get "lean"), strength, arguments, biggestRisk
          available := coerceAvailable h data arguments biggestRisk }

end

/-- `stance_to_dict`. -/
def stanceToDict (s : Stance) : PyVal :=
  .dict [("role", .str s.role), ("lean", .str s.lean), ("strength", .int s.strength),
    ("arguments", .list (s.arguments.map .str)), ("biggest_risk", .str s.biggestRisk),
    ("available", .bool s.available)]

/-! ### Weighing two stances -/

/-- `_effective_strength`: a stance that is not available has none. -/
def effectiveStrength (s : Stance) : ℕ := if s.available then min s.strength 100 else 0

inductive Consensus where
  | contested
  | strongAgree
  | lean
deriving DecidableEq, Repr

def Consensus.text : Consensus → String
  | .contested => "contested"
  | .strongAgree => "strong_agree"
  | .lean => "lean"

/-- The stronger side, and how far it is ahead. -/
def winning (bull bear : Stance) : ℕ := max (effectiveStrength bull) (effectiveStrength bear)

def gap (bull bear : Stance) : ℕ :=
  winning bull bear - min (effectiveStrength bull) (effectiveStrength bear)

def classifyConsensus (bull bear : Stance) : Consensus :=
  if 60 ≤ min (effectiveStrength bull) (effectiveStrength bear) ∧ gap bull bear ≤ 15 then .contested
  else if 30 ≤ gap bull bear ∧ 60 ≤ winning bull bear then .strongAgree
  else .lean

/-- `W_BASE * base + W_SEP * separation`. -/
def rawConviction (rnd : ℚ → F64) (base separation : ℕ) : F64 :=
  F64.add rnd (F64.mul rnd (rnd (7 / 10)) (rnd base)) (F64.mul rnd (rnd (3 / 10)) (rnd separation))

/-- The conviction that a consensus takes off. -/
def Consensus.penalty : Consensus → ℤ
  | .contested => 25
  | _ => 0

def deriveConviction (h : Host) (bull bear : Stance) (consensus : Consensus) : ℤ :=
  let raw := rawConviction h.rnd (winning bull bear) (gap bull bear)
  max 0 (min 100 (roundedInt raw - consensus.penalty))

inductive Bias where
  | long
  | short
  | hold
deriving DecidableEq, Repr

/-- The direction of a lean. -/
def biasOf : String → Bias
  | "long" => .long
  | "short" => .short
  | _ => .hold

def judgeDirectionalBias (bull bear : Stance) (consensus : Consensus) : Bias :=
  if consensus = .contested then .hold
  else if effectiveStrength bear < effectiveStrength bull then biasOf bull.lean
  else if effectiveStrength bull < effectiveStrength bear then biasOf bear.lean
  else .hold

/-! ### What is read back -/

/-- A stance as it is parsed. -/
structure Stance.Parsed (s : Stance) : Prop where
  lean : s.lean ∈ debateLeans
  strength : s.strength ≤ 100
  arguments : ∀ a ∈ s.arguments, a ≠ "" ∧ strip a = a
  biggestRisk : strip s.biggestRisk = s.biggestRisk

section
variable {h : Host} {N : NumSyntax PyNum} {r : ℚ → ℚ} {role : String} {raw v : PyVal} {s : Stance}
  {x : F64} {n : ℕ}

theorem coerceLean_mem : coerceLean h v ∈ debateLeans := by
  unfold coerceLean leanNamed
  split
  · dsimp only
    split
    · assumption
    · decide
  · decide

theorem clampToBounds_fin : ∃ q : ℚ, clampToBounds x = .fin q ∧ 0 ≤ q ∧ q ≤ 100 := by
  have hlow : ∀ y : F64, (F64.lt (.fin 0) y = true → ∃ q : ℚ, y = .fin q ∧ q ≤ 100) →
      ∃ q : ℚ, (if F64.lt (.fin 0) y then y else .fin 0) = .fin q ∧ 0 ≤ q ∧ q ≤ 100 := by
    intro y hy
    split
    · rename_i hpos
      obtain ⟨q, rfl, hq⟩ := hy hpos
      exact ⟨q, rfl, (of_decide_eq_true hpos).le, hq⟩
    · exact ⟨0, rfl, le_rfl, by norm_num⟩
  refine hlow _ fun hpos => ?_
  split
  · rename_i hlt
    rw [if_pos hlt] at hpos
    cases x with
    | fin q => exact ⟨q, rfl, (of_decide_eq_true hlt).le⟩
    | nan => cases hlt
    | negInf => cases hpos
    | posInf => cases hlt
  · exact ⟨100, rfl, le_rfl⟩

theorem clampStrength_le : clampStrength x ≤ 100 := by
  obtain ⟨q, hq, -, hle⟩ := clampToBounds_fin (x := x)
  have hround : roundHalfEven q ≤ 100 := roundHalfEven_le (by push_cast; linarith)
  rw [clampStrength, hq, roundedInt]
  omega

theorem roundHalfEven_natCast (n : ℕ) : roundHalfEven (n : ℚ) = n :=
  le_antisymm (roundHalfEven_le (by push_cast; linarith))
    (le_roundHalfEven (by push_cast; linarith))

theorem clampStrength_natCast (hn : n ≤ 100) : clampStrength (.fin n) = n := by
  have hn' : (n : ℚ) ≤ 100 := by exact_mod_cast hn
  have hlow : (if F64.lt (.fin (n : ℚ)) (.fin 100) then F64.fin n else .fin 100) = .fin n := by
    split
    · rfl
    · rename_i hlt
      have hge : (100 : ℚ) ≤ n := by simpa using hlt
      rw [le_antisymm hn' hge]
  have hhigh : (if F64.lt (.fin 0) (.fin (n : ℚ)) then F64.fin n else .fin 0) = .fin n := by
    split
    · rfl
    · rename_i hlt
      have hge : (n : ℚ) ≤ 0 := by simpa using hlt
      rw [le_antisymm hge (Nat.cast_nonneg n)]
  have hclamp : clampToBounds (.fin n) = .fin n := by
    unfold clampToBounds
    dsimp only
    rw [hlow, hhigh]
  rw [clampStrength, hclamp, roundedInt, roundHalfEven_natCast, Int.toNat_natCast]

theorem coerceStrength_le (hs : coerceStrength h v = some n) : n ≤ 100 := by
  unfold coerceStrength at hs
  split at hs
  · split at hs
    · cases hs
      exact clampStrength_le
    · cases hs
  · cases hs
    exact clampStrength_le
  · cases hs
    rename_i s
    cases h.parseFloat (strip s) with
    | none => exact Nat.zero_le _
    | some x => exact clampStrength_le
  · cases hs
    exact Nat.zero_le _

theorem argumentText_some {a : String} (ha : argumentText h v = some a) : a ≠ "" ∧ strip a = a := by
  unfold argumentText at ha
  split at ha
  · cases ha
  · split at ha
    · cases ha
    · rename_i hne
      cases ha
      exact ⟨hne, strip_strip _⟩

theorem coerceArguments_mem : ∀ a ∈ coerceArguments h v, a ≠ "" ∧ strip a = a := by
  intro a ha
  unfold coerceArguments at ha
  split at ha
  · exact argumentText_some (Option.mem_toList.mp ha)
  · obtain ⟨x, -, hx⟩ := List.mem_filterMap.mp ha
    exact argumentText_some hx
  · cases ha

theorem coerceBiggestRisk_strip : strip (coerceBiggestRisk h v) = coerceBiggestRisk h v := by
  unfold coerceBiggestRisk
  split
  · exact strip_word (by decide)
  · exact strip_strip _

theorem parseStance_parsed (hs : parseStance h N role raw = some s) :
    s.role = h.casing.lower (strip role) ∧ s.Parsed := by
  unfold parseStance at hs
  dsimp only at hs
  generalize coerceToMapping N raw = mapping at hs
  cases mapping with
  | none =>
      obtain rfl := Option.some_inj.mp hs
      have hneutral : "neutral" ∈ debateLeans := by decide
      exact ⟨rfl, hneutral, Nat.zero_le _, by simp, strip_word rfl⟩
  | some data =>
      obtain ⟨strength, hstrength, rfl⟩ := Option.map_eq_some_iff.mp hs
      exact ⟨rfl, coerceLean_mem, coerceStrength_le hstrength, coerceArguments_mem,
        coerceBiggestRisk_strip⟩

theorem coerceLean_self {l : String} (hl : l ∈ debateLeans) : coerceLean h (.str l) = l := by
  have hwords : ∀ l ∈ debateLeans, l.toList.all isPlainChar = true := by decide
  have hself : h.casing.lower (strip l) = l := by
    rw [strip_word (hwords l hl), h.casing.lower_word (hwords l hl)]
  unfold coerceLean leanNamed
  dsimp only
  rw [hself, if_pos hl, Option.getD_some]

theorem coerceArguments_self {as : List String} (has : ∀ a ∈ as, a ≠ "" ∧ strip a = a) :
    coerceArguments h (.list (as.map .str)) = as := by
  rw [coerceArguments, List.filterMap_map]
  have hself : ∀ a ∈ as, (argumentText h ∘ PyVal.str) a = some a := by
    intro a ha
    obtain ⟨hne, hstrip⟩ := has a ha
    have htext : argumentText h (.str a) =
        if strip a = "" then none else some (strip a) := rfl
    rw [Function.comp_apply, htext, hstrip, if_neg hne]
  rw [List.filterMap_congr hself, List.filterMap_some]

theorem parseStance_dict (hr : F64.RoundsBy h.rnd r) (hs : s.Parsed)
    (hrole : s.role = h.casing.lower (strip role)) :
    parseStance h N role (stanceToDict s) = some s := by
  have hsize : |(s.strength : ℚ)| ≤ 100 := by
    rw [abs_of_nonneg (Nat.cast_nonneg _)]
    exact_mod_cast hs.strength
  have hfin : h.rnd ((s.strength : ℤ) : ℚ) = .fin s.strength := by
    have hint := hr.rounding.intCast (k := s.strength) (by
      rw [abs_of_nonneg (Int.natCast_nonneg _)]
      have hle := hs.strength
      omega)
    rw [Int.cast_natCast] at hint ⊢
    rw [hr.rnd_small (hsize.trans (by norm_num)), hint]
  have hstrength : coerceStrength h (.int s.strength) = some s.strength := by
    rw [coerceStrength, hfin, if_pos F64.isFinite_fin, clampStrength_natCast hs.strength]
  have hrisk : coerceBiggestRisk h (.str s.biggestRisk) = s.biggestRisk := hs.biggestRisk
  have hdict : parseStance h N role (stanceToDict s) =
      (coerceStrength h (.int s.strength)).map fun strength =>
        ⟨h.casing.lower (strip role), coerceLean h (.str s.lean), strength,
          coerceArguments h (.list (s.arguments.map .str)),
          coerceBiggestRisk h (.str s.biggestRisk), s.available⟩ := rfl
  rw [hdict, hstrength, coerceLean_self hs.lean, coerceArguments_self hs.arguments, hrisk, ← hrole]
  rfl

end

/-- The stance that the Judge reads is the one that the role's answer was read as, and it keeps to
the bounds of a stance. -/
theorem stance_round_trip {r : ℚ → ℚ} (h : Host) (N : NumSyntax PyNum)
    (hr : F64.RoundsBy h.rnd r) (role : String) (raw : PyVal) (s : Stance)
    (hs : parseStance h N role raw = some s) :
    parseStance h N role (stanceToDict s) = some s ∧ s.Parsed := by
  obtain ⟨hrole, hparsed⟩ := parseStance_parsed hs
  exact ⟨parseStance_dict hr hparsed hrole, hparsed⟩

/-- How the number of `longAnswer` is written. -/
def strengthNumbers : NumSyntax PyNum := NumSyntax.ofTable [(.int 90, ['9', '0'])]

/-- An answer that argues long. -/
def longAnswer : PyVal :=
  .str ("\x7b\"lean\": \" LONG\", \"strength\": 90, " ++
    "\"arguments\": [\"breakout \", null, \" \"], \"biggest_risk\": \"gap\"\x7d")

theorem stance_round_trip_long : ∃ s,
    parseStance sampleHost strengthNumbers "bull" longAnswer = some s ∧
      s = ⟨"bull", "long", 90, ["breakout"], "gap", true⟩ ∧
      parseStance sampleHost strengthNumbers "bull" (stanceToDict s) = some s := by
  have hs : parseStance sampleHost strengthNumbers "bull" longAnswer =
      some ⟨"bull", "long", 90, ["breakout"], "gap", true⟩ := by decide +kernel
  exact ⟨_, hs, rfl, (stance_round_trip sampleHost strengthNumbers F64.RoundsBy.exact "bull"
    longAnswer _ hs).1⟩

/-! ### What the verdict makes of two stances -/

section
variable {h : Host} {r : ℚ → ℚ} {bull bear bull' bear' : Stance} {base separation : ℕ}

open F64 (grain)

theorem effectiveStrength_le (s : Stance) : effectiveStrength s ≤ 100 := by
  unfold effectiveStrength
  split <;> omega

theorem winning_le : winning bull bear ≤ 100 :=
  max_le (effectiveStrength_le bull) (effectiveStrength_le bear)

theorem gap_le : gap bull bear ≤ winning bull bear := Nat.sub_le _ _

theorem weightedTerm_near (hr : F64.RoundsBy h.rnd r) {w : ℚ} (hw : |w| ≤ 1) {n : ℕ}
    (hn : n ≤ 100) : ∃ q : ℚ, F64.mul h.rnd (h.rnd w) (h.rnd n) = .fin q ∧
      |q - w * n| ≤ 101 * grain ∧ q = r (r w * n) := by
  have hn₀ : (0 : ℚ) ≤ n := Nat.cast_nonneg n
  have hn₁ : (n : ℚ) ≤ 100 := by exact_mod_cast hn
  have hsize : |(n : ℚ)| ≤ 100 := by rwa [abs_of_nonneg hn₀]
  have hint : r n = n := by
    have hcast := hr.rounding.intCast (k := n) (by
      rw [abs_of_nonneg (Int.natCast_nonneg _)]
      omega)
    rwa [Int.cast_natCast] at hcast
  have hfin : h.rnd n = .fin n := by rw [hr.rnd_small (hsize.trans (by norm_num)), hint]
  obtain ⟨hwfin, hwnear⟩ := hr.grain_near (q := w) (a := w) (d := 0) (by simp) (by linarith)
  rw [zero_add] at hwnear
  have hmul : |r w * n - w * n| ≤ 100 * grain := by
    rw [← sub_mul, abs_mul, mul_comm]
    exact mul_le_mul hsize hwnear (abs_nonneg _) (by norm_num)
  have hprod : |w * n| ≤ 100 := by
    rw [abs_mul]
    have hle := mul_le_mul hw hsize (abs_nonneg _) one_pos.le
    linarith
  have hgrain : grain ≤ 1 := by norm_num [grain]
  obtain ⟨hrnd, hnear⟩ := hr.grain_near hmul (by linarith)
  exact ⟨r (r w * n), by rw [hwfin, hfin, F64.mul_fin, hrnd], by linarith, rfl⟩

theorem rawConviction_near (hr : F64.RoundsBy h.rnd r) (hb : base ≤ 100) (hs : separation ≤ 100) :
    rawConviction h.rnd base separation =
        .fin (r (r (r (7 / 10) * base) + r (r (3 / 10) * separation))) ∧
      |r (r (r (7 / 10) * base) + r (r (3 / 10) * separation)) -
        (7 / 10 * base + 3 / 10 * separation)| ≤ 1 / 4 := by
  obtain ⟨x, hx, hxnear, rfl⟩ := weightedTerm_near hr (w := 7 / 10) (by norm_num [abs_le]) hb
  obtain ⟨y, hy, hynear, rfl⟩ := weightedTerm_near hr (w := 3 / 10) (by norm_num [abs_le]) hs
  have hb' : (base : ℚ) ≤ 100 := by exact_mod_cast hb
  have hs' : (separation : ℚ) ≤ 100 := by exact_mod_cast hs
  have hb₀ : (0 : ℚ) ≤ base := Nat.cast_nonneg _
  have hs₀ : (0 : ℚ) ≤ separation := Nat.cast_nonneg _
  have hsum : |r (r (7 / 10) * base) + r (r (3 / 10) * separation) -
      (7 / 10 * base + 3 / 10 * separation)| ≤ 202 * grain := by
    rw [add_sub_add_comm]
    refine (abs_add_le _ _).trans ?_
    linarith
  have hsize : |(7 : ℚ) / 10 * base + 3 / 10 * separation| ≤ 100 := by
    rw [abs_of_nonneg (by positivity)]
    linarith
  have hgrain : 203 * grain ≤ 1 / 4 := by norm_num [grain]
  have hpos := F64.grain_pos
  obtain ⟨hrnd, hnear⟩ := hr.grain_near hsum (by linarith)
  refine ⟨?_, by linarith⟩
  rw [rawConviction, hx, hy, F64.add_fin, hrnd]

theorem rawConviction_mono (hr : F64.RoundsBy h.rnd r) {base' separation' : ℕ}
    (hb : base ≤ base') (hs : separation ≤ separation') (hb' : base' ≤ 100)
    (hs' : separation' ≤ 100) :
    roundedInt (rawConviction h.rnd base separation) ≤
      roundedInt (rawConviction h.rnd base' separation') := by
  rw [(rawConviction_near hr (hb.trans hb') (hs.trans hs')).1, (rawConviction_near hr hb' hs').1]
  have hweight : ∀ w : ℚ, 0 ≤ w → 0 ≤ r w := fun w hw => by
    rw [← hr.rounding.zero]
    exact hr.rounding.mono hw
  have hterm : ∀ (w : ℚ) (m n : ℕ), 0 ≤ w → m ≤ n → r (r w * m) ≤ r (r w * n) := fun w m n hw hmn =>
    hr.rounding.mono (mul_le_mul_of_nonneg_left (Nat.cast_le.mpr hmn) (hweight w hw))
  exact roundHalfEven_mono (hr.rounding.mono
    (add_le_add (hterm _ _ _ (by norm_num) hb) (hterm _ _ _ (by norm_num) hs)))

theorem roundedInt_bounds (hr : F64.RoundsBy h.rnd r) (hb : base ≤ 100) (hs : separation ≤ base) :
    roundedInt (rawConviction h.rnd base separation) ≤ 100 ∧
      (60 ≤ base → 42 ≤ roundedInt (rawConviction h.rnd base separation)) := by
  obtain ⟨heq, hnear⟩ := rawConviction_near hr hb (hs.trans hb)
  obtain ⟨hlow, hhigh⟩ := abs_le.mp hnear
  have hb' : (base : ℚ) ≤ 100 := by exact_mod_cast hb
  have hs' : (separation : ℚ) ≤ base := by exact_mod_cast hs
  have hs₀ : (0 : ℚ) ≤ separation := Nat.cast_nonneg _
  rw [heq]
  refine ⟨roundHalfEven_le (by push_cast; linarith), fun hbase => le_roundHalfEven ?_⟩
  have hbase' : (60 : ℚ) ≤ base := by exact_mod_cast hbase
  push_cast
  linarith

/-- More strength and more separation never make for less conviction, but for a contested debate. -/
theorem deriveConviction_mono (hr : F64.RoundsBy h.rnd r) {c c' : Consensus}
    (hwin : winning bull bear ≤ winning bull' bear') (hgap : gap bull bear ≤ gap bull' bear')
    (hc' : c'.penalty = 0) :
    deriveConviction h bull bear c ≤ deriveConviction h bull' bear' c' := by
  have hraw := rawConviction_mono hr hwin hgap winning_le (gap_le.trans winning_le)
  have hpenalty : 0 ≤ c.penalty := by cases c <;> decide
  simp only [deriveConviction, hc']
  omega

/-- A contested debate convicts less than one that is as strong and further apart. -/
theorem contested_less (hr : F64.RoundsBy h.rnd r)
    (hwin : winning bull bear ≤ winning bull' bear') (hgap : gap bull bear ≤ gap bull' bear')
    (hstrong : 60 ≤ winning bull' bear') {c' : Consensus} (hc' : c'.penalty = 0) :
    deriveConviction h bull bear .contested < deriveConviction h bull' bear' c' := by
  have hraw := rawConviction_mono hr hwin hgap winning_le (gap_le.trans winning_le)
  have hwinning : winning bull bear ≤ 100 := winning_le
  have hwinning' : winning bull' bear' ≤ 100 := winning_le
  have hupper := (roundedInt_bounds hr hwinning gap_le).1
  have hlower := (roundedInt_bounds hr hwinning' gap_le).2 hstrong
  have hpenalty : Consensus.contested.penalty = 25 := rfl
  simp only [deriveConviction, hc', hpenalty]
  omega

theorem penalty_of_ne {c : Consensus} (hc : c ≠ .contested) : c.penalty = 0 := by
  cases c with
  | contested => exact absurd rfl hc
  | strongAgree => rfl
  | lean => rfl

theorem winning_swap : winning bear bull = winning bull bear := max_comm _ _

theorem gap_swap : gap bear bull = gap bull bear := by
  rw [gap, gap, winning_swap, min_comm]

theorem classifyConsensus_swap : classifyConsensus bear bull = classifyConsensus bull bear := by
  rw [classifyConsensus, classifyConsensus, winning_swap, gap_swap, min_comm]

theorem strong_of_strongAgree (hc : classifyConsensus bull bear = .strongAgree) :
    60 ≤ winning bull bear := by
  unfold classifyConsensus at hc
  split at hc
  · cases hc
  · split at hc
    · rename_i hstrong
      exact hstrong.2
    · cases hc

theorem available_of_pos {s : Stance} (hs : 0 < effectiveStrength s) : s.available = true := by
  unfold effectiveStrength at hs
  split at hs
  · assumption
  · exact absurd hs (Nat.lt_irrefl 0)

/-- A bias is the lean of an available stance that is the stronger one. -/
theorem judgeDirectionalBias_winner {c : Consensus} (hbias : judgeDirectionalBias bull bear c ≠ .hold) :
    ∃ winner loser, (winner = bull ∧ loser = bear ∨ winner = bear ∧ loser = bull) ∧
      winner.available = true ∧ effectiveStrength loser < effectiveStrength winner ∧
      judgeDirectionalBias bull bear c = biasOf winner.lean := by
  unfold judgeDirectionalBias at hbias ⊢
  split
  · rename_i hcontested
    rw [if_pos hcontested] at hbias
    exact absurd rfl hbias
  · rename_i hcontested
    rw [if_neg hcontested] at hbias
    split
    · rename_i hbull
      exact ⟨bull, bear, .inl ⟨rfl, rfl⟩, available_of_pos (Nat.zero_lt_of_lt hbull), hbull, rfl⟩
    · rename_i hbull
      rw [if_neg hbull] at hbias
      split
      · rename_i hbear
        exact ⟨bear, bull, .inr ⟨rfl, rfl⟩, available_of_pos (Nat.zero_lt_of_lt hbear), hbear, rfl⟩
      · rename_i hbear
        rw [if_neg hbear] at hbias
        exact absurd rfl hbias

theorem judgeDirectionalBias_swap {c : Consensus} :
    judgeDirectionalBias bear bull c = judgeDirectionalBias bull bear c := by
  unfold judgeDirectionalBias
  split_ifs <;> first | rfl | omega

end

/-- The Judge's verdict on two stances: a bias is that of the stronger side, which has an available
stance; more strength and more separation make for no less conviction, a contested debate for less
than one that is settled; and it does not matter which side is which. -/
theorem judge_verdict {r : ℚ → ℚ} (h : Host) (hr : F64.RoundsBy h.rnd r) (bull bear : Stance) :
    (judgeDirectionalBias bull bear (classifyConsensus bull bear) ≠ .hold →
      ∃ winner loser, (winner = bull ∧ loser = bear ∨ winner = bear ∧ loser = bull) ∧
        winner.available = true ∧ effectiveStrength loser < effectiveStrength winner ∧
        judgeDirectionalBias bull bear (classifyConsensus bull bear) = biasOf winner.lean) ∧
    (∀ bull' bear', winning bull bear ≤ winning bull' bear' → gap bull bear ≤ gap bull' bear' →
      classifyConsensus bull' bear' ≠ .contested →
      deriveConviction h bull bear (classifyConsensus bull bear) ≤
          deriveConviction h bull' bear' (classifyConsensus bull' bear') ∧
        (classifyConsensus bull bear = .contested → classifyConsensus bull' bear' = .strongAgree →
          deriveConviction h bull bear .contested < deriveConviction h bull' bear' .strongAgree)) ∧
    classifyConsensus bear bull = classifyConsensus bull bear ∧
    (∀ c, deriveConviction h bear bull c = deriveConviction h bull bear c) ∧
    ∀ c, judgeDirectionalBias bear bull c = judgeDirectionalBias bull bear c := by
  refine ⟨judgeDirectionalBias_winner, fun bull' bear' hwin hgap hcontested => ⟨?_, ?_⟩,
    classifyConsensus_swap, fun c => ?_, fun c => judgeDirectionalBias_swap⟩
  · exact deriveConviction_mono hr hwin hgap (penalty_of_ne hcontested)
  · exact fun _ hagree => contested_less hr hwin hgap (strong_of_strongAgree hagree) rfl
  · rw [deriveConviction, deriveConviction, winning_swap, gap_swap]

/-- A long and a short stance of some strengths. -/
def longStance (strength : ℕ) : Stance := ⟨"bull", "long", strength, [], "", true⟩

def shortStance (strength : ℕ) : Stance := ⟨"bear", "short", strength, [], "", true⟩

theorem judge_verdict_long :
    (∃ winner : Stance, judgeDirectionalBias (longStance 80) (shortStance 40) .strongAgree =
      biasOf winner.lean ∧ winner.available = true) ∧
    deriveConviction sampleHost (longStance 70) (shortStance 65) .contested <
      deriveConviction sampleHost (longStance 80) (shortStance 40) .strongAgree := by
  have hagree : classifyConsensus (longStance 80) (shortStance 40) = .strongAgree := by decide
  have hcontested : classifyConsensus (longStance 70) (shortStance 65) = .contested := by decide
  obtain ⟨hbias, -, -⟩ := judge_verdict sampleHost F64.RoundsBy.exact (longStance 80) (shortStance 40)
  obtain ⟨-, hless, -⟩ := judge_verdict sampleHost F64.RoundsBy.exact (longStance 70) (shortStance 65)
  rw [hagree] at hbias
  obtain ⟨winner, -, -, havailable, -, hwinner⟩ := hbias (by decide)
  refine ⟨⟨winner, hwinner, havailable⟩, ?_⟩
  exact (hless (longStance 80) (shortStance 40) (by decide) (by decide)
    (by rw [hagree]; decide)).2 hcontested hagree

end AiTrader.Agent
