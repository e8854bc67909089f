import AiTrader.Library.Keyed
import AiTrader.MarketData.Conviction
import Mathlib.Algebra.Order.Group.MinMax

/-! # The decision engine

`src/aggregator/src`: the last sentiment of a symbol (`state.rs`) is blended with each technical
signal of it (`engine.rs`) as the messages of both topics come in (`consumer.rs`).  Doubles are
rounded by `rnd`.

* `calculateDecision`: `calculate_decision`.
* `handle`, `run`: `run_consumer_loop`.
* `decisions_replayed`: the decisions of a run, one for each signal, and symbol by symbol.
* `decision_exact`: a decision against exact arithmetic. -/

namespace AiTrader.Decision

open Keyed Technical

/-- `NewsSentiment`. -/
structure NewsSentiment where
  symbol : String
  claudeConvictionScore : ℤ
deriving DecidableEq

inductive ActionType where
  | buy
  | sell
  | hold
deriving DecidableEq, Repr

/-- `AggregatedDecision`. -/
structure AggregatedDecision where
  symbol : String
  timestampMs : Int64
  finalConvictionScore : ℤ
  technicalWeightUsed : F64
  sentimentWeightUsed : F64
  actionType : ActionType
deriving DecidableEq

/-- `x.round().clamp(1.0, 100.0) as i32`. -/
def clampScore : F64 → ℤ
  | .nan => 0
  | .negInf => 1
  | .posInf => 100
  | .fin q => max 1 (min 100 (roundHalfAway q))

/-- The action of a score. -/
def mapAction (score : F64) : ActionType :=
  if F64.lt (.fin 65) score then .buy else if F64.lt score (.fin 35) then .sell else .hold

section
variable (rnd : ℚ → F64)

/-- The weights of technical signal and sentiment; strong news inverts them. -/
def weights (convictionOverride : Bool) : F64 × F64 :=
  if convictionOverride then (rnd (3 / 10), rnd (7 / 10)) else (rnd (7 / 10), rnd (3 / 10))

/-- The weighted sum of both scores, drawn to neutral if they are in conflict. -/
def blend (techScore sentScore : ℤ) : F64 :=
  let convictionOverride := decide (85 < sentScore)
  let w := weights rnd convictionOverride
  let blended := F64.add rnd (F64.mul rnd (.fin techScore) w.1) (F64.mul rnd (.fin sentScore) w.2)
  let isConflict := F64.lt (.fin techScore) (.fin 20) && decide (80 < sentScore)
  if isConflict && !convictionOverride then
    F64.sub rnd blended (F64.mul rnd (F64.sub rnd blended (.fin 50)) (rnd (3 / 5)))
  else blended

/-- The score of a signal before it is made whole, and the weights used. -/
def finalScore (tech : TechSignal) : Option NewsSentiment → F64 × F64 × F64
  | none => (.fin tech.technicalConvictionScore, .fin 1, .fin 0)
  | some sentiment =>
      (blend rnd tech.technicalConvictionScore sentiment.claudeConvictionScore,
        weights rnd (decide (85 < sentiment.claudeConvictionScore)))

/-- `calculate_decision`. -/
def calculateDecision (tech : TechSignal) (latestSentiment : Option NewsSentiment) :
    AggregatedDecision :=
  let (score, techWeight, sentWeight) := finalScore rnd tech latestSentiment
  { symbol := tech.symbol
    timestampMs := tech.timestampMs
    finalConvictionScore := clampScore score
    technicalWeightUsed := techWeight
    sentimentWeightUsed := sentWeight
    actionType := mapAction score }

/-- A message of the consumer; `none` where the payload is missing or cannot be decoded. -/
inductive Message where
  | technical (signal : Option TechSignal)
  | sentiment (news : Option NewsSentiment)
  | unexpected
deriving DecidableEq

/-- One turn of `run_consumer_loop`, with the decisions it publishes. -/
def handle (state : Bank String NewsSentiment) :
    Message → Bank String NewsSentiment × List AggregatedDecision
  | .technical (some signal) =>
      (state, [calculateDecision rnd signal (state.get signal.symbol)])
  | .sentiment (some sentiment) => (state.set sentiment.symbol sentiment, [])
  | _ => (state, [])

/-- The loop from an empty state. -/
def run (ms : List Message) : Bank String NewsSentiment × List AggregatedDecision :=
  Keyed.run (handle rnd) Table.empty ms

end

/-! ### Runs -/

/-- The sentiment a message brings for a symbol. -/
def Message.sentimentOf (symbol : String) : Message → Option NewsSentiment
  | .sentiment (some news) => if news.symbol = symbol then some news else none
  | _ => none

/-- The symbol of a message that has been decoded. -/
def Message.symbol? : Message → Option String
  | .technical signal => signal.map TechSignal.symbol
  | .sentiment news => news.map NewsSentiment.symbol
  | .unexpected => none

/-- The last sentiment for a symbol. -/
def lastSentiment (symbol : String) (ms : List Message) : Option NewsSentiment :=
  ms.reverse.findSome? (Message.sentimentOf symbol)

/-- What is decided at a message, by the messages before it. -/
def decidedAt (rnd : ℚ → F64) (ms : List Message) (i : ℕ) : Option AggregatedDecision :=
  match ms[i]? with
  | some (.technical (some signal)) =>
      some (calculateDecision rnd signal (lastSentiment signal.symbol (ms.take i)))
  | _ => none

section
variable {rnd : ℚ → F64} {ms : List Message} {m : Message} {symbol : String}

theorem run_concat :
    run rnd (ms ++ [m]) =
      ((handle rnd (run rnd ms).1 m).1, (run rnd ms).2 ++ (handle rnd (run rnd ms).1 m).2) :=
  Keyed.run_concat

theorem lastSentiment_concat :
    lastSentiment symbol (ms ++ [m]) = (m.sentimentOf symbol).or (lastSentiment symbol ms) := by
  rw [lastSentiment, List.reverse_append, List.reverse_singleton, List.singleton_append,
    List.findSome?_cons]
  cases m.sentimentOf symbol <;> rfl

theorem get_handle (state : Bank String NewsSentiment) (m : Message) :
    (handle rnd state m).1.get symbol = (m.sentimentOf symbol).or (state.get symbol) := by
  match m with
  | .technical (some _) => rfl
  | .technical none => rfl
  | .sentiment none => rfl
  | .unexpected => rfl
  | .sentiment (some sentiment) =>
      rw [handle, Bank.get_set, Message.sentimentOf]
      by_cases h : sentiment.symbol = symbol
      · rw [if_pos h.symm, if_pos h, Option.some_or]
      · rw [if_neg (Ne.symm h), if_neg h, Option.none_or]

theorem get_run (symbol : String) (ms : List Message) :
    (run rnd ms).1.get symbol = lastSentiment symbol ms := by
  induction ms using List.reverseRecOn with
  | nil => rfl
  | append_singleton ms m ih => rw [run_concat, get_handle, ih, lastSentiment_concat]

theorem decidedAt_concat_of_lt {i : ℕ} (hi : i < ms.length) :
    decidedAt rnd (ms ++ [m]) i = decidedAt rnd ms i := by
  rw [decidedAt, List.getElem?_append_left hi, List.take_append_of_le_length hi.le]
  rfl

theorem decidedAt_concat_length :
    (decidedAt rnd (ms ++ [m]) ms.length).toList = (handle rnd (run rnd ms).1 m).2 := by
  rw [decidedAt, List.getElem?_concat_length, List.take_left]
  match m with
  | .technical (some signal) => rw [handle, get_run, Option.toList_some]
  | .technical none => rfl
  | .sentiment (some _) => rfl
  | .sentiment none => rfl
  | .unexpected => rfl

theorem run_out (rnd : ℚ → F64) (ms : List Message) :
    (run rnd ms).2 = (List.range ms.length).filterMap (decidedAt rnd ms) := by
  induction ms using List.reverseRecOn with
  | nil => rfl
  | append_singleton ms m ih =>
      have hbefore : (List.range ms.length).filterMap (decidedAt rnd (ms ++ [m])) =
          (List.range ms.length).filterMap (decidedAt rnd ms) :=
        List.filterMap_congr fun i hi => decidedAt_concat_of_lt (List.mem_range.mp hi)
      rw [run_concat, ih, List.length_append, List.length_singleton, List.range_succ,
        List.filterMap_append, hbefore, ← decidedAt_concat_length]
      cases h : decidedAt rnd (ms ++ [m]) ms.length with
      | none => rw [List.filterMap_cons_none h]; rfl
      | some d => rw [List.filterMap_cons_some h]; rfl

/-- The engine of one symbol. -/
def symbolHandle (rnd : ℚ → F64) (latest : Option NewsSentiment) :
    Message → Option NewsSentiment × List AggregatedDecision
  | .technical (some signal) => (latest, [calculateDecision rnd signal latest])
  | .sentiment (some sentiment) => (some sentiment, [])
  | _ => (latest, [])

theorem handle_projection (rnd : ℚ → F64) :
    Projection (handle rnd) Message.symbol? (fun key state => key.bind state.get)
      (symbolHandle rnd) where
  own state m := by
    match m with
    | .technical (some _) => rfl
    | .technical none => rfl
    | .sentiment none => rfl
    | .unexpected => rfl
    | .sentiment (some sentiment) => exact (Bank.get_set _ _ _ _).trans (if_pos rfl)
  out state m := by
    match m with
    | .technical (some _) => rfl
    | .technical none => rfl
    | .sentiment none => rfl
    | .unexpected => rfl
    | .sentiment (some _) => rfl
  other state m key hkey := by
    cases key with
    | none => rfl
    | some symbol =>
        match m with
        | .technical (some _) => rfl
        | .technical none => rfl
        | .sentiment none => rfl
        | .unexpected => rfl
        | .sentiment (some sentiment) =>
            exact (Bank.get_set _ _ _ _).trans (if_neg fun h => hkey (congrArg some h))

theorem symbol_of_symbolHandle {latest : Option NewsSentiment} {d : AggregatedDecision}
    (hd : d ∈ (symbolHandle rnd latest m).2) : some d.symbol = m.symbol? := by
  match m, hd with
  | .technical (some signal), hd =>
      rw [List.mem_singleton.mp hd]
      rfl

theorem filter_run (rnd : ℚ → F64) (ms : List Message) (symbol : String) :
    (run rnd ms).2.filter (fun d => decide (d.symbol = symbol)) =
      (run rnd (ms.filter fun m => decide (m.symbol? = some symbol))).2 := by
  have hkey := (handle_projection rnd).filter_run (s := Table.empty) (I := fun _ _ => True)
    (fun _ => trivial) (fun _ _ _ => trivial) (fun _ _ _ _ hd => symbol_of_symbolHandle hd) ms
    (some symbol)
  have hall : ∀ m ∈ ms.filter (fun m => decide (m.symbol? = some symbol)),
      m.symbol? = some symbol := fun m hm => of_decide_eq_true (List.mem_filter.mp hm).2
  rw [run, run, (handle_projection rnd).out_of_forall_key hall, ← hkey]
  simp

/-- **A decision is the last word of its own symbol.**  Each technical signal that can be decoded is
decided once, in turn, with the last sentiment of its symbol that came before it; and for a symbol
the decisions are those of a run in which only the messages of that symbol come in. -/
theorem decisions_replayed (rnd : ℚ → F64) (ms : List Message) :
    (run rnd ms).2 = (List.range ms.length).filterMap (decidedAt rnd ms) ∧
      ∀ symbol, (run rnd ms).2.filter (fun d => decide (d.symbol = symbol)) =
        (run rnd (ms.filter fun m => decide (m.symbol? = some symbol))).2 :=
  ⟨run_out rnd ms, filter_run rnd ms⟩

end

/-! ### Against exact arithmetic -/

/-- The blend in exact arithmetic. -/
def exactBlend (techScore sentScore : ℤ) : ℚ :=
  if 85 < sentScore then (3 * techScore + 7 * sentScore) / 10
  else if techScore < 20 ∧ 80 < sentScore then 30 + (7 * techScore + 3 * sentScore) / 25
  else (7 * techScore + 3 * sentScore) / 10

/-- The score in exact arithmetic. -/
def exactScore (tech : TechSignal) (latestSentiment : Option NewsSentiment) : ℚ :=
  latestSentiment.elim (tech.technicalConvictionScore : ℚ) fun sentiment =>
    exactBlend tech.technicalConvictionScore sentiment.claudeConvictionScore

/-- The action of a score in exact arithmetic. -/
def exactAction (x : ℚ) : ActionType := if 65 < x then .buy else if x < 35 then .sell else .hold

section
variable {rnd : ℚ → F64} {r : ℚ → ℚ} {c e q x : ℚ} {t s : ℤ}

theorem weight_near (h : F64.RoundsBy rnd r) (h0 : 0 ≤ c) (h1 : c ≤ 1) :
    rnd c = .fin (r c) ∧ |r c - c| ≤ 1 / 2 ^ 52 ∧ |r c| ≤ 1 := by
  have habs : |c| ≤ 1 := abs_le.mpr ⟨by linarith, h1⟩
  refine ⟨h.rnd c (habs.trans (by norm_num)), h.rounding.close (by norm_num) ?_, ?_⟩
  · rw [abs_of_nonneg (by positivity)]
    norm_num
    linarith
  · exact h.rounding.abs_le_of h.rounding.one habs

theorem score_abs (ht : |t| ≤ 2 ^ 31) : |(t : ℚ)| ≤ 2 ^ 31 := by exact_mod_cast ht

theorem weighted_near (h : F64.RoundsBy rnd r) (ht : |t| ≤ 2 ^ 31) (h0 : 0 ≤ c) (h1 : c ≤ 1) :
    ∃ q, F64.mul rnd (.fin t) (rnd c) = .fin q ∧ |q - t * c| ≤ 1 / 2 ^ 19 := by
  obtain ⟨hc, hnear, hc1⟩ := weight_near h h0 h1
  have ht' := score_abs ht
  have hprod : |t * c| ≤ 2 ^ 31 := by
    rw [abs_mul, abs_of_nonneg h0]
    exact (mul_le_of_le_one_right (abs_nonneg _) h1).trans ht'
  have hsize : |(t : ℚ) * r c| ≤ 2 ^ 31 := by
    rw [abs_mul]
    exact (mul_le_of_le_one_right (abs_nonneg _) hc1).trans ht'
  have hmul := h.rounding.near_mul (j := 20) (x := t) (a := t) (d := 0) (by norm_num) (by simp)
    hnear hc1 (by norm_num at ht' hprod ⊢; linarith)
  refine ⟨r (t * r c), ?_, hmul.trans ?_⟩
  · rw [hc, F64.mul_fin]
    exact h.rnd _ (hsize.trans (by norm_num))
  · norm_num at ht' ⊢
    linarith

theorem blended_near (h : F64.RoundsBy rnd r) (ht : |t| ≤ 2 ^ 31) (hs : |s| ≤ 2 ^ 31) (hc : 0 ≤ c)
    (he : 0 ≤ e) (hce : c + e = 1) :
    ∃ q, F64.add rnd (F64.mul rnd (.fin t) (rnd c)) (F64.mul rnd (.fin s) (rnd e)) = .fin q ∧
      |q - (t * c + s * e)| ≤ 1 / 2 ^ 17 ∧ |t * c + s * e| ≤ 2 ^ 31 := by
  obtain ⟨x, hx, hxnear⟩ := weighted_near h ht hc (by linarith)
  obtain ⟨y, hy, hynear⟩ := weighted_near h hs he (by linarith)
  have hsum : |t * c + s * e| ≤ 2 ^ 31 := by
    have ht' := mul_le_mul_of_nonneg_right (score_abs ht) hc
    have hs' := mul_le_mul_of_nonneg_right (score_abs hs) he
    have htri := abs_add_le (t * c) (s * e)
    rw [abs_mul, abs_mul, abs_of_nonneg hc, abs_of_nonneg he] at htri
    calc |t * c + s * e| ≤ |(t : ℚ)| * c + |(s : ℚ)| * e := htri
      _ ≤ 2 ^ 31 * c + 2 ^ 31 * e := add_le_add ht' hs'
      _ = 2 ^ 31 := by rw [← mul_add, hce, mul_one]
  have hadd := h.rounding.near_add (j := 20) (by norm_num) hxnear hynear
    (by norm_num at hsum ⊢; linarith)
  have hxy : |x + y - (t * c + s * e)| ≤ 2 ^ 33 := by
    have htri := abs_add_le (x - t * c) (y - s * e)
    rw [show x - t * c + (y - s * e) = x + y - (t * c + s * e) by ring] at htri
    norm_num at htri hxnear hynear ⊢
    linarith
  refine ⟨r (x + y), ?_, hadd.trans (by norm_num), hsum⟩
  rw [hx, hy, F64.add_fin]
  exact h.of_near hxy (hsum.trans (by norm_num))

theorem drawn_near (h : F64.RoundsBy rnd r) (hq : |q - x| ≤ 1 / 2 ^ 17) (hx : |x| ≤ 2 ^ 31) :
    ∃ p, F64.sub rnd (.fin q) (F64.mul rnd (F64.sub rnd (.fin q) (.fin 50)) (rnd (3 / 5))) =
        .fin p ∧ |p - (x - (x - 50) * (3 / 5))| ≤ 1 / 2 ^ 10 := by
  obtain ⟨hc, hcnear, hc1⟩ := weight_near (c := 3 / 5) h (by norm_num) (by norm_num)
  obtain ⟨hlow, hhigh⟩ := abs_le.mp hx
  obtain ⟨hqlow, hqhigh⟩ := abs_le.mp hq
  -- the distance to neutral
  have hx50 : |x + -50| ≤ 2 ^ 32 := abs_le.mpr ⟨by norm_num at hlow ⊢; linarith,
    by norm_num at hhigh ⊢; linarith⟩
  have hdist := h.rounding.near_add (j := 19) (y := -50) (b := -50) (e := 0) (by norm_num) hq
    (by norm_num) (by norm_num at hx50 ⊢; linarith)
  have hfirst : F64.sub rnd (.fin q) (.fin 50) = .fin (r (q + -50)) := by
    rw [F64.sub_fin, sub_eq_add_neg]
    exact h.of_near (p := x) (abs_le.mpr ⟨by norm_num at hqlow ⊢; linarith,
      by norm_num at hqhigh ⊢; linarith⟩) (hx.trans (by norm_num))
  -- the penalty
  have hprod : |(x + -50) * (3 / 5)| ≤ 2 ^ 32 := by
    rw [abs_mul, abs_of_pos (by norm_num : (0 : ℚ) < 3 / 5)]
    norm_num at hx50 ⊢
    linarith [abs_nonneg (x + -50)]
  have hpen := h.rounding.near_mul (j := 19) (by norm_num) hdist hcnear hc1
    (by norm_num at hx50 hprod ⊢; linarith)
  have hdist1 : |r (q + -50)| ≤ 2 ^ 33 := by
    have htri := abs_add_le (r (q + -50) - (x + -50)) (x + -50)
    rw [sub_add_cancel] at htri
    norm_num at htri hdist hx50 ⊢
    linarith
  have hsecond : F64.mul rnd (.fin (r (q + -50))) (rnd (3 / 5)) =
      .fin (r (r (q + -50) * r (3 / 5))) := by
    rw [hc, F64.mul_fin]
    refine h.rnd _ ?_
    rw [abs_mul]
    refine (mul_le_of_le_one_right (abs_nonneg _) hc1).trans (hdist1.trans (by norm_num))
  have hpen1 : |r (r (q + -50) * r (3 / 5)) - (x + -50) * (3 / 5)| ≤ 1 / 2 ^ 15 := by
    refine hpen.trans ?_
    norm_num at hx50 ⊢
    linarith
  -- the blend without it
  have hrest : |x + -((x + -50) * (3 / 5))| ≤ 2 ^ 32 := abs_le.mpr
    ⟨by norm_num at hlow ⊢; linarith, by norm_num at hhigh ⊢; linarith⟩
  have hneg : |-r (r (q + -50) * r (3 / 5)) - -((x + -50) * (3 / 5))| ≤ 1 / 2 ^ 15 := by
    rw [← neg_sub', abs_neg]
    exact hpen1
  have hsub := h.rounding.near_add (j := 19) (by norm_num) hq hneg
    (by norm_num at hrest ⊢; linarith)
  refine ⟨r (q + -r (r (q + -50) * r (3 / 5))), ?_, ?_⟩
  · rw [hfirst, hsecond, F64.sub_fin, sub_eq_add_neg]
    refine h.of_near (p := x + -((x + -50) * (3 / 5))) ?_ (hrest.trans (by norm_num))
    have htri := abs_add_le (q - x)
      (-r (r (q + -50) * r (3 / 5)) - -((x + -50) * (3 / 5)))
    rw [show q - x + (-r (r (q + -50) * r (3 / 5)) - -((x + -50) * (3 / 5))) =
      q + -r (r (q + -50) * r (3 / 5)) - (x + -((x + -50) * (3 / 5))) by ring] at htri
    norm_num at htri hq hneg ⊢
    linarith
  · rw [show x - (x - 50) * (3 / 5) = x + -((x + -50) * (3 / 5)) by ring]
    exact hsub.trans (by norm_num)

theorem blend_near (h : F64.RoundsBy rnd r) (ht : |t| ≤ 2 ^ 31) (hs : |s| ≤ 2 ^ 31) :
    ∃ q, blend rnd t s = .fin q ∧ |q - exactBlend t s| ≤ 1 / 2 ^ 10 := by
  by_cases hover : 85 < s
  · obtain ⟨q, hq, hnear, -⟩ := blended_near (c := 3 / 10) (e := 7 / 10) h ht hs (by norm_num)
      (by norm_num) (by norm_num)
    refine ⟨q, by simpa [blend, weights, hover] using hq, ?_⟩
    rw [exactBlend, if_pos hover,
      show (3 * t + 7 * s : ℚ) / 10 = t * (3 / 10) + s * (7 / 10) by ring]
    exact hnear.trans (by norm_num)
  · obtain ⟨q, hq, hnear, hsum⟩ := blended_near (c := 7 / 10) (e := 3 / 10) h ht hs (by norm_num)
      (by norm_num) (by norm_num)
    have hmean : (7 * t + 3 * s : ℚ) / 10 = t * (7 / 10) + s * (3 / 10) := by ring
    by_cases hconflict : t < 20 ∧ 80 < s
    · obtain ⟨p, hp, hpnear⟩ := drawn_near h hnear hsum
      have ht20 : (t : ℚ) < 20 := by exact_mod_cast hconflict.1
      refine ⟨p, ?_, ?_⟩
      · simp only [blend, weights, hover, hconflict.2, decide_false, Bool.false_eq_true, if_false,
          hq, F64.lt_fin, ht20, decide_true, Bool.and_self, Bool.not_false, if_true, hp]
      · rw [exactBlend, if_neg hover, if_pos hconflict, show (30 + (7 * t + 3 * s) / 25 : ℚ) =
          t * (7 / 10) + s * (3 / 10) - (t * (7 / 10) + s * (3 / 10) - 50) * (3 / 5) by ring]
        exact hpnear
    · have hcalm : (decide ((t : ℚ) < 20) && decide (80 < s)) = false := by
        rw [Bool.eq_false_iff, Ne, Bool.and_eq_true, decide_eq_true_eq, decide_eq_true_eq]
        exact fun hboth => hconflict ⟨by exact_mod_cast hboth.1, hboth.2⟩
      refine ⟨q, ?_, ?_⟩
      · simp only [blend, weights, hover, decide_false, Bool.false_eq_true, if_false, F64.lt_fin,
          hcalm, Bool.false_and, hq]
      · rw [exactBlend, if_neg hover, if_neg hconflict, hmean]
        exact hnear.trans (by norm_num)

variable {tech : TechSignal} {latest : Option NewsSentiment}

theorem finalScore_near (h : F64.RoundsBy rnd r) (ht : |tech.technicalConvictionScore| ≤ 2 ^ 31)
    (hs : ∀ news ∈ latest, |news.claudeConvictionScore| ≤ 2 ^ 31) :
    ∃ q, (finalScore rnd tech latest).1 = .fin q ∧ |q - exactScore tech latest| ≤ 1 / 2 ^ 10 := by
  cases latest with
  | none => exact ⟨_, rfl, by simp [exactScore]⟩
  | some news => exact blend_near h ht (hs news rfl)

/-- An exact score is a multiple of a fiftieth. -/
theorem exactScore_grid (tech : TechSignal) (latest : Option NewsSentiment) :
    ∃ n : ℤ, exactScore tech latest = n / 50 := by
  cases latest with
  | none =>
      refine ⟨50 * tech.technicalConvictionScore, ?_⟩
      rw [exactScore, Option.elim_none]
      push_cast
      ring
  | some news =>
      rw [exactScore, Option.elim_some, exactBlend]
      generalize tech.technicalConvictionScore = t
      generalize news.claudeConvictionScore = s
      split
      · exact ⟨5 * (3 * t + 7 * s), by push_cast; ring⟩
      · split
        · exact ⟨1500 + 2 * (7 * t + 3 * s), by push_cast; ring⟩
        · exact ⟨5 * (7 * t + 3 * s), by push_cast; ring⟩

/-- Near a multiple of a fiftieth, other than a whole number, is its side of that number. -/
theorem side_of_grid {n k : ℤ} (hq : |q - n / 50| ≤ 1 / 2 ^ 10) (hk : (n : ℚ) / 50 ≠ k) :
    (k < q ↔ (k : ℚ) < n / 50) ∧ (q < k ↔ (n : ℚ) / 50 < k) := by
  obtain ⟨hlow, hhigh⟩ := abs_le.mp hq
  obtain hlt | hgt := lt_or_gt_of_ne hk
  · have hn : n + 1 ≤ 50 * k := by
      rw [div_lt_iff₀ (by norm_num)] at hlt
      have hlt' : n < k * 50 := by exact_mod_cast hlt
      omega
    have hn' : (n : ℚ) / 50 + 1 / 50 ≤ k := by
      have hcast : (n : ℚ) + 1 ≤ 50 * k := by exact_mod_cast hn
      linarith
    have hqk : q < k := by
      norm_num at hhigh
      linarith
    exact ⟨⟨fun hkq => absurd hkq hqk.not_gt, fun hkn => absurd hkn hlt.not_gt⟩,
      ⟨fun _ => hlt, fun _ => hqk⟩⟩
  · have hn : 50 * k + 1 ≤ n := by
      rw [lt_div_iff₀ (by norm_num)] at hgt
      have hgt' : k * 50 < n := by exact_mod_cast hgt
      omega
    have hn' : (k : ℚ) + 1 / 50 ≤ n / 50 := by
      have hcast : 50 * (k : ℚ) + 1 ≤ n := by exact_mod_cast hn
      linarith
    have hkq : k < q := by
      norm_num at hlow
      linarith
    exact ⟨⟨fun _ => hgt, fun _ => hkq⟩,
      ⟨fun hqk => absurd hqk hkq.not_gt, fun hnk => absurd hnk hgt.not_gt⟩⟩

theorem mapAction_fin (q : ℚ) : mapAction (.fin q) = exactAction q := by
  simp only [mapAction, exactAction, F64.lt_fin, decide_eq_true_eq]

theorem action_eq (hq : (finalScore rnd tech latest).1 = .fin q) :
    (calculateDecision rnd tech latest).actionType = exactAction q := by
  rw [← mapAction_fin, ← hq]
  rfl

theorem score_eq (hq : (finalScore rnd tech latest).1 = .fin q) :
    (calculateDecision rnd tech latest).finalConvictionScore =
      max 1 (min 100 (roundHalfAway q)) := by
  change clampScore (finalScore rnd tech latest).1 = _
  rw [hq]
  rfl

theorem exactAction_eq_buy : exactAction x = .buy ↔ 65 < x := by
  unfold exactAction
  split_ifs <;> simp_all

theorem exactAction_eq_sell : exactAction x = .sell ↔ x < 35 := by
  unfold exactAction
  split_ifs with hbuy hsell
  · simp only [false_iff, not_lt]
    linarith
  · simp_all
  · simp_all

theorem action_sides (h : F64.RoundsBy rnd r) (ht : |tech.technicalConvictionScore| ≤ 2 ^ 31)
    (hs : ∀ news ∈ latest, |news.claudeConvictionScore| ≤ 2 ^ 31) :
    (65 < exactScore tech latest → (calculateDecision rnd tech latest).actionType = .buy) ∧
      (exactScore tech latest < 65 → (calculateDecision rnd tech latest).actionType ≠ .buy) ∧
      (35 < exactScore tech latest → (calculateDecision rnd tech latest).actionType ≠ .sell) ∧
      (exactScore tech latest < 35 → (calculateDecision rnd tech latest).actionType = .sell) := by
  obtain ⟨q, hq, hnear⟩ := finalScore_near h ht hs
  obtain ⟨n, hn⟩ := exactScore_grid tech latest
  rw [hn] at hnear ⊢
  have h65 := side_of_grid (k := 65) hnear
  have h35 := side_of_grid (k := 35) hnear
  push_cast at h65 h35
  rw [action_eq hq]
  refine ⟨fun hx => ?_, fun hx => ?_, fun hx => ?_, fun hx => ?_⟩
  · exact exactAction_eq_buy.mpr ((h65 hx.ne').1.mpr hx)
  · exact fun hbuy => lt_asymm hx ((h65 hx.ne).1.mp (exactAction_eq_buy.mp hbuy))
  · exact fun hsell => lt_asymm hx ((h35 hx.ne').2.mp (exactAction_eq_sell.mp hsell))
  · exact exactAction_eq_sell.mpr ((h35 hx.ne).2.mpr hx)

/-- Away from a tie the action is that of exact arithmetic. -/
theorem action_exact (h : F64.RoundsBy rnd r) (ht : |tech.technicalConvictionScore| ≤ 2 ^ 31)
    (hs : ∀ news ∈ latest, |news.claudeConvictionScore| ≤ 2 ^ 31)
    (hbuy : exactScore tech latest ≠ 65) (hsell : exactScore tech latest ≠ 35) :
    (calculateDecision rnd tech latest).actionType = exactAction (exactScore tech latest) := by
  obtain ⟨h1, h2, h3, h4⟩ := action_sides h ht hs
  rw [exactAction]
  split_ifs with hx65 hx35
  · exact h1 hx65
  · exact h4 hx35
  · have hnotbuy := h2 (lt_of_le_of_ne (not_lt.mp hx65) hbuy)
    have hnotsell := h3 (lt_of_le_of_ne (not_lt.mp hx35) hsell.symm)
    cases ha : (calculateDecision rnd tech latest).actionType with
    | buy => exact absurd ha hnotbuy
    | sell => exact absurd ha hnotsell
    | hold => rfl

theorem roundHalfAway_near (q : ℚ) : |(roundHalfAway q : ℚ) - q| ≤ 1 / 2 := by
  unfold roundHalfAway
  split
  · have hle := Int.floor_le (q + 1 / 2)
    have hlt := Int.lt_floor_add_one (q + 1 / 2)
    exact abs_le.mpr ⟨by linarith, by linarith⟩
  · have hle := Int.le_ceil (q - 1 / 2)
    have hlt := Int.ceil_lt_add_one (q - 1 / 2)
    exact abs_le.mpr ⟨by linarith, by linarith⟩

theorem clamp_sub_le (p q : ℚ) : |max 1 (min 100 p) - max 1 (min 100 q)| ≤ |p - q| := by
  have hmax := abs_max_sub_max_le_max (1 : ℚ) (min 100 p) 1 (min 100 q)
  have hmin := abs_min_sub_min_le_max (100 : ℚ) p 100 q
  rw [sub_self, abs_zero, max_eq_right (abs_nonneg (min 100 p - min 100 q))] at hmax
  rw [sub_self, abs_zero, max_eq_right (abs_nonneg (p - q))] at hmin
  exact hmax.trans hmin

theorem score_near (h : F64.RoundsBy rnd r) (ht : |tech.technicalConvictionScore| ≤ 2 ^ 31)
    (hs : ∀ news ∈ latest, |news.claudeConvictionScore| ≤ 2 ^ 31) :
    |((calculateDecision rnd tech latest).finalConvictionScore : ℚ) -
      max 1 (min 100 (exactScore tech latest))| ≤ 51 / 100 := by
  obtain ⟨q, hq, hnear⟩ := finalScore_near h ht hs
  rw [score_eq hq]
  push_cast
  have hround := roundHalfAway_near q
  have htri := abs_add_le ((roundHalfAway q : ℚ) - q) (q - exactScore tech latest)
  rw [sub_add_sub_cancel] at htri
  refine (clamp_sub_le _ _).trans (htri.trans ?_)
  norm_num at hnear
  linarith

/-- The whole number shown is on the side of the action. -/
theorem score_of_action (h : F64.RoundsBy rnd r) (ht : |tech.technicalConvictionScore| ≤ 2 ^ 31)
    (hs : ∀ news ∈ latest, |news.claudeConvictionScore| ≤ 2 ^ 31) :
    ((calculateDecision rnd tech latest).actionType = .buy →
      65 ≤ (calculateDecision rnd tech latest).finalConvictionScore) ∧
    ((calculateDecision rnd tech latest).actionType = .sell →
      (calculateDecision rnd tech latest).finalConvictionScore ≤ 35) := by
  obtain ⟨q, hq, -⟩ := finalScore_near h ht hs
  rw [action_eq hq, score_eq hq, exactAction_eq_buy, exactAction_eq_sell]
  have h65 : roundHalfAway 65 = 65 := by norm_num [roundHalfAway, Int.floor_eq_iff]
  have h35 : roundHalfAway 35 = 35 := by norm_num [roundHalfAway, Int.floor_eq_iff]
  constructor
  · intro hbuy
    have hle := roundHalfAway_mono hbuy.le
    omega
  · intro hsell
    have hle := roundHalfAway_mono hsell.le
    omega

/-! ### What is never decided -/

/-- The scores of a message are out of 100. -/
def Message.OutOf100 : Message → Prop
  | .technical (some signal) =>
      0 ≤ signal.technicalConvictionScore ∧ signal.technicalConvictionScore ≤ 100
  | .sentiment (some news) => 0 ≤ news.claudeConvictionScore ∧ news.claudeConvictionScore ≤ 100
  | _ => True

instance (m : Message) : Decidable m.OutOf100 := by
  unfold Message.OutOf100
  split <;> infer_instance

theorem mem_of_lastSentiment {symbol : String} {ms : List Message} {news : NewsSentiment}
    (hnews : lastSentiment symbol ms = some news) :
    .sentiment (some news) ∈ ms ∧ news.symbol = symbol := by
  obtain ⟨m, hm, hof⟩ := List.exists_of_findSome?_eq_some hnews
  unfold Message.sentimentOf at hof
  split at hof
  · split at hof
    · cases hof
      exact ⟨List.mem_reverse.mp hm, ‹_›⟩
    · cases hof
  · cases hof

/-- What a decision on scores out of 100 guards against. -/
structure Guarded (tech : ℤ) (news : Option ℤ) (action : ActionType) : Prop where
  buy : action = .buy → 57 ≤ tech ∨ ∃ s ∈ news, 85 < s
  sell : action = .sell → tech ≤ 50 ∧ ∀ s ∈ news, s ≤ 85
  conflict : ∀ s ∈ news, tech < 20 → 80 < s → s ≤ 85 → action = .hold
  override : ∀ s ∈ news, 93 ≤ s → action = .buy

theorem exactBlend_le (ht : t ≤ 56) (hs : s ≤ 85) : exactBlend t s ≤ 647 / 10 := by
  have ht' : (t : ℚ) ≤ 56 := by exact_mod_cast ht
  have hs' : (s : ℚ) ≤ 85 := by exact_mod_cast hs
  unfold exactBlend
  split
  · omega
  · split <;> linarith

theorem exactBlend_ge (ht0 : 0 ≤ t) (hs0 : 0 ≤ s) (h : 51 ≤ t ∨ 85 < s) :
    357 / 10 ≤ exactBlend t s := by
  have ht' : (0 : ℚ) ≤ t := by exact_mod_cast ht0
  have hs' : (0 : ℚ) ≤ s := by exact_mod_cast hs0
  unfold exactBlend
  split
  · rename_i hover
    have hs'' : (86 : ℚ) ≤ s := by exact_mod_cast hover
    linarith
  · obtain ht51 | hover := h
    · have ht'' : (51 : ℚ) ≤ t := by exact_mod_cast ht51
      split
      · omega
      · linarith
    · omega

theorem exactBlend_conflict (ht0 : 0 ≤ t) (ht : t < 20) (hs0 : 80 < s) (hs : s ≤ 85) :
    39 ≤ exactBlend t s ∧ exactBlend t s ≤ 46 := by
  have ht0' : (0 : ℚ) ≤ t := by exact_mod_cast ht0
  have ht' : (t : ℚ) ≤ 19 := by exact_mod_cast Int.le_sub_one_of_lt ht
  have hs0' : (81 : ℚ) ≤ s := by exact_mod_cast hs0
  have hs' : (s : ℚ) ≤ 85 := by exact_mod_cast hs
  rw [exactBlend, if_neg (not_lt.mpr hs), if_pos ⟨ht, hs0⟩]
  constructor
  · linarith
  · linarith

theorem exactBlend_override (ht0 : 0 ≤ t) (hs : 93 ≤ s) : 651 / 10 ≤ exactBlend t s := by
  have ht' : (0 : ℚ) ≤ t := by exact_mod_cast ht0
  have hs' : (93 : ℚ) ≤ s := by exact_mod_cast hs
  rw [exactBlend, if_pos (by omega)]
  linarith

theorem guarded (h : F64.RoundsBy rnd r)
    (ht : 0 ≤ tech.technicalConvictionScore ∧ tech.technicalConvictionScore ≤ 100)
    (hs : ∀ news ∈ latest, 0 ≤ news.claudeConvictionScore ∧ news.claudeConvictionScore ≤ 100) :
    Guarded tech.technicalConvictionScore (latest.map NewsSentiment.claudeConvictionScore)
      (calculateDecision rnd tech latest).actionType := by
  have hword : ∀ k : ℤ, 0 ≤ k ∧ k ≤ 100 → |k| ≤ 2 ^ 31 := fun k hk =>
    abs_le.mpr ⟨by omega, by omega⟩
  obtain ⟨hbuy, hnotbuy, hnotsell, -⟩ :=
    action_sides h (hword _ ht) fun news hnews => hword _ (hs news hnews)
  generalize (calculateDecision rnd tech latest).actionType = action at hbuy hnotbuy hnotsell ⊢
  cases latest with
  | none =>
      simp only [exactScore, Option.elim_none] at hnotbuy hnotsell
      refine ⟨fun ha => .inl (not_lt.mp fun hlow => hnotbuy ?_ ha),
        fun ha => ⟨not_lt.mp fun hhigh => hnotsell ?_ ha, by simp⟩, by simp, by simp⟩
      · have hlow' : (tech.technicalConvictionScore : ℚ) < 57 := by exact_mod_cast hlow
        linarith
      · have hhigh' : (50 : ℚ) < tech.technicalConvictionScore := by exact_mod_cast hhigh
        linarith
  | some news =>
      have hnews := hs news rfl
      simp only [exactScore, Option.elim_some] at hbuy hnotbuy hnotsell
      simp only [Option.map_some]
      refine ⟨fun ha => ?_, fun ha => ?_, ?_, ?_⟩
      · by_contra hnone
        simp only [Option.mem_some_iff, exists_eq_left', not_or, not_le, not_lt] at hnone
        have hle := exactBlend_le (Int.le_of_lt_add_one hnone.1) hnone.2
        exact hnotbuy (by linarith) ha
      · by_contra hnone
        have hsome : 51 ≤ tech.technicalConvictionScore ∨ 85 < news.claudeConvictionScore := by
          simp only [Option.mem_some_iff, forall_eq'] at hnone
          omega
        have hge := exactBlend_ge ht.1 hnews.1 hsome
        exact hnotsell (by linarith) ha
      · intro s hmem hlow hbull hcalm
        obtain rfl := Option.mem_some_iff.mp hmem
        obtain ⟨h39, h46⟩ := exactBlend_conflict ht.1 hlow hbull hcalm
        have h1 := hnotbuy (by linarith)
        have h2 := hnotsell (by linarith)
        cases action with
        | buy => exact absurd rfl h1
        | sell => exact absurd rfl h2
        | hold => rfl
      · intro s hmem hstrong
        obtain rfl := Option.mem_some_iff.mp hmem
        have hge := exactBlend_override ht.1 hstrong
        exact hbuy (by linarith)

theorem decidedAt_eq_some {ms : List Message} {i : ℕ} {d : AggregatedDecision}
    (hd : decidedAt rnd ms i = some d) :
    ∃ tech, ms[i]? = some (.technical (some tech)) ∧
      d = calculateDecision rnd tech (lastSentiment tech.symbol (ms.take i)) := by
  unfold decidedAt at hd
  split at hd
  · rename_i signal hm
    cases hd
    exact ⟨signal, hm, rfl⟩
  · cases hd

end

/-- **A decision is that of exact arithmetic.**  Whatever the two scores, as 32-bit integers, the
action is that of the score in exact arithmetic unless this is 65 or 35 itself; the score shown is
within 0.51 of the exact one, clamped to `[1, 100]`; and action and shown score agree. -/
theorem decision_exact (rnd : ℚ → F64) (r : ℚ → ℚ) (h : F64.RoundsBy rnd r) (tech : TechSignal)
    (latest : Option NewsSentiment) (ht : |tech.technicalConvictionScore| ≤ 2 ^ 31)
    (hs : ∀ news ∈ latest, |news.claudeConvictionScore| ≤ 2 ^ 31) :
    let d := calculateDecision rnd tech latest
    let x := exactScore tech latest
    (x ≠ 65 → x ≠ 35 → d.actionType = exactAction x) ∧
      |(d.finalConvictionScore : ℚ) - max 1 (min 100 x)| ≤ 51 / 100 ∧
      (d.actionType = .buy → 65 ≤ d.finalConvictionScore) ∧
      (d.actionType = .sell → d.finalConvictionScore ≤ 35) :=
  ⟨action_exact h ht hs, score_near h ht hs, score_of_action h ht hs⟩

/-- A bearish signal. -/
def bearishSignal : TechSignal :=
  { symbol := "HDFCBANK", timestampMs := 1700000000000, rsiValue := .fin 20
    vwapDistance := .fin 0, technicalConvictionScore := 15 }

/-- Bullish news below the override. -/
def bullishNews : NewsSentiment := { symbol := "HDFCBANK", claudeConvictionScore := 82 }

theorem decision_exact_conflict :
    (calculateDecision .fin bearishSignal (some bullishNews)).actionType = .hold := by
  have hx : exactScore bearishSignal (some bullishNews) = 1101 / 25 := by
    norm_num [exactScore, exactBlend, bearishSignal, bullishNews]
  obtain ⟨haction, -⟩ := decision_exact .fin id .exact bearishSignal (some bullishNews)
    (by decide) (by simp [bullishNews])
  rw [hx] at haction
  exact (haction (by norm_num) (by norm_num)).trans (by norm_num [exactAction])

/-- **What the engine never decides.**  In a run on scores out of 100 each decision is the one made
at a signal, with the last news of its symbol before that signal: it buys only on a technical
score of 57 or more or on news above 85; it sells only on one of 50 or less, without news above 85;
it holds if a technical score below 20 meets news above 80 that does not override it; and news from
93 on always buys. -/
theorem decision_guards (rnd : ℚ → F64) (r : ℚ → ℚ) (h : F64.RoundsBy rnd r) (ms : List Message)
    (hms : ∀ m ∈ ms, m.OutOf100) :
    ∀ d ∈ (run rnd ms).2, ∃ i tech, decidedAt rnd ms i = some d ∧
      ms[i]? = some (.technical (some tech)) ∧ d.symbol = tech.symbol ∧
      Guarded tech.technicalConvictionScore
        ((lastSentiment tech.symbol (ms.take i)).map NewsSentiment.claudeConvictionScore)
        d.actionType := by
  intro d hd
  rw [run_out] at hd
  obtain ⟨i, -, hi⟩ := List.mem_filterMap.mp hd
  obtain ⟨tech, htech, rfl⟩ := decidedAt_eq_some hi
  refine ⟨i, tech, hi, htech, rfl, guarded h ?_ fun news hnews => ?_⟩
  · exact hms _ (List.mem_of_getElem? htech)
  · exact hms _ (List.mem_of_mem_take (mem_of_lastSentiment hnews).1)

theorem decision_guards_news :
    ∃ d, (run .fin [.sentiment (some bullishNews), .technical (some bearishSignal)]).2 = [d] ∧
      d.actionType = .hold := by
  have hrun : (run .fin [.sentiment (some bullishNews), .technical (some bearishSignal)]).2 =
      [calculateDecision .fin bearishSignal (some bullishNews)] := run_out _ _
  refine ⟨_, hrun, ?_⟩
  obtain ⟨i, tech, -, htech, -, hguard⟩ := decision_guards .fin id .exact
    [.sentiment (some bullishNews), .technical (some bearishSignal)] (by decide) _
    (hrun ▸ List.mem_singleton_self _)
  match i, htech with
  | 1, htech =>
      cases htech
      exact hguard.conflict 82 rfl (by decide) (by decide) (by decide)

end AiTrader.Decision
