import AiTrader.Journal.Scoring

/-! # The first touch

On a history the two scorers see the same rows, those after the entry.  `firstTouch` is what the
first of them that touches a level decides; the loop of the single-target scorer computes it
(`touchLoop_history`). -/

namespace AiTrader.Journal

open TradeManager

section
variable {rounded : ℚ → ℚ} {isBuy : Bool} {sl tp rr createdMs : ℚ} {candle : PyVal} {row : Row}
  {candles : List PyVal} {rows : List Row}

/-- What the first touching row decides. -/
def firstTouch (rounded : ℚ → ℚ) (isBuy : Bool) (sl tp rr : ℚ) (rows : List Row) :
    Option ScoreUpdate :=
  rows.findSome? fun r => touch rounded isBuy sl tp rr r.ts r.high r.low

/-- The rows strictly after the entry. -/
def after (createdMs : ℚ) (rows : List Row) : List Row :=
  rows.filter fun r => decide (createdMs < r.ts)

theorem timestampMs_eq (h : IsCandle candle row) : timestampMs candle = some row.ts := by
  obtain ⟨d, rfl, hts, -⟩ := h
  exact hts

theorem touchFields_eq (h : IsCandle candle row) :
    touchFields candle = some (row.ts, row.high, row.low) := by
  obtain ⟨d, rfl, hts, -, hh, hl, -⟩ := h
  simp only [touchFields, hts, hh, hl, Option.bind_eq_bind, Option.bind_some, Option.pure_def]

theorem touch_ne_expired {ts hi lo : ℚ} {upd : ScoreUpdate}
    (ht : touch rounded isBuy sl tp rr ts hi lo = some upd) : upd.status ≠ .expired := by
  unfold touch at ht
  dsimp only at ht
  generalize (if isBuy = true then decide (tp ≤ hi) else decide (lo ≤ tp)) = hitTp at ht
  generalize (if isBuy = true then decide (lo ≤ sl) else decide (sl ≤ hi)) = hitSl at ht
  cases hitTp <;> cases hitSl <;> cases ht <;> rintro ⟨⟩

theorem touch_outcomeAt {ts hi lo : ℚ} {upd : ScoreUpdate}
    (ht : touch rounded isBuy sl tp rr ts hi lo = some upd) : upd.outcomeAt = some (ts / 1000) := by
  unfold touch at ht
  dsimp only at ht
  generalize (if isBuy = true then decide (tp ≤ hi) else decide (lo ≤ tp)) = hitTp at ht
  generalize (if isBuy = true then decide (lo ≤ sl) else decide (sl ≤ hi)) = hitSl at ht
  cases hitTp <;> cases hitSl <;> cases ht <;> rfl

theorem firstTouch_ne_expired {upd : ScoreUpdate}
    (ht : firstTouch rounded isBuy sl tp rr rows = some upd) : upd.status ≠ .expired := by
  obtain ⟨r, -, hr⟩ := List.exists_of_findSome?_eq_some ht
  exact touch_ne_expired hr

theorem after_cons_of_le (h : row.ts ≤ createdMs) :
    after createdMs (row :: rows) = after createdMs rows :=
  List.filter_cons_of_neg (by simpa using h)

theorem after_cons_of_lt (h : ¬ row.ts ≤ createdMs) :
    after createdMs (row :: rows) = row :: after createdMs rows :=
  List.filter_cons_of_pos (by simpa using h)

/-- The loop over the candles, said of the rows. -/
theorem touchLoop_history (h : List.Forall₂ IsCandle candles rows) (last : Option ℚ) :
    (touchLoop rounded isBuy sl tp rr createdMs last candles).2 =
        firstTouch rounded isBuy sl tp rr (after createdMs rows) ∧
      (firstTouch rounded isBuy sl tp rr (after createdMs rows) = none →
        (touchLoop rounded isBuy sl tp rr createdMs last candles).1 =
          ((after createdMs rows).map Row.ts).getLast?.or last) := by
  induction h generalizing last with
  | nil => simp [touchLoop, firstTouch, after]
  | @cons candle row candles rows hc _ ih =>
      rw [touchLoop, touchFields_eq hc]
      dsimp only
      split
      · rename_i hle
        rw [after_cons_of_le hle]
        exact ih last
      · rename_i hlt
        rw [after_cons_of_lt hlt]
        cases htouch : touch rounded isBuy sl tp rr row.ts row.high row.low with
        | some upd => simp [firstTouch, htouch]
        | none =>
            obtain ⟨htwo, hone⟩ := ih (some row.ts)
            have hnext : firstTouch rounded isBuy sl tp rr (row :: after createdMs rows) =
                firstTouch rounded isBuy sl tp rr (after createdMs rows) := by
              rw [firstTouch, List.findSome?_cons, htouch]
              rfl
            rw [hnext]
            refine ⟨htwo, fun hnone => ?_⟩
            rw [hone hnone, List.map_cons]
            cases hrows : (after createdMs rows).map Row.ts with
            | nil => rfl
            | cons t ts => simp [List.getLast?_cons]

theorem forall₂_filter (p : ℚ → Bool) (h : List.Forall₂ IsCandle candles rows) :
    List.Forall₂ IsCandle (candles.filter fun c => (timestampMs c).any p)
      (rows.filter fun r => p r.ts) := by
  induction h with
  | nil => exact .nil
  | @cons candle row candles rows hc _ ih =>
      rw [List.filter_cons, List.filter_cons, timestampMs_eq hc, Option.any_some]
      cases p row.ts with
      | true => exact .cons hc ih
      | false => exact ih

theorem filter_history (p : ℚ → Bool) (h : IsHistory candles rows) :
    IsHistory (candles.filter fun c => (timestampMs c).any p) (rows.filter fun r => p r.ts) :=
  ⟨forall₂_filter p h.candles, h.ascending.sublist List.filter_sublist⟩

/-- The window of the managed scorer is the rest of the history. -/
theorem subsequent_history (h : IsHistory candles rows) :
    IsHistory (subsequent createdMs candles) (after createdMs rows) :=
  filter_history (fun ts => decide (createdMs < ts)) h

theorem filterMap_timestampMs (h : List.Forall₂ IsCandle candles rows) :
    candles.filterMap timestampMs = rows.map Row.ts := by
  induction h with
  | nil => rfl
  | cons hc _ ih => rw [List.filterMap_cons_some (timestampMs_eq hc), ih, List.map_cons]

end

/-! ### The two scorers -/

section
variable {C : Text.Casing} {N : Json.NumSyntax PyJson.PyNum} {rounded : ℚ → ℚ}
  {now expirySeconds : ℚ} {trade : TradeRow} {entry sl tp createdAt : ℚ}
  {candles : List PyVal} {rows : List Row}

/-- The timestamp that an expired trade is given. -/
def lastAfter (createdMs : ℚ) (rows : List Row) : Option ℚ :=
  ((after createdMs rows).map Row.ts).getLast?

/-- The reward for the risk. -/
def rewardRisk (entry sl tp : ℚ) : ℚ := |tp - entry| / |entry - sl|

/-- **The scorer of a single target** decides by the first touch after the entry. -/
theorem scoreSingleTarget_eq (h : IsHistory candles rows)
    (hentry : finiteNum trade.entry = some entry) (hsl : finiteNum trade.stopLoss = some sl)
    (htp : finiteNum trade.takeProfit = some tp)
    (hcreated : finiteNum trade.createdAt = some createdAt) (hrisk : entry ≠ sl) :
    scoreSingleTarget C rounded now expirySeconds trade candles =
      (firstTouch rounded (decide (C.upper trade.action = "BUY")) sl tp (rewardRisk entry sl tp)
        (after (createdAt * 1000) rows)).or
      (expire now expirySeconds createdAt (lastAfter (createdAt * 1000) rows) none) := by
  have hpos : ¬ |entry - sl| ≤ 0 := not_le.mpr (abs_pos.mpr (sub_ne_zero.mpr hrisk))
  obtain ⟨htwo, hone⟩ := @touchLoop_history rounded (decide (C.upper trade.action = "BUY")) sl tp
    (rewardRisk entry sl tp) (createdAt * 1000) candles rows h.candles none
  unfold scoreSingleTarget
  simp only [hentry, hsl, htp, hcreated, Option.bind_eq_bind, Option.bind_some, if_neg hpos]
  rw [← rewardRisk]
  generalize touchLoop rounded (decide (C.upper trade.action = "BUY")) sl tp
    (rewardRisk entry sl tp) (createdAt * 1000) none candles = loop at htwo hone ⊢
  obtain ⟨last, found⟩ := loop
  dsimp only at htwo hone ⊢
  rw [htwo]
  cases hfirst : firstTouch rounded (decide (C.upper trade.action = "BUY")) sl tp
      (rewardRisk entry sl tp) (after (createdAt * 1000) rows) with
  | some upd => rfl
  | none =>
      rw [hone hfirst, Option.or_none, lastAfter, Option.none_or]

theorem scoreSingleTarget_riskless (hentry : finiteNum trade.entry = some entry)
    (hsl : finiteNum trade.stopLoss = some entry) :
    scoreSingleTarget C rounded now expirySeconds trade candles = none := by
  unfold scoreSingleTarget
  simp only [hentry, hsl, sub_self, abs_zero, le_refl, if_true, Option.bind_eq_bind,
    Option.bind_some]
  cases finiteNum trade.takeProfit with
  | none => rfl
  | some tp =>
      cases finiteNum trade.createdAt with
      | none => rfl
      | some createdAt => rfl

theorem expire_status {last : Option ℚ} {breakdown : Option String} {upd : ScoreUpdate}
    (h : expire now expirySeconds createdAt last breakdown = some upd) : upd.status = .expired := by
  unfold expire at h
  split at h
  · cases h
  · split at h
    · cases h
      rfl
    · cases h

/-- **The scorer of a plan** decides by the simulation after the entry. -/
theorem scoreManagedTrade_eq {plan : ManagementPlan} {planText : String}
    (h : IsHistory candles rows) (hplan : planFromJson N planText = some plan)
    (hcreated : finiteNum trade.createdAt = some createdAt) :
    let result := simulateRows C plan (after (createdAt * 1000) rows)
    scoreManagedTrade C N rounded now expirySeconds trade candles planText =
      (managedUpdate N rounded result).or
      (expire now expirySeconds createdAt (lastAfter (createdAt * 1000) rows)
        (some (exitBreakdownJson N result))) := by
  intro result
  have hresult : simulatePlan C plan (subsequent (createdAt * 1000) candles) = result :=
    simulatePlan_eq (subsequent_history h)
  unfold scoreManagedTrade
  simp only [hplan, hcreated, hresult, filterMap_timestampMs (subsequent_history h).candles]
  cases managedUpdate N rounded result with
  | some upd => rfl
  | none => rfl

end

end AiTrader.Journal
