import AiTrader.Journal.Touches
import Mathlib.Tactic.Linarith
import Mathlib.Tactic.NormNum

/-! # A single target as a plan

The plan of a single target has one leg for the whole position and no rule that moves the stop.
So the simulation stays in its first state until the first candle that touches a level
(`simLoop_singleTarget`), and the two scorers agree. -/

namespace AiTrader.Journal

open Json PyJson TradeManager

/-- The stop is on the loss side of the entry and the target on the profit side. -/
def IsBracket (action : String) (entry sl tp : ℚ) : Prop :=
  action = "BUY" ∧ sl < entry ∧ entry < tp ∨ action = "SELL" ∧ tp < entry ∧ entry < sl

/-- The levels of the plan of a single target. -/
def singleLevels (entry sl tp : ℚ) : Levels where
  isBuy := decide (entry ≤ tp)
  entry := entry
  stop := sl
  stopDistance := |entry - sl|
  legs := [⟨.float (.fin tp), .float (.fin 1)⟩]
  beLevel := none
  trailDistance := none

section
variable {C : Text.Casing} {N : NumSyntax PyNum} {rounded : ℚ → ℚ} {action : String}
  {entry sl tp : ℚ} {row : Row} {rows : List Row}

theorem IsBracket.le_iff (h : IsBracket action entry sl tp) : entry ≤ tp ↔ action = "BUY" := by
  rcases h with ⟨rfl, -, htp⟩ | ⟨rfl, htp, -⟩
  · exact iff_of_true htp.le rfl
  · exact iff_of_false (not_le.mpr htp) (by decide)

theorem IsBracket.entry_ne (h : IsBracket action entry sl tp) : entry ≠ sl := by
  rcases h with ⟨-, hsl, -⟩ | ⟨-, -, hsl⟩
  · exact hsl.ne'
  · exact hsl.ne

theorem levelsOf_singleTarget (h : IsBracket action entry sl tp) :
    levelsOf C (singleTargetPlan entry sl tp) = some (singleLevels entry sl tp) := by
  have hne : ¬ |entry - sl| = 0 := abs_ne_zero.mpr (sub_ne_zero.mpr h.entry_ne)
  have hbuy : (!isSell C (singleTargetPlan entry sl tp).action) = decide (entry ≤ tp) := by
    rw [singleTargetPlan, isSell]
    by_cases hle : entry ≤ tp
    · rw [if_pos hle, C.upper_of_ascii (by decide), decide_eq_true hle]
      decide
    · rw [if_neg hle, C.upper_of_ascii (by decide), decide_eq_false hle]
      decide
  unfold levelsOf
  rw [hbuy]
  simp only [singleTargetPlan, finiteNum, Option.bind_eq_bind, Option.bind_some, if_neg hne]
  rfl

theorem opening_singleTarget (h : IsBracket action entry sl tp) :
    opening C (singleTargetPlan entry sl tp) = .ok (singleLevels entry sl tp) := by
  rw [opening, levelsOf_singleTarget h]
  rfl

theorem gain_singleLevels (p : ℚ) :
    (singleLevels entry sl tp).gain p = if entry ≤ tp then p - entry else entry - p := by
  simp only [Levels.gain, singleLevels, decide_eq_true_eq]

theorem rOf_stop (h : IsBracket action entry sl tp) : (singleLevels entry sl tp).rOf sl = -1 := by
  have hpos : 0 < |entry - sl| := abs_pos.mpr (sub_ne_zero.mpr h.entry_ne)
  have hgain : (singleLevels entry sl tp).gain sl = -|entry - sl| := by
    rw [gain_singleLevels]
    rcases h with ⟨-, hsl, htp⟩ | ⟨-, htp, hsl⟩
    · rw [if_pos htp.le, abs_of_pos (by linarith)]
      ring
    · rw [if_neg (not_le.mpr htp), abs_of_neg (by linarith)]
      ring
  rw [Levels.rOf, hgain, neg_div]
  exact congrArg Neg.neg (div_self hpos.ne')

theorem rOf_target (h : IsBracket action entry sl tp) :
    (singleLevels entry sl tp).rOf tp = rewardRisk entry sl tp := by
  have hgain : (singleLevels entry sl tp).gain tp = |tp - entry| := by
    rw [gain_singleLevels]
    rcases h with ⟨-, -, htp⟩ | ⟨-, htp, -⟩
    · rw [if_pos htp.le, abs_of_pos (by linarith)]
    · rw [if_neg (not_le.mpr htp), abs_of_neg (by linarith), neg_sub]
  rw [Levels.rOf, hgain]
  rfl

theorem rewardRisk_pos (h : IsBracket action entry sl tp) : 0 < rewardRisk entry sl tp := by
  refine div_pos (abs_pos.mpr (sub_ne_zero.mpr ?_)) (abs_pos.mpr (sub_ne_zero.mpr h.entry_ne))
  rcases h with ⟨-, -, htp⟩ | ⟨-, htp, -⟩
  · exact htp.ne'
  · exact htp.ne

/-! ### One candle -/

/-- The state after the one leg is filled. -/
def filled (entry sl tp : ℚ) (row : Row) : Sim :=
  { (singleLevels entry sl tp).start with
    filledIndices := [0]
    fills := [⟨0, tp, 1, (singleLevels entry sl tp).rOf tp, truncate row.ts, .target⟩]
    remaining := 0 }

theorem fillLegs_singleTarget :
    (singleLevels entry sl tp).fillLegs row (singleLevels entry sl tp).start 0
        (singleLevels entry sl tp).legs =
      some (if (singleLevels entry sl tp).targetHit row tp then filled entry sl tp row
        else (singleLevels entry sl tp).start) := by
  have hopen : ¬ ((0 : ℕ) ∈ (singleLevels entry sl tp).start.filledIndices ∨
      (singleLevels entry sl tp).start.remaining ≤ sizeTol) := by
    simp only [Levels.start, List.not_mem_nil, false_or, sizeTol]
    norm_num
  have hsize : Levels.legSize (.fin 1) (singleLevels entry sl tp).start.remaining = .fin 1 := by
    rw [Levels.legSize, Levels.start, ite_self]
  have hleg : (singleLevels entry sl tp).fillLeg row (singleLevels entry sl tp).start 0
      ⟨.float (.fin tp), .float (.fin 1)⟩ =
      some (if (singleLevels entry sl tp).targetHit row tp then filled entry sl tp row
        else (singleLevels entry sl tp).start) := by
    rw [Levels.fillLeg, if_neg hopen, if_neg (by simp [tooLarge])]
    dsimp only [finiteNum, comparable]
    rw [hsize]
    dsimp only
    split
    · rw [if_neg (by norm_num)]
      simp [filled, Levels.start]
    · rfl
  rw [singleLevels, Levels.fillLegs]
  rw [singleLevels] at hleg
  rw [hleg]
  rfl

/-- The stop is looked at first. -/
theorem touch_singleLevels (rr : ℚ) :
    touch rounded (decide (entry ≤ tp)) sl tp rr row.ts row.high row.low =
      if (singleLevels entry sl tp).stopHit row sl then
        some ⟨.loss, some sl, some (row.ts / 1000), some (-1), none⟩
      else if (singleLevels entry sl tp).targetHit row tp then
        some ⟨.win, some tp, some (row.ts / 1000), some (rounded rr), none⟩
      else none := by
  unfold touch Levels.stopHit Levels.targetHit singleLevels
  dsimp only
  generalize (if decide (entry ≤ tp) = true then decide (tp ≤ row.high)
    else decide (row.low ≤ tp)) = hitTp
  generalize (if decide (entry ≤ tp) = true then decide (row.low ≤ sl)
    else decide (sl ≤ row.high)) = hitSl
  cases hitTp <;> cases hitSl <;> rfl

theorem managedUpdate_core {r : SimulationResult} {q : ℚ} {f : LegFill}
    (hstatus : r.status = .resolved) (hrealized : r.realizedR = some q) (hfills : r.fills = [f]) :
    (managedUpdate N rounded r).map ScoreUpdate.core =
      some (if 0 < q then ScoreStatus.win else ScoreStatus.loss, some f.price,
        some ((f.timestampMs : ℚ) / 1000), some (rounded q)) := by
  unfold managedUpdate
  rw [hstatus, hrealized, hfills]
  rfl

theorem realizedR_whole (index : ℤ) (price legR : ℚ) (time : ℤ) (kind : FillKind) :
    Levels.realizedR [⟨index, price, 1, legR, time, kind⟩] = legR := by
  rw [Levels.realizedR, List.map_singleton, List.sum_singleton, one_mul]

theorem simStep_stop (hstop : (singleLevels entry sl tp).stopHit row sl = true) :
    (singleLevels entry sl tp).simStep row (singleLevels entry sl tp).start =
      .done ⟨.resolved, some ((singleLevels entry sl tp).rOf sl),
        [⟨-1, sl, 1, (singleLevels entry sl tp).rOf sl, truncate row.ts, .stop⟩], 1, none,
        false⟩ := by
  have hactive : (singleLevels entry sl tp).start.activeStop = sl := rfl
  rw [Levels.simStep, hactive, if_pos hstop]
  exact congrArg (fun q => Levels.StepOutcome.done ⟨.resolved, some q, _, _, _, _⟩)
    (realizedR_whole (-1) sl ((singleLevels entry sl tp).rOf sl) (truncate row.ts) .stop)

theorem simStep_target (hstop : ¬ (singleLevels entry sl tp).stopHit row sl = true)
    (htarget : (singleLevels entry sl tp).targetHit row tp = true) :
    (singleLevels entry sl tp).simStep row (singleLevels entry sl tp).start =
      .done ⟨.resolved, some ((singleLevels entry sl tp).rOf tp),
        [⟨0, tp, 1, (singleLevels entry sl tp).rOf tp, truncate row.ts, .target⟩], 0, none,
        false⟩ := by
  have hactive : (singleLevels entry sl tp).start.activeStop = sl := rfl
  have hdone : (filled entry sl tp row).remaining ≤ sizeTol := by
    rw [filled, sizeTol]
    norm_num
  rw [Levels.simStep, hactive, if_neg hstop, fillLegs_singleTarget, if_pos htarget]
  dsimp only
  rw [if_pos hdone]
  exact congrArg (fun q => Levels.StepOutcome.done ⟨.resolved, some q, _, _, _, _⟩)
    (realizedR_whole 0 tp ((singleLevels entry sl tp).rOf tp) (truncate row.ts) .target)

/-- A candle between the levels leaves the state as it is: there is no rule to move the stop. -/
theorem simStep_between (hstop : ¬ (singleLevels entry sl tp).stopHit row sl = true)
    (htarget : ¬ (singleLevels entry sl tp).targetHit row tp = true) :
    (singleLevels entry sl tp).simStep row (singleLevels entry sl tp).start =
      .going (singleLevels entry sl tp).start := by
  have hactive : (singleLevels entry sl tp).start.activeStop = sl := rfl
  have hopen : ¬ (singleLevels entry sl tp).start.remaining ≤ sizeTol := by
    rw [Levels.start, sizeTol]
    norm_num
  rw [Levels.simStep, hactive, if_neg hstop, fillLegs_singleTarget, if_neg htarget]
  dsimp only
  rw [if_neg hopen]
  rfl

/-! ### All candles -/

/-- **The loops agree**: the simulation is recorded as the first touch is. -/
theorem simLoop_singleTarget (h : IsBracket action entry sl tp)
    (hts : ∀ r ∈ rows, ∃ z : ℤ, r.ts = z) (hrounded : rounded (-1) = -1) :
    (managedUpdate N rounded ((singleLevels entry sl tp).simLoop
        (singleLevels entry sl tp).start rows)).map ScoreUpdate.core =
      (firstTouch rounded (decide (entry ≤ tp)) sl tp (rewardRisk entry sl tp) rows).map
        ScoreUpdate.core := by
  induction rows with
  | nil => rfl
  | cons row rows ih =>
      obtain ⟨z, hz⟩ := hts row List.mem_cons_self
      have htime : ((truncate row.ts : ℤ) : ℚ) = row.ts := by rw [hz, truncate_intCast]
      rw [Levels.simLoop, firstTouch, List.findSome?_cons, touch_singleLevels]
      by_cases hstop : (singleLevels entry sl tp).stopHit row sl = true
      · rw [simStep_stop hstop, if_pos hstop]
        dsimp only
        rw [managedUpdate_core rfl rfl rfl, rOf_stop h, if_neg (by norm_num), hrounded]
        dsimp only
        rw [htime]
        rfl
      by_cases htarget : (singleLevels entry sl tp).targetHit row tp = true
      · rw [simStep_target hstop htarget, if_neg hstop, if_pos htarget]
        dsimp only
        rw [managedUpdate_core rfl rfl rfl, rOf_target h, if_pos (rewardRisk_pos h)]
        dsimp only
        rw [htime]
        rfl
      · rw [simStep_between hstop htarget, if_neg hstop, if_neg htarget]
        exact ih fun r hr => hts r (List.mem_cons_of_mem _ hr)

/-- A trade expires with or without a breakdown. -/
theorem expire_core (now expirySeconds createdAt : ℚ) (last : Option ℚ)
    (breakdown breakdown' : Option String) :
    (expire now expirySeconds createdAt last breakdown).map ScoreUpdate.core =
      (expire now expirySeconds createdAt last breakdown').map ScoreUpdate.core := by
  unfold expire
  split
  · rfl
  · split
    · rfl
    · rfl

theorem map_or_core {a b a' b' : Option ScoreUpdate}
    (ha : a.map ScoreUpdate.core = a'.map ScoreUpdate.core)
    (hb : b.map ScoreUpdate.core = b'.map ScoreUpdate.core) :
    (a.or b).map ScoreUpdate.core = (a'.or b').map ScoreUpdate.core := by
  rw [Option.map_or, Option.map_or, ha, hb]

theorem planFromJson_singleTarget
    (hnum : ∀ q ∈ [entry, sl, tp, 1], N.Readable (.float (.fin q))) :
    planFromJson N (planToJson N (singleTargetPlan entry sl tp)) =
      some (singleTargetPlan entry sl tp) := by
  simp only [List.forall_mem_cons] at hnum
  obtain ⟨hentry, hsl, htp, hone, -⟩ := hnum
  refine planFromJson_planToJson ?_ ?_
  · exact ⟨trivial, hentry, hsl, ⟨⟨htp, hone, trivial⟩, trivial⟩, trivial, trivial, trivial, trivial⟩
  · simp [singleTargetPlan, ManagementPlan.payload, ScaleOutLeg.payload, optionalPayload, Distinct,
      DistinctList, DistinctMembers]

end

/-- **Managed scoring of a single target is legacy scoring.**  The timestamps are whole
milliseconds, as the server that the candles come from counts them. -/
theorem scoreOne_singleTargetPlan {C : Text.Casing} {N : NumSyntax PyNum} {now expirySeconds : ℚ}
    {trade : TradeRow} {entry sl tp : ℚ} {candles : List PyVal} {rows : List Row}
    (hbracket : IsBracket (C.upper trade.action) entry sl tp)
    (hentry : finiteNum trade.entry = some entry) (hsl : finiteNum trade.stopLoss = some sl)
    (htp : finiteNum trade.takeProfit = some tp) (hist : IsHistory candles rows)
    (hts : ∀ r ∈ rows, ∃ z : ℤ, r.ts = z)
    (hnum : ∀ q ∈ [entry, sl, tp, 1], N.Readable (.float (.fin q))) :
    (scoreOne C N id now expirySeconds { trade with
        managementPlan := some (planToJson N (singleTargetPlan entry sl tp)) } candles).map
        ScoreUpdate.core =
      (scoreOne C N id now expirySeconds { trade with managementPlan := none } candles).map
        ScoreUpdate.core := by
  have hplan := planFromJson_singleTarget hnum
  unfold scoreOne
  dsimp only
  rw [if_neg (planToJson_ne_empty _)]
  cases hcreated : finiteNum trade.createdAt with
  | none =>
      have hmanaged : scoreManagedTrade C N id now expirySeconds { trade with
          managementPlan := some (planToJson N (singleTargetPlan entry sl tp)) } candles
          (planToJson N (singleTargetPlan entry sl tp)) = none := by
        simp only [scoreManagedTrade, hplan, hcreated]
      have hlegacy : scoreSingleTarget C id now expirySeconds
          { trade with managementPlan := none } candles = none := by
        simp only [scoreSingleTarget, hentry, hsl, htp, hcreated, Option.bind_eq_bind,
          Option.bind_some, Option.bind_none]
      rw [hmanaged, hlegacy]
  | some createdAt =>
      have hmanaged : scoreManagedTrade C N id now expirySeconds { trade with
          managementPlan := some (planToJson N (singleTargetPlan entry sl tp)) } candles
          (planToJson N (singleTargetPlan entry sl tp)) = _ :=
        scoreManagedTrade_eq hist hplan hcreated
      have hlegacy : scoreSingleTarget C id now expirySeconds
          { trade with managementPlan := none } candles = _ :=
        scoreSingleTarget_eq hist hentry hsl htp hcreated hbracket.entry_ne
      rw [hmanaged, hlegacy]
      refine map_or_core ?_ (expire_core now expirySeconds createdAt _ _ _)
      rw [simulateRows, opening_singleTarget hbracket]
      dsimp only
      rw [simLoop_singleTarget hbracket ?_ rfl]
      · rw [decide_eq_decide.mpr hbracket.le_iff]
      · exact fun r hr => hts r (List.mem_of_mem_filter hr)

/-- Bought at 100 with the stop at 90 and the target at 120. -/
def boughtAt100 : TradeRow where
  action := "BUY"
  entry := .float (.fin 100)
  stopLoss := .float (.fin 90)
  takeProfit := .float (.fin 120)
  createdAt := .float (.fin 0)
  managementPlan := none

/-- A quiet minute, and one that reaches both levels. -/
def straddle : List Row := [⟨60000, 100, 110, 95, 105⟩, ⟨120000, 105, 125, 85, 100⟩]

theorem scoreOne_singleTargetPlan_straddle :
    let N := NumSyntax.ofTable [(.float (.fin 100), "100.0".toList),
      (.float (.fin 90), "90.0".toList), (.float (.fin 120), "120.0".toList),
      (.float (.fin 1), "1.0".toList)]
    (scoreOne Text.Casing.ascii N id 180 604800 { boughtAt100 with
        managementPlan := some (planToJson N (singleTargetPlan 100 90 120)) }
        (straddle.map rowCandle)).map ScoreUpdate.core =
      (scoreOne Text.Casing.ascii N id 180 604800 { boughtAt100 with managementPlan := none }
        (straddle.map rowCandle)).map ScoreUpdate.core :=
  have hwhole : ∀ r ∈ straddle, ∃ z : ℤ, r.ts = z := by
    simp only [straddle, List.forall_mem_cons]
    exact ⟨⟨60000, rfl⟩, ⟨120000, rfl⟩, List.forall_mem_nil _⟩
  have hsmall : ∀ r ∈ straddle, ∃ z : ℤ, r.ts = z ∧ z.natAbs < 2 ^ 64 := by
    simp only [straddle, List.forall_mem_cons]
    exact ⟨⟨60000, rfl, by decide⟩, ⟨120000, rfl, by decide⟩, List.forall_mem_nil _⟩
  scoreOne_singleTargetPlan (.inl ⟨by decide, by norm_num, by norm_num⟩) rfl rfl rfl
    (isHistory_map hsmall (by decide +kernel)) hwhole (by decide +kernel)

/-- Half a millisecond past the minute the target is reached. -/
def halfPast : PyVal :=
  .dict [("timestamp_ms", .float (.fin (120001 / 2))), ("open", .int 105), ("high", .int 125),
    ("low", .int 95), ("close", .int 110), ("volume", .int 1000)]

/-- A managed fill is stamped with the whole millisecond, a touch with the timestamp itself. -/
theorem half_millisecond_outcomeAt :
    let N := NumSyntax.ofTable [(.float (.fin 100), "100.0".toList),
      (.float (.fin 90), "90.0".toList), (.float (.fin 120), "120.0".toList),
      (.float (.fin 1), "1.0".toList)]
    IsHistory [halfPast] [⟨120001 / 2, 105, 125, 95, 110⟩] ∧
      (scoreOne Text.Casing.ascii N id 180 604800 { boughtAt100 with
          managementPlan := some (planToJson N (singleTargetPlan 100 90 120)) } [halfPast]).map
        ScoreUpdate.core = some (.win, some 120, some 60, some 2) ∧
      (scoreOne Text.Casing.ascii N id 180 604800 { boughtAt100 with managementPlan := none }
          [halfPast]).map ScoreUpdate.core = some (.win, some 120, some (120001 / 2000), some 2) := by
  refine ⟨⟨.cons ⟨_, rfl, rfl, rfl, rfl, rfl, rfl, rfl⟩ .nil, List.pairwise_singleton _ _⟩, ?_, ?_⟩
  · decide +kernel
  · decide +kernel

end AiTrader.Journal
