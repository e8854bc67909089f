import AiTrader.Backtest.Scoring
import AiTrader.Journal.Touches
import AiTrader.Library.Verdict

/-! # The backtest and the journal agree

Both scorers read the bars after the signal, the backtest those up to its horizon and the journal
those that it is shown; both decide by one verdict (`verdict`), and that is final.  So a win or a
loss in the backtest is the same in the journal, and one that the journal sees within the
horizon is the same in the backtest. -/

namespace AiTrader.Backtest

open Json PyJson TradeManager Journal Verdict

section
variable {C : Text.Casing} {N : NumSyntax PyNum} {rounded : ℚ → ℚ} {now expirySeconds : ℚ}
  {isBuy : Bool} {sl tp rr : ℚ} {decision : Decision} {plan : Option ManagementPlan}
  {candles : List Kwargs} {rows : List Row} {row : Row} {i n : ℕ} {h : ℤ} {out : Outcome}

/-! ### The verdict -/

/-- What the bars after a signal decide. -/
def verdict (C : Text.Casing) (N : NumSyntax PyNum) (rounded : ℚ → ℚ)
    (plan : Option ManagementPlan) (decision : Decision) (rows : List Row) : Option Outcome :=
  match plan with
  | some plan => (managedUpdate N rounded (simulateRows C plan rows)).map ScoreUpdate.core
  | none =>
      if decision.entry = decision.stopLoss then none
      else (firstTouch rounded (decide (decision.action = "BUY")) decision.stopLoss
        decision.takeProfit (rewardRisk decision.entry decision.stopLoss decision.takeProfit)
        rows).map ScoreUpdate.core

theorem managedUpdate_resolved {r : SimulationResult} {upd : ScoreUpdate}
    (hr : managedUpdate N rounded r = some upd) : r.status = .resolved ∧ upd.status ≠ .expired := by
  unfold managedUpdate at hr
  split at hr
  · rename_i q hstatus hq
    cases hr
    refine ⟨hstatus, ?_⟩
    dsimp only
    split
    · decide
    · decide
  · cases hr

/-- **The verdict is final.** -/
theorem verdict_final : Final (verdict C N rounded plan decision) := by
  cases plan with
  | some plan =>
      refine Final.map ⟨?_, fun xs ys upd hupd => ?_⟩ ScoreUpdate.core
      · unfold simulateRows
        cases hL : opening C plan with
        | error r => rcases opening_error hL with rfl | ⟨rfl, -⟩ <;> rfl
        | ok L => rfl
      · rw [simulateRows_append xs ys (managedUpdate_resolved hupd).1]
        exact hupd
  | none =>
      by_cases hrisk : decision.entry = decision.stopLoss
      · refine ⟨?_, fun xs ys out hout => ?_⟩
        · rw [verdict, if_pos hrisk]
        · rw [verdict, if_pos hrisk] at hout
          cases hout
      · have hfirst := (Final.findSome? fun r : Row => touch rounded
          (decide (decision.action = "BUY")) decision.stopLoss decision.takeProfit
          (rewardRisk decision.entry decision.stopLoss decision.takeProfit) r.ts r.high
          r.low).map ScoreUpdate.core
        refine ⟨?_, fun xs ys out hout => ?_⟩
        · rw [verdict, if_neg hrisk]
          exact hfirst.nil
        · rw [verdict, if_neg hrisk] at hout ⊢
          exact hfirst.append xs ys out hout

/-! ### The backtest -/

/-- The two copies of the touch rule agree. -/
theorem barOutcome_eq (ts hi lo : ℚ) :
    barOutcome rounded isBuy sl tp rr (some (ts / 1000)) hi lo =
      (touch rounded isBuy sl tp rr ts hi lo).map ScoreUpdate.core := by
  unfold barOutcome touch
  dsimp only
  generalize (if isBuy = true then decide (tp ≤ hi) else decide (lo ≤ tp)) = hitTp
  generalize (if isBuy = true then decide (lo ≤ sl) else decide (sl ≤ hi)) = hitSl
  cases hitTp <;> cases hitSl <;> rfl

/-- The loop over the bars gives what the first touch decides, or the trade is expired. -/
theorem scoreLoop_history (hist : List.Forall₂ IsCandle (candles.map PyVal.dict) rows)
    (last : Option ℚ) :
    (∀ upd, firstTouch rounded isBuy sl tp rr rows = some upd →
      scoreLoop rounded isBuy sl tp rr last candles = upd.core) ∧
    (firstTouch rounded isBuy sl tp rr rows = none →
      (scoreLoop rounded isBuy sl tp rr last candles).1 = .expired) := by
  induction candles generalizing rows last with
  | nil =>
      cases hist
      refine ⟨fun upd hupd => ?_, fun _ => rfl⟩
      cases hupd
  | cons c candles ih =>
      obtain ⟨row, rows, hc, hrest, rfl⟩ := List.forall₂_cons_left_iff.mp hist
      obtain ⟨d, hd, hts, -, hh, hl, -⟩ := hc
      cases hd
      rw [scoreLoop, hh, hl, hts, firstTouch, List.findSome?_cons]
      dsimp only [Option.map_some]
      rw [barOutcome_eq]
      cases touch rounded isBuy sl tp rr row.ts row.high row.low with
      | some upd =>
          refine ⟨fun upd' hupd => ?_, fun hnone => ?_⟩
          · cases hupd
            rfl
          · cases hnone
      | none => exact ih hrest _

theorem exists_sliceTo_eq_take (h : ℤ) (length : ℕ) :
    ∃ n, (0 ≤ h → n = h.toNat) ∧
      ∀ {α : Type} (xs : List α), xs.length = length → sliceTo h xs = xs.take n := by
  by_cases hpos : 0 ≤ h
  · exact ⟨h.toNat, fun _ => rfl, fun xs _ => if_pos hpos⟩
  · refine ⟨length - (-h).toNat, fun hge => absurd hge hpos, fun xs hlen => ?_⟩
    rw [sliceTo, if_neg hpos, hlen]

section
variable {future : List Kwargs} (hist : IsHistory ((sliceTo h future).map PyVal.dict) rows)
include hist

theorem isEmpty_sliceTo : (sliceTo h future).isEmpty = true ↔ rows = [] := by
  rw [List.isEmpty_iff, ← List.length_eq_zero_iff, ← List.length_eq_zero_iff, ← hist.length_eq,
    List.length_map]

theorem scoreSignalManaged_iff (plan : ManagementPlan) :
    (scoreSignalManaged rounded C plan future h).1 = some out ∧ out.1 ≠ .expired ↔
      verdict C N rounded (some plan) decision rows = some out := by
  unfold scoreSignalManaged
  by_cases hempty : (sliceTo h future).isEmpty = true
  · obtain rfl := (isEmpty_sliceTo hist).mp hempty
    dsimp only
    rw [if_pos hempty, verdict_final.nil]
    exact ⟨fun hout => (by cases hout.1), fun hout => (by cases hout)⟩
  · dsimp only
    rw [if_neg hempty, simulatePlan_eq hist, verdict]
    dsimp only
    cases hstatus : (simulateRows C plan rows).status with
    | resolved =>
        obtain ⟨q, hq⟩ := simulateRows_resolved hstatus
        have hsame : managedOutcome rounded (simulateRows C plan rows) (sliceTo h future) =
            (managedUpdate N rounded (simulateRows C plan rows)).map ScoreUpdate.core := by
          simp [managedOutcome, managedUpdate, hstatus, hq, ScoreUpdate.core]
        rw [hsame]
        refine and_iff_left_of_imp fun hout => ?_
        obtain ⟨upd, hupd, rfl⟩ := Option.map_eq_some_iff.mp hout
        exact (managedUpdate_resolved hupd).2
    | «open» =>
        simp only [managedOutcome, managedUpdate, hstatus]
        refine iff_of_false ?_ (by simp)
        rintro ⟨hout, hne⟩
        cases hout
        exact hne rfl
    | invalid =>
        simp only [managedOutcome, managedUpdate, hstatus]
        exact iff_of_false (by simp) (by simp)

theorem scoreSignal_iff :
    scoreSignal rounded decision future h = some out ∧ out.1 ≠ .expired ↔
      verdict C N rounded none decision rows = some out := by
  unfold scoreSignal verdict
  dsimp only
  by_cases hrisk : decision.entry = decision.stopLoss
  · rw [if_pos hrisk, if_pos (abs_nonpos_iff.mpr (sub_eq_zero.mpr hrisk))]
    exact iff_of_false (by simp) (by simp)
  rw [if_neg hrisk, if_neg fun hle => hrisk (sub_eq_zero.mp (abs_nonpos_iff.mp hle))]
  by_cases hempty : (sliceTo h future).isEmpty = true
  · obtain rfl := (isEmpty_sliceTo hist).mp hempty
    rw [if_pos hempty]
    exact iff_of_false (by simp) (by simp [firstTouch])
  rw [if_neg hempty]
  obtain ⟨hsome, hnone⟩ := @scoreLoop_history rounded (decide (decision.action = "BUY"))
    decision.stopLoss decision.takeProfit
    (rewardRisk decision.entry decision.stopLoss decision.takeProfit) _ rows hist.candles none
  cases hfirst : firstTouch rounded (decide (decision.action = "BUY")) decision.stopLoss
      decision.takeProfit (rewardRisk decision.entry decision.stopLoss decision.takeProfit)
      rows with
  | some upd =>
      rw [← rewardRisk, hsome upd hfirst]
      refine and_iff_left_of_imp fun hout => ?_
      cases hout
      exact firstTouch_ne_expired hfirst
  | none =>
      refine iff_of_false ?_ (by simp)
      rintro ⟨hout, hne⟩
      cases hout
      exact hne (hnone hfirst)

end

theorem scoreAt_iff (hist : IsHistory (candles.map PyVal.dict) rows) (i : ℕ) (h : ℤ) :
    ∃ n, (0 ≤ h → n = h.toNat) ∧ ∀ out,
      (scoreAt rounded C plan decision candles i h = some out ∧ out.1 ≠ .expired ↔
        verdict C N rounded plan decision ((rows.drop (i + 1)).take n) = some out) := by
  obtain ⟨n, hn, hslice⟩ := exists_sliceTo_eq_take h (candles.drop (i + 1)).length
  have hwindow : IsHistory ((sliceTo h (candles.drop (i + 1))).map PyVal.dict)
      ((rows.drop (i + 1)).take n) := by
    rw [hslice _ rfl, List.map_take, List.map_drop]
    exact (hist.drop (i + 1)).take n
  refine ⟨n, hn, fun out => ?_⟩
  cases plan with
  | some plan => exact scoreSignalManaged_iff hwindow plan
  | none => exact scoreSignal_iff hwindow

/-! ### The journal -/

/-- The row of a decision, with its plan as text. -/
def tradeRow (N : NumSyntax PyNum) (plan : Option ManagementPlan) (decision : Decision)
    (createdAt : ℚ) : TradeRow where
  action := decision.action
  entry := .float (.fin decision.entry)
  stopLoss := .float (.fin decision.stopLoss)
  takeProfit := .float (.fin decision.takeProfit)
  createdAt := .float (.fin createdAt)
  managementPlan := plan.map (planToJson N)

/-- Expiring is neither winning nor losing. -/
theorem or_expire_iff {createdAt : ℚ} {last : Option ℚ} {breakdown : Option String}
    {v : Option ScoreUpdate} (hv : ∀ upd, v = some upd → upd.status ≠ .expired) :
    (v.or (expire now expirySeconds createdAt last breakdown)).map ScoreUpdate.core = some out ∧
        out.1 ≠ .expired ↔ v.map ScoreUpdate.core = some out := by
  cases v with
  | some upd =>
      refine and_iff_left_of_imp fun hout => ?_
      cases hout
      exact hv upd rfl
  | none =>
      refine iff_of_false ?_ (by simp)
      rintro ⟨hout, hne⟩
      obtain ⟨upd, hupd, rfl⟩ := Option.map_eq_some_iff.mp hout
      exact hne (expire_status hupd)

/-- What the journal records as won or lost is the verdict on the rows after the entry. -/
theorem scoreOne_iff {candles : List PyVal} (hist : IsHistory candles rows) {createdAt : ℚ}
    (hplan : ∀ p ∈ plan, planFromJson N (planToJson N p) = some p)
    (haction : decision.action = "BUY" ∨ decision.action = "SELL") :
    (scoreOne C N rounded now expirySeconds (tradeRow N plan decision createdAt) candles).map
        ScoreUpdate.core = some out ∧ out.1 ≠ .expired ↔
      verdict C N rounded plan decision (after (createdAt * 1000) rows) = some out := by
  cases plan with
  | some p =>
      have hmanaged : scoreManagedTrade C N rounded now expirySeconds
          (tradeRow N (some p) decision createdAt) candles (planToJson N p) = _ :=
        scoreManagedTrade_eq hist (hplan p rfl) rfl
      rw [scoreOne, tradeRow]
      dsimp only [Option.map_some]
      rw [if_neg (planToJson_ne_empty p)]
      rw [tradeRow, Option.map_some] at hmanaged
      rw [hmanaged]
      exact or_expire_iff fun upd hupd => (managedUpdate_resolved hupd).2
  | none =>
      have hupper : C.upper decision.action = decision.action := by
        rcases haction with h | h
        · rw [h, C.upper_of_ascii (by decide)]
          decide
        · rw [h, C.upper_of_ascii (by decide)]
          decide
      rw [scoreOne, verdict]
      dsimp only [tradeRow, Option.map_none]
      by_cases hrisk : decision.entry = decision.stopLoss
      · have hnone : scoreSingleTarget C rounded now expirySeconds
            (tradeRow N none decision createdAt) candles = none :=
          scoreSingleTarget_riskless rfl (by rw [tradeRow, hrisk]; rfl)
        rw [if_pos hrisk]
        dsimp only [tradeRow, Option.map_none] at hnone
        rw [hnone]
        exact iff_of_false (by simp) (by simp)
      · have hbuy : decide (C.upper (tradeRow N none decision createdAt).action = "BUY") =
            decide (decision.action = "BUY") := by
          rw [tradeRow, hupper]
        have hsingle : scoreSingleTarget C rounded now expirySeconds
            (tradeRow N none decision createdAt) candles = _ :=
          scoreSingleTarget_eq hist rfl rfl rfl rfl hrisk
        rw [hbuy] at hsingle
        rw [if_neg hrisk]
        dsimp only [tradeRow, Option.map_none] at hsingle
        rw [hsingle]
        exact or_expire_iff fun upd hupd => firstTouch_ne_expired hupd

theorem after_take (hasc : rows.Pairwise fun a b => a.ts < b.ts) (hi : rows[i]? = some row)
    (n : ℕ) : after row.ts (rows.take n) = (rows.drop (i + 1)).take (n - (i + 1)) := by
  induction rows generalizing i n with
  | nil => cases hi
  | cons a rows ih =>
      obtain ⟨hfirst, hrest⟩ := List.pairwise_cons.mp hasc
      cases n with
      | zero => simp [after]
      | succ n =>
          rw [List.take_succ_cons]
          cases i with
          | zero =>
              cases hi
              rw [after_cons_of_le le_rfl, after, List.filter_eq_self.mpr]
              · rw [List.drop_succ_cons, List.drop_zero, Nat.add_sub_cancel]
              · exact fun r hr => decide_eq_true (hfirst r (List.mem_of_mem_take hr))
          | succ i =>
              rw [List.getElem?_cons_succ] at hi
              have hle : a.ts ≤ row.ts := (hfirst row (List.mem_of_getElem? hi)).le
              rw [after_cons_of_le hle, ih hrest hi, List.drop_succ_cons, Nat.add_sub_add_right]

theorem after_eq_drop (hasc : rows.Pairwise fun a b => a.ts < b.ts) (hi : rows[i]? = some row) :
    after row.ts rows = rows.drop (i + 1) := by
  have hall := after_take hasc hi rows.length
  rwa [List.take_length, List.take_of_length_le (by simp)] at hall

/-- `_score_one` decides the row at candle `j`: with it, and not with those before it only. -/
def DecidedAt (C : Text.Casing) (N : NumSyntax PyNum) (rounded : ℚ → ℚ) (now expirySeconds : ℚ)
    (trade : TradeRow) (candles : List PyVal) (j : ℕ) (out : Outcome) : Prop :=
  ((scoreOne C N rounded now expirySeconds trade (candles.take (j + 1))).map ScoreUpdate.core =
      some out ∧ out.1 ≠ .expired) ∧
    ∀ out', ¬ ((scoreOne C N rounded now expirySeconds trade (candles.take j)).map
      ScoreUpdate.core = some out' ∧ out'.1 ≠ .expired)

/-- What the journal wins or loses it wins or loses at one of the candles. -/
theorem exists_decidedAt {candles : List PyVal} (hist : IsHistory candles rows) {createdAt : ℚ}
    (hplan : ∀ p ∈ plan, planFromJson N (planToJson N p) = some p)
    (haction : decision.action = "BUY" ∨ decision.action = "SELL") (hne : out.1 ≠ .expired)
    (hout : (scoreOne C N rounded now expirySeconds (tradeRow N plan decision createdAt)
      candles).map ScoreUpdate.core = some out) :
    ∃ j < rows.length, DecidedAt C N rounded now expirySeconds
      (tradeRow N plan decision createdAt) candles j out := by
  have hfinal : Final fun rows =>
      verdict C N rounded plan decision (after (createdAt * 1000) rows) := verdict_final.filter _
  obtain ⟨j, hj, hnone, hsome⟩ :=
    hfinal.exists_decisive ((scoreOne_iff hist hplan haction).mp ⟨hout, hne⟩)
  refine ⟨j, hj, (scoreOne_iff (hist.take (j + 1)) hplan haction).mpr hsome, fun out' hout' => ?_⟩
  cases hnone.symm.trans ((scoreOne_iff (hist.take j) hplan haction).mp hout')

end

/-- **The two scorers agree.**  What the backtest reads within its horizon the journal reads too;
what the journal reads it reads at one of the candles, and the backtest with it if its horizon
reaches that candle. -/
theorem backtest_agrees_with_journal (C : Text.Casing) {N : NumSyntax PyNum} (rounded : ℚ → ℚ)
    (now expirySeconds : ℚ) {plan : Option ManagementPlan} {decision : Decision}
    {candles : List Kwargs} {rows : List Row} {i : ℕ} {row : Row} (maxHorizonBars : ℤ)
    (haction : decision.action = "BUY" ∨ decision.action = "SELL")
    (hplan : ∀ p ∈ plan, planFromJson N (planToJson N p) = some p)
    (hist : IsHistory (candles.map PyVal.dict) rows) (hi : rows[i]? = some row) :
    let trade := tradeRow N plan decision (row.ts / 1000)
    let scored := scoreAt rounded C plan decision candles i maxHorizonBars
    (∀ out, scored = some out → out.1 ≠ .expired →
      (scoreOne C N rounded now expirySeconds trade (candles.map PyVal.dict)).map
        ScoreUpdate.core = some out) ∧
    (∀ j out, DecidedAt C N rounded now expirySeconds trade (candles.map PyVal.dict) j out →
      (j : ℤ) ≤ i + maxHorizonBars → scored = some out) ∧
    ∀ out, (scoreOne C N rounded now expirySeconds trade (candles.map PyVal.dict)).map
        ScoreUpdate.core = some out → out.1 ≠ .expired →
      ∃ j < rows.length,
        DecidedAt C N rounded now expirySeconds trade (candles.map PyVal.dict) j out := by
  intro trade scored
  obtain ⟨n, hn, hscored⟩ := @scoreAt_iff C N rounded decision plan candles rows hist i
    maxHorizonBars
  have hcreated : row.ts / 1000 * 1000 = row.ts := by ring
  refine ⟨fun out hout hne => ?_, fun j out hdecided hj => ?_, fun out hout hne =>
    exists_decidedAt hist hplan haction hne hout⟩
  · have hverdict := verdict_final.of_take ((hscored out).mp ⟨hout, hne⟩)
    refine ((scoreOne_iff hist hplan haction).mpr ?_).1
    rwa [hcreated, after_eq_drop hist.ascending hi]
  · have hverdict := (scoreOne_iff (hist.take (j + 1)) hplan haction).mp hdecided.1
    rw [hcreated, after_take hist.ascending hi] at hverdict
    have hpos : i < j := by
      by_contra hle
      rw [show j + 1 - (i + 1) = 0 by omega, List.take_zero, verdict_final.nil] at hverdict
      cases hverdict
    have hle : j + 1 - (i + 1) ≤ n := by
      have := hn (by omega)
      omega
    exact ((hscored out).mpr (verdict_final.take_mono hle hverdict)).1

/-- Half of the position goes at 110, the rest at 120. -/
def halvesPlan : ManagementPlan where
  action := .str "BUY"
  entry := .float (.fin 100)
  initialStop := .float (.fin 90)
  legs := [⟨.float (.fin 110), .float (.fin (1 / 2))⟩, ⟨.float (.fin 120), .float (.fin (1 / 2))⟩]

/-- The bar of the signal. -/
def signalBar : Row := ⟨60000, 99, 101, 98, 100⟩

/-- Two more bars, which reach the targets. -/
def halvesRows : List Row :=
  [signalBar, ⟨120000, 100, 112, 95, 111⟩, ⟨180000, 111, 121, 109, 120⟩]

def halvesCandles : List Kwargs := halvesRows.map fun r =>
  [("timestamp_ms", .int (truncate r.ts)), ("open", .float (.fin r.open)),
    ("high", .float (.fin r.high)), ("low", .float (.fin r.low)),
    ("close", .float (.fin r.close)), ("volume", .int 1000)]

def halvesNum : NumSyntax PyNum := .ofTable [(.float (.fin 100), "100.0".toList),
  (.float (.fin 90), "90.0".toList), (.float (.fin 110), "110.0".toList),
  (.float (.fin 120), "120.0".toList), (.float (.fin (1 / 2)), "0.5".toList)]

theorem isHistory_halves : IsHistory (halvesCandles.map PyVal.dict) halvesRows := by
  rw [halvesCandles, List.map_map]
  refine isHistory_map ?_ (by decide +kernel)
  simp only [halvesRows, List.forall_mem_cons]
  exact ⟨⟨60000, rfl, by decide⟩, ⟨120000, rfl, by decide⟩, ⟨180000, rfl, by decide⟩,
    List.forall_mem_nil _⟩

theorem planFromJson_halves :
    ∀ p ∈ some halvesPlan, planFromJson halvesNum (planToJson halvesNum p) = some p := by
  rintro p ⟨⟩
  have h : ∀ q ∈ [100, 90, 110, 120, 1 / 2], halvesNum.Readable (.float (.fin q)) := by
    decide +kernel
  simp only [List.forall_mem_cons] at h
  obtain ⟨h100, h90, h110, h120, hhalf, -⟩ := h
  refine planFromJson_planToJson ?_ ?_
  · exact ⟨trivial, h100, h90, ⟨⟨h110, hhalf, trivial⟩, ⟨h120, hhalf, trivial⟩, trivial⟩, trivial,
      trivial, trivial, trivial⟩
  · simp [halvesPlan, ManagementPlan.payload, ScaleOutLeg.payload, optionalPayload, Distinct,
      DistinctList, DistinctMembers]

theorem backtest_agrees_with_journal_halves :
    let trade := tradeRow halvesNum (some halvesPlan) ⟨"BUY", 100, 90, 120⟩ (signalBar.ts / 1000)
    let scored := scoreAt round4 Text.Casing.ascii (some halvesPlan) ⟨"BUY", 100, 90, 120⟩
      halvesCandles 0 200
    (∀ out, scored = some out → out.1 ≠ .expired →
      (scoreOne Text.Casing.ascii halvesNum round4 240 604800 trade
        (halvesCandles.map PyVal.dict)).map ScoreUpdate.core = some out) ∧
    (∀ j out, DecidedAt Text.Casing.ascii halvesNum round4 240 604800 trade
        (halvesCandles.map PyVal.dict) j out →
      (j : ℤ) ≤ (0 : ℕ) + 200 → scored = some out) ∧
    ∀ out, (scoreOne Text.Casing.ascii halvesNum round4 240 604800 trade
        (halvesCandles.map PyVal.dict)).map ScoreUpdate.core = some out → out.1 ≠ .expired →
      ∃ j < halvesRows.length, DecidedAt Text.Casing.ascii halvesNum round4 240 604800 trade
        (halvesCandles.map PyVal.dict) j out :=
  backtest_agrees_with_journal Text.Casing.ascii round4 240 604800 200 (.inl rfl)
    planFromJson_halves isHistory_halves
    (show halvesRows[0]? = some signalBar from rfl)

end AiTrader.Backtest
