import AiTrader.Journal.Schedule
import AiTrader.Journal.Touches
import AiTrader.Library.Transition
import Mathlib.Tactic.Linarith

/-! # What a late call has lost

A call sees the last candles of the history up to its time, as many as the limit says.  When the
first candle that touches a level has dropped out of this window before any call has seen it, a
later touch is recorded in its place, or the trade expires (`outcome_stated_iff`). -/

namespace AiTrader.Journal

open Json PyJson TradeManager Transition

/-! ### The window -/

/-- The candles up to `nowMs`. -/
def upTo (nowMs : ℚ) (candles : List PyVal) : List PyVal :=
  candles.filter fun c => (timestampMs c).any fun ts => decide (ts ≤ nowMs)

/-- The last `limit` of them. -/
def lastCandles (limit : ℕ) (nowMs : ℚ) (candles : List PyVal) : List PyVal :=
  (upTo nowMs candles).drop ((upTo nowMs candles).length - limit)

/-- The rows up to `nowMs`. -/
def rowsUpTo (nowMs : ℚ) (rows : List Row) : List Row := rows.filter fun r => decide (r.ts ≤ nowMs)

/-- The rows that the window shows. -/
def shown (limit : ℕ) (nowMs : ℚ) (rows : List Row) : List Row :=
  (rowsUpTo nowMs rows).drop ((rowsUpTo nowMs rows).length - limit)

/-- The rows that have dropped out of it. -/
def lost (limit : ℕ) (nowMs : ℚ) (rows : List Row) : List Row :=
  (rowsUpTo nowMs rows).take ((rowsUpTo nowMs rows).length - limit)

section
variable {limit : ℕ} {nowMs : ℚ} {candles : List PyVal} {rows : List Row} {r : Row}

theorem lastCandles_history (h : IsHistory candles rows) :
    IsHistory (lastCandles limit nowMs candles) (shown limit nowMs rows) := by
  have hup : IsHistory (upTo nowMs candles) (rowsUpTo nowMs rows) :=
    filter_history (fun ts => decide (ts ≤ nowMs)) h
  rw [lastCandles, shown, hup.length_eq]
  exact hup.drop _

/-- What is not shown has dropped out or is still to come. -/
theorem lost_shown_later (h : IsHistory candles rows) :
    lost limit nowMs rows ++ shown limit nowMs rows ++
      rows.filter (fun r => decide (nowMs < r.ts)) = rows := by
  rw [lost, shown, List.take_append_drop, rowsUpTo]
  have hasc := h.ascending
  clear h
  induction rows with
  | nil => rfl
  | cons r rows ih =>
      obtain ⟨hfirst, hrest⟩ := List.pairwise_cons.mp hasc
      by_cases hr : r.ts ≤ nowMs
      · rw [List.filter_cons_of_pos (by simpa using hr),
          List.filter_cons_of_neg (by simpa using hr), List.cons_append, ih hrest]
      · have hlater : ∀ r' ∈ rows, nowMs < r'.ts := fun r' hr' =>
          (not_le.mp hr).trans (hfirst r' hr')
        rw [List.filter_cons_of_neg (by simpa using hr),
          List.filter_cons_of_pos (by simpa using hr),
          List.filter_eq_nil_iff.mpr (fun r' hr' => by simpa using hlater r' hr'),
          List.filter_eq_self.mpr (fun r' hr' => decide_eq_true (hlater r' hr')),
          List.nil_append]

end

/-! ### The trade -/

/-- The numbers of a trade that can be scored. -/
structure TradeNumbers where
  entry : ℚ
  stop : ℚ
  target : ℚ
  createdAt : ℚ

/-- They are there, and there is a risk. -/
def TradeRow.numbers (trade : TradeRow) : Option TradeNumbers := do
  let entry ← finiteNum trade.entry
  let stop ← finiteNum trade.stopLoss
  let target ← finiteNum trade.takeProfit
  let createdAt ← finiteNum trade.createdAt
  if entry = stop then none else return ⟨entry, stop, target, createdAt⟩

section
variable (C : Text.Casing) (rounded : ℚ → ℚ) (expirySeconds : ℚ) (trade : TradeRow)

/-- What a candle decides for a trade: it comes after the entry and touches a level. -/
def touchOf (r : Row) : Option ScoreUpdate :=
  match trade.numbers with
  | none => none
  | some t =>
      if r.ts ≤ t.createdAt * 1000 then none
      else touch rounded (decide (C.upper trade.action = "BUY")) t.stop t.target
        (rewardRisk t.entry t.stop t.target) r.ts r.high r.low

/-- The candle comes within the expiry time after the entry. -/
def InTime (r : Row) : Prop :=
  ∀ t, trade.numbers = some t → r.ts ≤ (t.createdAt + expirySeconds) * 1000

/-- A recorded win or loss is what the first touching candle of the history decides, and a trade
is recorded as expired only if no candle within the expiry time touches a level. -/
def Stated (rows : List Row) : TradeStatus → Prop
  | .scored upd _ =>
      if upd.status = .expired then
        ∀ r ∈ rows, InTime expirySeconds trade r → touchOf C rounded trade r = none
      else rows.findSome? (touchOf C rounded trade) = some upd
  | _ => True

/-- At `now` the trade is too old, and the window has a candle after the entry. -/
def Expires (now : ℚ) (window : List Row) : Prop :=
  ∃ t, trade.numbers = some t ∧ expirySeconds < now - t.createdAt ∧
    ∃ r ∈ window, t.createdAt * 1000 < r.ts

/-- The window at `now` still has what decides: if a candle in it touches a level, none that has
dropped out does; if none does and the trade expires, none that has dropped out within the expiry
time does. -/
def Kept (limit : ℕ) (rows : List Row) (now : ℚ) : Prop :=
  ((∃ r ∈ shown limit (now * 1000) rows, touchOf C rounded trade r ≠ none) →
    ∀ r ∈ lost limit (now * 1000) rows, touchOf C rounded trade r = none) ∧
  ((∀ r ∈ shown limit (now * 1000) rows, touchOf C rounded trade r = none) →
    Expires expirySeconds trade now (shown limit (now * 1000) rows) →
    ∀ r ∈ lost limit (now * 1000) rows, InTime expirySeconds trade r →
      touchOf C rounded trade r = none)

end

section
variable {C : Text.Casing} {N : NumSyntax PyNum} {rounded : ℚ → ℚ} {expirySeconds now : ℚ}
  {trade : TradeRow} {limit : ℕ} {candles : List PyVal} {rows window : List Row} {r : Row}
  {upd : ScoreUpdate}

theorem touchOf_ne_expired (h : touchOf C rounded trade r = some upd) :
    upd.status ≠ .expired ∧ upd.outcomeAt = some (r.ts / 1000) := by
  unfold touchOf at h
  split at h
  · cases h
  · split at h
    · cases h
    · exact ⟨touch_ne_expired h, touch_outcomeAt h⟩

theorem numbers_eq_some {t : TradeNumbers} (h : trade.numbers = some t) :
    (finiteNum trade.entry = some t.entry ∧ finiteNum trade.stopLoss = some t.stop) ∧
      (finiteNum trade.takeProfit = some t.target ∧
        finiteNum trade.createdAt = some t.createdAt) ∧ t.entry ≠ t.stop := by
  unfold TradeRow.numbers at h
  simp only [Option.bind_eq_bind, Option.bind_eq_some_iff, Option.pure_def] at h
  obtain ⟨entry, hentry, stop, hstop, target, htarget, createdAt, hcreated, h⟩ := h
  split at h
  · cases h
  · rename_i hrisk
    cases h
    exact ⟨⟨hentry, hstop⟩, ⟨htarget, hcreated⟩, hrisk⟩

/-- Without the numbers nothing is ever scored. -/
theorem scoreSingleTarget_of_numbers (h : trade.numbers = none) :
    scoreSingleTarget C rounded now expirySeconds trade candles = none := by
  unfold TradeRow.numbers at h
  unfold scoreSingleTarget
  cases hentry : finiteNum trade.entry with
  | none => rfl
  | some entry =>
      cases hstop : finiteNum trade.stopLoss with
      | none => rfl
      | some stop =>
          cases htarget : finiteNum trade.takeProfit with
          | none => rfl
          | some target =>
              cases hcreated : finiteNum trade.createdAt with
              | none => rfl
              | some createdAt =>
                  simp only [hentry, hstop, htarget, hcreated, Option.bind_eq_bind,
                    Option.bind_some] at h ⊢
                  split at h
                  · rename_i hrisk
                    rw [if_pos (abs_nonpos_iff.mpr (sub_eq_zero.mpr hrisk))]
                  · cases h

theorem findSome?_touchOf {t : TradeNumbers} (h : trade.numbers = some t) (rows : List Row) :
    rows.findSome? (touchOf C rounded trade) =
      firstTouch rounded (decide (C.upper trade.action = "BUY")) t.stop t.target
        (rewardRisk t.entry t.stop t.target) (after (t.createdAt * 1000) rows) := by
  induction rows with
  | nil => rfl
  | cons r rows ih =>
      rw [List.findSome?_cons, touchOf, h]
      dsimp only
      by_cases hle : r.ts ≤ t.createdAt * 1000
      · rw [if_pos hle, after_cons_of_le hle]
        exact ih
      · rw [if_neg hle, after_cons_of_lt hle, firstTouch, List.findSome?_cons, ih]
        rfl

theorem touchOf_of_numbers (h : trade.numbers = none) (r : Row) :
    touchOf C rounded trade r = none := by
  rw [touchOf, h]

theorem lastAfter_eq_none (createdMs : ℚ) (rows : List Row) :
    lastAfter createdMs rows = none ↔ ¬ ∃ r ∈ rows, createdMs < r.ts := by
  rw [lastAfter, List.getLast?_eq_none_iff, List.map_eq_nil_iff, after, List.filter_eq_nil_iff]
  simp

/-- What `_score_one` makes of a window: its first touch, or the trade expires. -/
theorem scoreOne_window (hist : IsHistory candles window)
    (hsingle : nonempty trade.managementPlan = none) :
    (∀ upd, window.findSome? (touchOf C rounded trade) = some upd →
      scoreOne C N rounded now expirySeconds trade candles = some upd) ∧
    (window.findSome? (touchOf C rounded trade) = none →
      ((Expires expirySeconds trade now window →
          ∃ upd, scoreOne C N rounded now expirySeconds trade candles = some upd ∧
            upd.status = .expired) ∧
        (¬ Expires expirySeconds trade now window →
          scoreOne C N rounded now expirySeconds trade candles = none))) := by
  have hlegacy : scoreOne C N rounded now expirySeconds trade candles =
      scoreSingleTarget C rounded now expirySeconds trade candles := by
    unfold scoreOne
    cases hplan : trade.managementPlan with
    | none => rfl
    | some planText =>
        rw [hplan, nonempty, Option.filter_some] at hsingle
        dsimp only
        rw [if_pos]
        by_contra hne
        simp [hne] at hsingle
  rw [hlegacy]
  cases ht : trade.numbers with
  | none =>
      rw [scoreSingleTarget_of_numbers ht]
      refine ⟨fun upd hupd => ?_, fun _ => ⟨?_, fun _ => rfl⟩⟩
      · rw [List.findSome?_eq_none_iff.mpr fun r _ => touchOf_of_numbers ht r] at hupd
        cases hupd
      · rintro ⟨t, ht', -⟩
        cases ht.symm.trans ht'
  | some t =>
      obtain ⟨⟨hentry, hstop⟩, ⟨htarget, hcreated⟩, hrisk⟩ := numbers_eq_some ht
      rw [scoreSingleTarget_eq hist hentry hstop htarget hcreated hrisk, findSome?_touchOf ht]
      refine ⟨fun upd hupd => by rw [hupd, Option.some_or], fun hnone => ?_⟩
      rw [hnone, Option.none_or]
      constructor
      · rintro ⟨t', ht', hold, r, hr, hafter⟩
        cases ht.symm.trans ht'
        unfold expire
        cases hlast : lastAfter (t.createdAt * 1000) window with
        | none => exact absurd ⟨r, hr, hafter⟩ ((lastAfter_eq_none _ _).mp hlast)
        | some ts => exact ⟨_, by dsimp only; rw [if_pos hold], rfl⟩
      · intro hnot
        unfold expire
        cases hlast : lastAfter (t.createdAt * 1000) window with
        | none => rfl
        | some ts =>
            dsimp only
            rw [if_neg]
            intro hold
            refine hnot ⟨t, ht, hold, ?_⟩
            by_contra hno
            rw [(lastAfter_eq_none _ _).mpr hno] at hlast
            cases hlast

/-! ### What a call records -/

/-- A win or a loss recorded by a call is the stated one exactly when no touching candle has
dropped out of its window. -/
theorem stated_of_touch (hist : IsHistory candles rows) {nowMs : ℚ}
    (hupd : (shown limit nowMs rows).findSome? (touchOf C rounded trade) = some upd) :
    rows.findSome? (touchOf C rounded trade) = some upd ↔
      ∀ r ∈ lost limit nowMs rows, touchOf C rounded trade r = none := by
  have hsplit := @lost_shown_later limit nowMs _ rows hist
  have hfind : rows.findSome? (touchOf C rounded trade) =
      ((lost limit nowMs rows).findSome? (touchOf C rounded trade)).or (some upd) := by
    rw [← hsplit, List.findSome?_append, List.findSome?_append, hsplit, hupd]
    cases (lost limit nowMs rows).findSome? (touchOf C rounded trade) with
    | none => rfl
    | some u => rfl
  rw [hfind, ← List.findSome?_eq_none_iff]
  refine ⟨fun h => ?_, fun h => by rw [h, Option.none_or]⟩
  cases hlost : (lost limit nowMs rows).findSome? (touchOf C rounded trade) with
  | none => rfl
  | some u =>
      -- two candles of one history are not touched at one time
      rw [hlost, Option.some_or, Option.some.injEq] at h
      subst h
      obtain ⟨r, hr, htouch⟩ := List.exists_of_findSome?_eq_some hlost
      obtain ⟨r', hr', htouch'⟩ := List.exists_of_findSome?_eq_some hupd
      have hasc := hist.ascending
      rw [← hsplit] at hasc
      have hlt : r.ts < r'.ts := (List.pairwise_append.mp (List.pairwise_append.mp hasc).1).2.2
        r hr r' hr'
      have htime := (touchOf_ne_expired htouch).2.symm.trans (touchOf_ne_expired htouch').2
      rw [Option.some.injEq, div_left_inj' (by norm_num)] at htime
      exact absurd htime hlt.ne

/-- A trade recorded as expired is stated to be so exactly when no candle that touches within the
expiry time has dropped out. -/
theorem stated_of_expired (hist : IsHistory candles rows)
    (hnone : ∀ r ∈ shown limit (now * 1000) rows, touchOf C rounded trade r = none)
    (hexp : Expires expirySeconds trade now (shown limit (now * 1000) rows)) :
    (∀ r ∈ rows, InTime expirySeconds trade r → touchOf C rounded trade r = none) ↔
      ∀ r ∈ lost limit (now * 1000) rows, InTime expirySeconds trade r →
        touchOf C rounded trade r = none := by
  have hsplit := @lost_shown_later limit (now * 1000) _ rows hist
  obtain ⟨t, ht, hold, -⟩ := hexp
  constructor
  · intro h r hr
    refine h r ?_
    rw [← hsplit]
    exact List.mem_append_left _ (List.mem_append_left _ hr)
  · intro h r hr hin
    rw [← hsplit, List.mem_append, List.mem_append] at hr
    rcases hr with (hr | hr) | hr
    · exact h r hr hin
    · exact hnone r hr
    · -- what is still to come is later than the expiry
      have hlater := of_decide_eq_true (List.mem_filter.mp hr).2
      have := hin t ht
      linarith

end

/-! ### Runs -/

section
variable (C : Text.Casing) (N : NumSyntax PyNum) (rounded : ℚ → ℚ) (expirySeconds : ℚ) (limit : ℕ)
  (history : String → String → List PyVal)

/-- The candles that a call fetches. -/
def seen (call : Call) (sym tf : String) : List PyVal :=
  lastCandles limit (call.now * 1000) (history sym tf)

/-- A row after a schedule of calls. -/
def runRow (calls : List Call) (row : StoredTrade) : StoredTrade :=
  calls.foldl (fun row call => rescore C N rounded expirySeconds (seen limit history) call row) row

variable {C N rounded expirySeconds limit history} {row : StoredTrade} {rows : List Row}

theorem runCalls_eq_map (calls : List Call) (table : List StoredTrade) :
    runCalls C N rounded expirySeconds (seen limit history) calls table =
      table.map (runRow C N rounded expirySeconds limit history calls) := by
  induction calls generalizing table with
  | nil => exact (List.map_id table).symm
  | cons call calls ih =>
      rw [runCalls, List.foldl_cons]
      refine (ih _).trans ?_
      rw [scoreOpenTrades, List.map_map]
      rfl

theorem runRow_concat (calls : List Call) (call : Call) :
    runRow C N rounded expirySeconds limit history (calls ++ [call]) row =
      rescore C N rounded expirySeconds (seen limit history) call
        (runRow C N rounded expirySeconds limit history calls row) :=
  List.foldl_append

theorem rescore_frame (call : Call) :
    let row' := rescore C N rounded expirySeconds (seen limit history) call row
    row'.symbol = row.symbol ∧ row'.timeframe = row.timeframe ∧ row'.trade = row.trade := by
  unfold rescore
  split
  · exact ⟨rfl, rfl, rfl⟩
  · exact ⟨rfl, rfl, rfl⟩

theorem runRow_frame (calls : List Call) :
    let row' := runRow C N rounded expirySeconds limit history calls row
    row'.symbol = row.symbol ∧ row'.timeframe = row.timeframe ∧ row'.trade = row.trade := by
  induction calls using List.reverseRecOn with
  | nil => exact ⟨rfl, rfl, rfl⟩
  | append_singleton calls call ih =>
      obtain ⟨hsym, htf, htrade⟩ := ih
      obtain ⟨hsym', htf', htrade'⟩ := @rescore_frame C N rounded expirySeconds limit history
        (runRow C N rounded expirySeconds limit history calls row) call
      rw [runRow_concat]
      exact ⟨hsym'.trans hsym, htf'.trans htf, htrade'.trans htrade⟩

theorem group_eq_some {call : Call} {sym tf : String} (h : call.group row = some (sym, tf)) :
    row.status = .open ∧ nonempty row.symbol = some sym ∧ nonempty row.timeframe = some tf := by
  unfold Call.group at h
  split at h
  · rename_i hopen
    split at h
    · simp only [Option.bind_eq_bind, Option.bind_eq_some_iff, Option.pure_def] at h
      obtain ⟨sym', hsym, tf', htf, heq⟩ := h
      cases heq
      exact ⟨hopen, hsym, htf⟩
    · cases h
  · cases h

/-- The rows of a trade's symbol and timeframe. -/
def HistoryOf (history : String → String → List PyVal) (row : StoredTrade) (rows : List Row) :
    Prop :=
  ∀ sym tf, nonempty row.symbol = some sym → nonempty row.timeframe = some tf →
    IsHistory (history sym tf) rows

theorem outcomeOf_eq (hist : HistoryOf history row rows)
    (hsingle : nonempty row.trade.managementPlan = none) {call : Call} {sym tf : String}
    (hgroup : call.group row = some (sym, tf)) :
    outcomeOf C N rounded expirySeconds (seen limit history) call row =
      scoreOne C N rounded call.now expirySeconds row.trade (seen limit history call sym tf) := by
  obtain ⟨-, hsym, htf⟩ := group_eq_some hgroup
  have hwindow : IsHistory (seen limit history call sym tf)
      (shown limit (call.now * 1000) rows) := lastCandles_history (hist sym tf hsym htf)
  rw [outcomeOf, hgroup]
  dsimp only
  split
  · rename_i hempty
    have hshown : shown limit (call.now * 1000) rows = [] := by
      rw [← List.length_eq_zero_iff, ← hwindow.length_eq, List.isEmpty_iff.mp hempty]
      rfl
    rw [hshown] at hwindow
    refine (((scoreOne_window hwindow hsingle).2 rfl).2 ?_).symm
    rintro ⟨t, -, -, r, hr, -⟩
    cases hr
  · rfl

/-- **One call** records the stated outcome exactly when its window has kept what decides. -/
theorem rescore_stated_iff (hist : HistoryOf history row rows)
    (hsingle : nonempty row.trade.managementPlan = none) (call : Call)
    (hstated : Stated C rounded expirySeconds row.trade rows row.status) :
    Stated C rounded expirySeconds row.trade rows
        (rescore C N rounded expirySeconds (seen limit history) call row).status ↔
      ∀ sym tf, call.group row = some (sym, tf) →
        Kept C rounded expirySeconds row.trade limit rows call.now := by
  unfold rescore
  cases hgroup : call.group row with
  | none =>
      have hout : outcomeOf C N rounded expirySeconds (seen limit history) call row = none := by
        rw [outcomeOf, hgroup]
      rw [hout]
      exact iff_of_true hstated (by simp)
  | some group =>
      obtain ⟨sym, tf⟩ := group
      obtain ⟨hopen, hsym, htf⟩ := group_eq_some hgroup
      have hwindow : IsHistory (seen limit history call sym tf)
          (shown limit (call.now * 1000) rows) := lastCandles_history (hist sym tf hsym htf)
      obtain ⟨htouch, hquiet⟩ := @scoreOne_window C N rounded expirySeconds call.now row.trade _ _
        hwindow hsingle
      have hkept : (∀ sym' tf', some (sym, tf) = some (sym', tf') →
          Kept C rounded expirySeconds row.trade limit rows call.now) ↔
          Kept C rounded expirySeconds row.trade limit rows call.now :=
        ⟨fun h => h sym tf rfl, fun h _ _ _ => h⟩
      rw [outcomeOf_eq hist hsingle hgroup, hkept]
      cases hfind : (shown limit (call.now * 1000) rows).findSome?
          (touchOf C rounded row.trade) with
      | some upd =>
          obtain ⟨r, hr, hrtouch⟩ := List.exists_of_findSome?_eq_some hfind
          rw [htouch upd hfind]
          dsimp only [Stated]
          rw [if_neg (touchOf_ne_expired hrtouch).1,
            stated_of_touch (hist sym tf hsym htf) hfind]
          have hne : touchOf C rounded row.trade r ≠ none := by
            rw [hrtouch]
            exact Option.some_ne_none upd
          exact ⟨fun h => ⟨fun _ => h, fun hnone => absurd (hnone r hr) hne⟩,
            fun h => h.1 ⟨r, hr, hne⟩⟩
      | none =>
          have hnone := List.findSome?_eq_none_iff.mp hfind
          by_cases hexp : Expires expirySeconds row.trade call.now
              (shown limit (call.now * 1000) rows)
          · obtain ⟨upd, hupd, hstatus⟩ := (hquiet hfind).1 hexp
            rw [hupd]
            dsimp only [Stated]
            rw [if_pos hstatus, stated_of_expired (hist sym tf hsym htf) hnone hexp]
            exact ⟨fun h => ⟨fun ⟨r, hr, hne⟩ => absurd (hnone r hr) hne, fun _ _ => h⟩,
              fun h => h.2 hnone hexp⟩
          · rw [(hquiet hfind).2 hexp]
            refine iff_of_true hstated ⟨?_, fun _ h => absurd h hexp⟩
            rintro ⟨r, hr, hne⟩
            exact absurd (hnone r hr) hne

end

/-- **What is recorded is the stated outcome exactly when the windows keep what decides.**  A
single-target row of the journal, its history and a schedule of calls: after every part of the
schedule the row is open or has the stated outcome, if and only if every call that takes the row
while it is open sees a window that has kept what decides. -/
theorem outcome_stated_iff (C : Text.Casing) (N : NumSyntax PyNum) (rounded : ℚ → ℚ)
    (expirySeconds : ℚ) (limit : ℕ) (history : String → String → List PyVal)
    {table : List StoredTrade} {k : ℕ} {row : StoredTrade} {rows : List Row}
    (hk : table[k]? = some row) (hopen : row.status = .open)
    (hsingle : nonempty row.trade.managementPlan = none) (hist : HistoryOf history row rows)
    (calls : List Call) :
    (∀ calls', calls' <+: calls → ∀ row',
        (runCalls C N rounded expirySeconds (seen limit history) calls' table)[k]? = some row' →
        Stated C rounded expirySeconds row.trade rows row'.status) ↔
      ∀ calls' call, calls' ++ [call] <+: calls → ∀ row',
        (runCalls C N rounded expirySeconds (seen limit history) calls' table)[k]? = some row' →
        ∀ sym tf, call.group row' = some (sym, tf) →
          Kept C rounded expirySeconds row.trade limit rows call.now := by
  have hrun : ∀ calls' row',
      (runCalls C N rounded expirySeconds (seen limit history) calls' table)[k]? = some row' ↔
        runRow C N rounded expirySeconds limit history calls' row = row' := by
    intro calls' row'
    rw [runCalls_eq_map, List.getElem?_map, hk, Option.map_some, Option.some.injEq]
  simp only [hrun, forall_eq']
  refine forall_prefix_iff ?_ fun calls' call _ hstated => ?_
  · rw [runRow, List.foldl_nil, hopen]
    trivial
  · obtain ⟨hsym, htf, htrade⟩ := @runRow_frame C N rounded expirySeconds limit history row calls'
    rw [runRow_concat, ← htrade]
    refine rescore_stated_iff ?_ ?_ call ?_
    · intro sym tf hsym' htf'
      exact hist sym tf (hsym ▸ hsym') (htf ▸ htf')
    · rw [htrade]
      exact hsingle
    · rw [htrade]
      exact hstated

/-! ### A stop that scrolled out -/

/-- Bought at 100 with the stop at 90 and the target at 120. -/
def dipTrade : StoredTrade where
  symbol := some "SBIN"
  timeframe := some "1m"
  trade := ⟨"BUY", .float (.fin 100), .float (.fin 90), .float (.fin 120),
    .float (.fin 1700000000), none⟩
  status := .open

/-- The first minute goes through the stop. -/
def dip : Row := ⟨1700000060000, 100, 101, 85, 95⟩

/-- Then the price stays at the target. -/
def rally (k : ℕ) : Row := ⟨1700000120000 + 60000 * k, 121, 125, 119, 124⟩

def dipRows : List Row := dip :: (List.range 1000).map rally

/-- The next call comes a thousand and one minutes after the entry. -/
def lateCall : Call := ⟨1700060060, none⟩

def dipHistory (_ _ : String) : List PyVal := dipRows.map rowCandle

theorem isHistory_dip : IsHistory (dipRows.map rowCandle) dipRows := by
  refine isHistory_map ?_ ?_
  · rw [dipRows, List.forall_mem_cons]
    refine ⟨⟨1700000060000, rfl, by decide⟩, ?_⟩
    intro r hr
    obtain ⟨k, hk, rfl⟩ := List.mem_map.mp hr
    have hlt := List.mem_range.mp hk
    exact ⟨1700000120000 + 60000 * k, by rw [rally]; push_cast; rfl, by omega⟩
  · rw [dipRows, List.pairwise_cons]
    constructor
    · intro r hr
      obtain ⟨k, -, rfl⟩ := List.mem_map.mp hr
      have hk : (0 : ℚ) ≤ k := Nat.cast_nonneg k
      rw [dip, rally]
      dsimp only
      linarith
    · rw [List.pairwise_map]
      refine List.pairwise_lt_range.imp fun {a b} hab => ?_
      have hlt : (a : ℚ) < b := Nat.cast_lt.mpr hab
      rw [rally, rally]
      dsimp only
      linarith

theorem shown_dip : shown 1000 (lateCall.now * 1000) dipRows = (List.range 1000).map rally := by
  have hall : rowsUpTo (lateCall.now * 1000) dipRows = dipRows := by
    rw [rowsUpTo, List.filter_eq_self, dipRows, List.forall_mem_cons]
    refine ⟨by decide +kernel, fun r hr => ?_⟩
    obtain ⟨k, hk, rfl⟩ := List.mem_map.mp hr
    have hle : (k : ℚ) ≤ 999 := by
      exact_mod_cast Nat.le_of_lt_succ (List.mem_range.mp hk)
    rw [decide_eq_true_eq, rally, lateCall]
    dsimp only
    linarith
  rw [shown, hall, dipRows, List.length_cons, List.length_map, List.length_range]
  rfl

/-- **A stop that no call has seen is recorded as a win.** -/
theorem dip_recorded_win :
    HistoryOf dipHistory dipTrade dipRows ∧
    dipRows.findSome? (touchOf Text.Casing.ascii round4 dipTrade.trade) =
      some ⟨.loss, some 90, some 1700000060, some (-1), none⟩ ∧
    (runCalls Text.Casing.ascii (NumSyntax.ofTable []) round4 604800 (seen 1000 dipHistory)
        [lateCall] [dipTrade])[0]?.map StoredTrade.status =
      some (.scored ⟨.win, some 120, some 1700000120, some 2, none⟩ 1700060060) := by
  have hist : HistoryOf dipHistory dipTrade dipRows := fun _ _ _ _ => isHistory_dip
  have hfirst : (shown 1000 (lateCall.now * 1000) dipRows).findSome?
      (touchOf Text.Casing.ascii round4 dipTrade.trade) =
      some ⟨.win, some 120, some 1700000120, some 2, none⟩ := by
    have hrally : touchOf Text.Casing.ascii round4 dipTrade.trade (rally 0) =
        some ⟨.win, some 120, some 1700000120, some 2, none⟩ := by decide +kernel
    rw [shown_dip, List.range_succ_eq_map, List.map_cons, List.findSome?_cons, hrally]
  have hwindow : IsHistory (seen 1000 dipHistory lateCall "SBIN" "1m")
      (shown 1000 (lateCall.now * 1000) dipRows) := lastCandles_history isHistory_dip
  have hout : outcomeOf Text.Casing.ascii (NumSyntax.ofTable []) round4 604800
      (seen 1000 dipHistory) lateCall dipTrade = _ := outcomeOf_eq hist rfl rfl
  refine ⟨hist, ?_, ?_⟩
  · have hdip : touchOf Text.Casing.ascii round4 dipTrade.trade dip =
        some ⟨.loss, some 90, some 1700000060, some (-1), none⟩ := by decide +kernel
    rw [dipRows, List.findSome?_cons, hdip]
  · rw [(scoreOne_window hwindow rfl).1 _ hfirst] at hout
    have hrow : rescore Text.Casing.ascii (NumSyntax.ofTable []) round4 604800
        (seen 1000 dipHistory) lateCall dipTrade =
        { dipTrade with
          status := .scored ⟨.win, some 120, some 1700000120, some 2, none⟩ 1700060060 } := by
      rw [rescore, hout]
      rfl
    rw [runCalls, List.foldl_cons, List.foldl_nil, scoreOpenTrades, List.map_singleton, hrow]
    rfl

theorem outcome_stated_iff_dip :
    (∀ calls', calls' <+: [lateCall] → ∀ row',
        (runCalls Text.Casing.ascii (NumSyntax.ofTable []) round4 604800 (seen 1000 dipHistory)
          calls' [dipTrade])[0]? = some row' →
        Stated Text.Casing.ascii round4 604800 dipTrade.trade dipRows row'.status) ↔
      ∀ calls' call, calls' ++ [call] <+: [lateCall] → ∀ row',
        (runCalls Text.Casing.ascii (NumSyntax.ofTable []) round4 604800 (seen 1000 dipHistory)
          calls' [dipTrade])[0]? = some row' →
        ∀ sym tf, call.group row' = some (sym, tf) →
          Kept Text.Casing.ascii round4 604800 dipTrade.trade 1000 dipRows call.now :=
  outcome_stated_iff Text.Casing.ascii (NumSyntax.ofTable []) round4 604800 1000 dipHistory rfl rfl
    rfl (fun _ _ _ _ => isHistory_dip) [lateCall]

end AiTrader.Journal
