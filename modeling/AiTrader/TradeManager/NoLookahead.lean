import AiTrader.TradeManager.Replay
import AiTrader.TradeManager.Steps

/-! # No lookahead

The cleaning sorts by the whole row, so the order in which the candles come does not matter, and
candles that are later than all others come last (`cleanCandles_append`).  A run over them goes on
where the earlier candles left it (`simLoop_append_open`), and a fill or a move of the stop to
breakeven is never taken back.

An exception takes everything back: it is caught, and what comes out is an open result without
fills.  A fraction that is no number raises, and so does a number that is too large for a double;
of these a leg's target raises at the first candle that leaves the position open. -/

namespace AiTrader.TradeManager

/-! ### The order of the rows -/

theorem Row.key_injective : Function.Injective Row.key := by
  intro a b h
  obtain ⟨hts, h⟩ := Prod.mk.inj (toLex.injective h)
  obtain ⟨hopen, h⟩ := Prod.mk.inj (toLex.injective h)
  obtain ⟨hhigh, h⟩ := Prod.mk.inj (toLex.injective h)
  obtain ⟨hlow, hclose⟩ := Prod.mk.inj (toLex.injective h)
  cases a
  cases b
  simp only [Row.mk.injEq]
  exact ⟨hts, hopen, hhigh, hlow, hclose⟩

theorem Row.key_lt_of_ts_lt {a b : Row} (h : a.ts < b.ts) : a.key < b.key :=
  Prod.Lex.toLex_lt_toLex.mpr (.inl h)

/-- The relation that the cleaning sorts by. -/
abbrev Row.Before (a b : Row) : Prop := a.key ≤ b.key

instance : Std.Total Row.Before := ⟨fun a b => le_total a.key b.key⟩

instance : IsTrans Row Row.Before := ⟨fun _ _ _ => le_trans⟩

instance : Std.Antisymm Row.Before := ⟨fun _ _ hab hba => Row.key_injective (le_antisymm hab hba)⟩

/-- Every usable candle of `future` is later than every usable candle of `past`. -/
def Later (past future : List PyVal) : Prop :=
  ∀ c ∈ past, ∀ d ∈ future, ∀ a b, cleanCandle c = some a → cleanCandle d = some b → a.ts < b.ts

/-- **Later candles come last**, in whatever order the candles were given. -/
theorem cleanCandles_append {past future candles : List PyVal} (hlater : Later past future)
    (hperm : candles.Perm (past ++ future)) :
    cleanCandles candles = cleanCandles past ++ cleanCandles future := by
  have hrows : (candles.filterMap cleanCandle).Perm
      (past.filterMap cleanCandle ++ future.filterMap cleanCandle) := by
    rw [← List.filterMap_append]
    exact hperm.filterMap cleanCandle
  have hsort (rows : List Row) : (rows.insertionSort Row.Before).Perm rows :=
    List.perm_insertionSort Row.Before rows
  apply List.Perm.eq_of_pairwise' (r := Row.Before)
  · exact List.pairwise_insertionSort Row.Before _
  · rw [List.pairwise_append]
    refine ⟨List.pairwise_insertionSort Row.Before _, List.pairwise_insertionSort Row.Before _,
      fun a ha b hb => ?_⟩
    obtain ⟨c, hc, hca⟩ := List.mem_filterMap.mp ((hsort _).mem_iff.mp ha)
    obtain ⟨d, hd, hdb⟩ := List.mem_filterMap.mp ((hsort _).mem_iff.mp hb)
    exact (Row.key_lt_of_ts_lt (hlater c hc d hd a b hca hdb)).le
  · exact (hsort _).trans (hrows.trans ((hsort _).symm.append (hsort _).symm))

namespace Levels

variable {L : Levels} {s s' : Sim} {row : Row} {leg : ScaleOutLeg} {i : ℕ}

/-! ### What later candles cannot take back -/

/-- `s'` is a later state than `s`: fills were only added, and once the stop was moved to breakeven
it stays recorded when. -/
structure Extends (s s' : Sim) : Prop where
  fills : s.fills <+: s'.fills
  moved : s.breakevenMoved = true →
    s'.breakevenMoved = true ∧ s'.breakevenMovedAt = s.breakevenMovedAt

theorem Extends.refl (s : Sim) : Extends s s := ⟨List.prefix_rfl, fun h => ⟨h, rfl⟩⟩

theorem Extends.trans {t : Sim} (hst : Extends s t) (hts' : Extends t s') : Extends s s' where
  fills := hst.fills.trans hts'.fills
  moved h := by
    obtain ⟨hmoved, hat⟩ := hst.moved h
    obtain ⟨hmoved', hat'⟩ := hts'.moved hmoved
    exact ⟨hmoved', hat'.trans hat⟩

theorem extends_fillLeg (h : L.fillLeg row s i leg = some s') : Extends s s' := by
  rcases fillLeg_cases h with rfl | ⟨-, -, -, -, -, rfl⟩ | ⟨target, -, frac, -, -, -, -, -, -, rfl⟩
  · exact Extends.refl s'
  · exact ⟨List.prefix_rfl, fun h => ⟨h, rfl⟩⟩
  · exact ⟨List.prefix_append _ _, fun h => ⟨h, rfl⟩⟩

theorem extends_fillLegs (h : L.fillLegs row s 0 L.legs = some s') : Extends s s' :=
  fillLegs_induction (fun _ _ _ _ _ hs h => hs.trans (extends_fillLeg h))
    (fun k => by rw [Nat.zero_add]) (Extends.refl s) h

theorem extends_moveToBreakeven : Extends s (L.moveToBreakeven row s) := by
  rcases L.moveToBreakeven_cases row s with h | ⟨hnot, stop, origin, h⟩
  · rw [h]
    exact Extends.refl s
  · refine ⟨moveToBreakeven_fills ▸ List.prefix_rfl, fun hmoved => ?_⟩
    rw [hnot] at hmoved
    cases hmoved

theorem extends_trail : Extends s (L.trail row s) :=
  ⟨trail_fills ▸ List.prefix_rfl, fun h => ⟨trail_breakevenMoved.trans h, trail_breakevenMovedAt⟩⟩

theorem extends_simStep (h : L.simStep row s = .going s') : Extends s s' := by
  obtain ⟨t, ht, -, rfl⟩ := simStep_going h
  exact ((extends_fillLegs ht).trans extends_moveToBreakeven).trans extends_trail

/-- The mark is set where the time is. -/
def Marked (s : Sim) : Prop := s.breakevenMovedAt ≠ none → s.breakevenMoved = true

theorem marked_simStep (hs : Marked s) (h : L.simStep row s = .going s') : Marked s' := by
  obtain ⟨t, ht, -, rfl⟩ := simStep_going h
  have hmarked : Marked t :=
    fillLegs_induction (I := Marked) (fun u u' i leg _ hu h => by
        rcases fillLeg_cases h with rfl | ⟨-, -, -, -, -, rfl⟩ | ⟨-, -, -, -, -, -, -, -, -, rfl⟩ <;>
          exact hu)
      (fun k => by rw [Nat.zero_add]) hs ht
  intro hat
  rw [trail_breakevenMovedAt] at hat
  rw [trail_breakevenMoved]
  rcases L.moveToBreakeven_cases row t with h | ⟨-, stop, origin, h⟩
  · rw [h] at hat ⊢
    exact hmarked hat
  · rw [h]

/-- The plan's fractions can be compared with a number, where a target makes the code look. -/
def Comparable (legs : List ScaleOutLeg) : Prop :=
  ∀ leg ∈ legs, (finiteNum leg.target).isSome → (comparable leg.fraction).isSome

/-- No leg raises. -/
structure Readable (legs : List ScaleOutLeg) : Prop where
  small : ∀ leg ∈ legs, tooLarge leg.target = false
  comparable : Comparable legs

theorem simStep_ne_raised (hlegs : Readable L.legs) : L.simStep row s ≠ .raised := by
  intro h
  obtain ⟨s', hs'⟩ := L.fillLegs_isSome row s 0 hlegs.small hlegs.comparable
  rw [simStep_raised h] at hs'
  cases hs'

theorem simLoop_extends (hlegs : Readable L.legs) (rows : List Row) :
    s.fills <+: (L.simLoop s rows).fills ∧
      (s.breakevenMoved = true → (L.simLoop s rows).breakevenMovedAt = s.breakevenMovedAt) := by
  rcases simLoop_cases (fun _ _ _ hs h => hs.trans (extends_simStep h)) (Extends.refl s) rows with
    ⟨t, ht, hrun⟩ | ⟨t, row, r, ht, hdone, hrun⟩ | ⟨t, row, -, hraised, -⟩
  · rw [hrun]
    exact ⟨ht.fills, fun h => (ht.moved h).2⟩
  · rw [hrun]
    rcases simStep_done_cases hdone with rfl | ⟨t', ht', -, rfl⟩
    · exact ⟨ht.fills.trans (List.prefix_append _ _), fun h => (ht.moved h).2⟩
    · have hext := ht.trans (extends_fillLegs ht')
      exact ⟨hext.fills, fun h => (hext.moved h).2⟩
  · exact absurd hraised (simStep_ne_raised hlegs)

/-- A run that is out of candles goes on where it stands. -/
theorem simLoop_append_open (hlegs : Readable L.legs) (rows rows' : List Row) (hs : Marked s)
    (h : (L.simLoop s rows).status = .open) :
    ∃ t, Marked t ∧ L.simLoop s rows = openResult t ∧
      L.simLoop s (rows ++ rows') = L.simLoop t rows' := by
  induction rows generalizing s with
  | nil => exact ⟨s, hs, rfl, rfl⟩
  | cons row rows ih =>
      rw [List.cons_append, simLoop, simLoop]
      rw [simLoop] at h
      cases hout : L.simStep row s with
      | going s' =>
          rw [hout] at h
          exact ih (marked_simStep hs hout) h
      | done r =>
          rw [hout] at h
          exact absurd (h.symm.trans (simStep_done hout).1) SimStatus.noConfusion
      | raised => exact absurd hout (simStep_ne_raised hlegs)

/-- Later rows add to an open run. -/
theorem simLoop_open_prefix (hlegs : Readable L.legs) (rows rows' : List Row) (hs : Marked s)
    (h : (L.simLoop s rows).status = .open) :
    (L.simLoop s rows).fills <+: (L.simLoop s (rows ++ rows')).fills ∧
      ((L.simLoop s rows).breakevenMovedAt ≠ none →
        (L.simLoop s (rows ++ rows')).breakevenMovedAt = (L.simLoop s rows).breakevenMovedAt) := by
  obtain ⟨t, ht, hrun, hrest⟩ := simLoop_append_open hlegs rows rows' hs h
  rw [hrun, hrest]
  obtain ⟨hfills, hmoved⟩ := simLoop_extends (s := t) hlegs rows'
  exact ⟨hfills, fun hat => hmoved (ht hat)⟩

theorem fillLeg_uses (h : L.fillLeg row s i leg = some s') :
    s'.remaining ≤ s.remaining ∧ ∀ j ∈ s'.filledIndices, j = i ∨ j ∈ s.filledIndices := by
  rcases fillLeg_cases h with rfl | ⟨-, -, -, -, -, rfl⟩ | ⟨-, -, frac, -, -, -, -, -, hpos, rfl⟩
  · exact ⟨le_rfl, fun _ => .inr⟩
  · exact ⟨le_rfl, fun _ => List.mem_cons.mp⟩
  · exact ⟨sub_le_self _ hpos.le, fun _ => List.mem_cons.mp⟩

/-- A pass over the legs that leaves something to close has read every target. -/
theorem fillLegs_small {legs : List ScaleOutLeg} (h : L.fillLegs row s i legs = some s')
    (hopen : sizeTol < s'.remaining) (hused : ∀ j ∈ s.filledIndices, j < i) :
    sizeTol < s.remaining ∧ ∀ leg ∈ legs, tooLarge leg.target = false := by
  induction legs generalizing s i with
  | nil =>
      cases h
      exact ⟨hopen, fun _ hleg => nomatch hleg⟩
  | cons leg legs ih =>
      obtain ⟨t, ht, hrest⟩ := Option.bind_eq_some_iff.mp h
      obtain ⟨hle, huses⟩ := fillLeg_uses ht
      obtain ⟨htopen, hsmall⟩ := ih hrest fun j hj => by
        rcases huses j hj with rfl | hj
        · exact Nat.lt_succ_self j
        · exact (hused j hj).trans (Nat.lt_succ_self i)
      have hsopen := htopen.trans_le hle
      refine ⟨hsopen, List.forall_mem_cons.mpr ⟨?_, hsmall⟩⟩
      rw [fillLeg, if_neg] at ht
      · by_contra hlarge
        rw [if_pos ((Bool.not_eq_false _).mp hlarge)] at ht
        cases ht
      · rintro (hmem | hclosed)
        · exact absurd (hused i hmem) (lt_irrefl i)
        · exact absurd hclosed (not_le.mpr hsopen)

/-- The same from the start, where a target that is too large raises before anything is filled. -/
theorem simLoop_start_prefix (hlegs : Comparable L.legs) (rows rows' : List Row)
    (h : (L.simLoop L.start rows).status = .open) :
    (L.simLoop L.start rows).fills <+: (L.simLoop L.start (rows ++ rows')).fills ∧
      ((L.simLoop L.start rows).breakevenMovedAt ≠ none →
        (L.simLoop L.start (rows ++ rows')).breakevenMovedAt =
          (L.simLoop L.start rows).breakevenMovedAt) := by
  cases rows with
  | nil => exact ⟨List.nil_prefix, fun hat => absurd rfl hat⟩
  | cons row rows =>
      cases hout : L.simStep row L.start with
      | going s =>
          obtain ⟨t, ht, hopen, -⟩ := simStep_going hout
          obtain ⟨-, hsmall⟩ := fillLegs_small ht hopen fun _ hj => nomatch hj
          exact simLoop_open_prefix ⟨hsmall, hlegs⟩ _ _ (fun hat => absurd rfl hat) h
      | done r =>
          rw [simLoop, hout] at h
          exact absurd (h.symm.trans (simStep_done hout).1) SimStatus.noConfusion
      | raised =>
          have hrun : L.simLoop L.start (row :: rows) = raisedResult := by rw [simLoop, hout]
          rw [hrun]
          exact ⟨List.nil_prefix, fun hat => absurd rfl hat⟩

end Levels

/-! ### A plan -/

theorem simulatePlan_ok {C : Text.Casing} {plan : ManagementPlan} {L : Levels}
    {candles : List PyVal} (hL : opening C plan = .ok L)
    (hread : candles.any cleanRaises = false) :
    simulatePlan C plan candles = L.simLoop L.start (cleanCandles candles) := by
  rw [simulatePlan, hL]
  dsimp only
  rw [hread, if_neg Bool.false_ne_true]

/-- Half of the position goes at 110, and `rest` at 120. -/
def twoTargetPlan (rest : PyVal) : ManagementPlan where
  action := .str "BUY"
  entry := .float (.fin 100)
  initialStop := .float (.fin 90)
  legs := [⟨.float (.fin 110), .float (.fin (1 / 2))⟩, ⟨.float (.fin 120), rest⟩]

/-- A candle that reaches `high`. -/
def risingCandle (ts high : ℤ) : PyVal :=
  .dict [("timestamp_ms", .int ts), ("open", .int 100), ("high", .int high), ("low", .int 95),
    ("close", .int 105)]

theorem later_rising : Later [risingCandle 60000 111] [risingCandle 120000 121] := by
  intro c hc d hd a b ha hb
  rw [List.mem_singleton.mp hc] at ha
  rw [List.mem_singleton.mp hd] at hb
  cases ha
  cases hb
  decide +kernel

/-- A later candle whose volume is too large for a double. -/
def hugeCandle : PyVal :=
  .dict [("timestamp_ms", .int 120000), ("open", .int 100), ("high", .int 111), ("low", .int 95),
    ("close", .int 105), ("volume", .int (10 ^ 400))]

theorem later_huge : Later [risingCandle 60000 121] [hugeCandle] := by
  intro c _ d hd a b _ hb
  have hnone : cleanCandle hugeCandle = none := by decide +kernel
  rw [List.mem_singleton.mp hd, hnone] at hb
  cases hb

end AiTrader.TradeManager
