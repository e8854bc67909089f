import AiTrader.TradeManager.Simulation

/-! # Simulations of one history

A well-formed candle is cleaned to its numbers, and a history in order of time stays in order.  A
simulation that resolves has seen all it needs: more candles change nothing
(`simulateRows_append`). -/

namespace AiTrader.TradeManager

/-- `candle` is a dictionary with the numbers of `row`, its timestamp in milliseconds, and a
finite volume. -/
def IsCandle (candle : PyVal) (row : Row) : Prop :=
  ∃ d : Kwargs, candle = .dict d ∧
    finiteNum (Kwargs.get d "timestamp_ms") = some row.ts ∧
    finiteNum (Kwargs.get d "open") = some row.open ∧
    finiteNum (Kwargs.get d "high") = some row.high ∧
    finiteNum (Kwargs.get d "low") = some row.low ∧
    finiteNum (Kwargs.get d "close") = some row.close ∧
    (finiteNum (Kwargs.get d "volume")).isSome = true

/-- Candles of the rows, in ascending distinct timestamps. -/
structure IsHistory (candles : List PyVal) (rows : List Row) : Prop where
  candles : List.Forall₂ IsCandle candles rows
  ascending : rows.Pairwise (fun a b => a.ts < b.ts)

section
variable {candle : PyVal} {row : Row} {candles candles' : List PyVal} {rows rows' : List Row}

theorem tooLarge_of_finiteNum {v : PyVal} {q : ℚ} (h : finiteNum v = some q) :
    tooLarge v = false := by
  unfold finiteNum at h
  split at h
  · split at h
    · cases h
    · rename_i hsmall
      exact Bool.eq_false_iff.mpr hsmall
  · rfl
  · cases h

theorem cleanRaises_eq (h : IsCandle candle row) : cleanRaises candle = false := by
  obtain ⟨d, rfl, hts, ho, hh, hl, hc, hv⟩ := h
  obtain ⟨v, hv⟩ := Option.isSome_iff_exists.mp hv
  simp [cleanRaises, timestampRaises, hts, tooLarge_of_finiteNum hts, tooLarge_of_finiteNum ho,
    tooLarge_of_finiteNum hh, tooLarge_of_finiteNum hl, tooLarge_of_finiteNum hc,
    tooLarge_of_finiteNum hv]

theorem cleanCandle_eq (h : IsCandle candle row) : cleanCandle candle = some row := by
  obtain ⟨d, rfl, hts, ho, hh, hl, hc, hv⟩ := h
  have htime : candleTimestamp d = some row.ts := by rw [candleTimestamp, hts, Option.some_or]
  have hvolume : (List.lookup "volume" d).all (fun v => (finiteNum v).isSome) = true := by
    cases hlook : List.lookup "volume" d with
    | none => rfl
    | some v =>
        rw [Kwargs.get, hlook] at hv
        exact hv
  unfold cleanCandle
  simp only [ho, hh, hl, hc, hvolume, htime, Option.bind_eq_bind, Option.bind_some, if_true,
    Option.pure_def]

theorem filterMap_cleanCandle (h : List.Forall₂ IsCandle candles rows) :
    candles.filterMap cleanCandle = rows := by
  induction h with
  | nil => rfl
  | cons hc _ ih => rw [List.filterMap_cons_some (cleanCandle_eq hc), ih]

namespace IsHistory

theorem cleanCandles_eq (h : IsHistory candles rows) : cleanCandles candles = rows := by
  rw [cleanCandles, filterMap_cleanCandle h.candles]
  refine List.Pairwise.insertionSort_eq (h.ascending.imp fun hlt => ?_)
  exact (Prod.Lex.toLex_lt_toLex.mpr (.inl hlt)).le

theorem cleanRaises_eq (h : IsHistory candles rows) : candles.any cleanRaises = false := by
  have hcandles := h.candles
  induction hcandles with
  | nil => rfl
  | cons hc _ ih =>
      rw [List.any_cons, TradeManager.cleanRaises_eq hc, Bool.false_or]
      exact ih ⟨‹_›, (List.pairwise_cons.mp h.ascending).2⟩

theorem take (h : IsHistory candles rows) (n : ℕ) : IsHistory (candles.take n) (rows.take n) :=
  ⟨List.forall₂_take n h.candles, h.ascending.sublist (List.take_sublist n rows)⟩

theorem drop (h : IsHistory candles rows) (n : ℕ) : IsHistory (candles.drop n) (rows.drop n) :=
  ⟨List.forall₂_drop n h.candles, h.ascending.sublist (List.drop_sublist n rows)⟩

theorem length_eq (h : IsHistory candles rows) : candles.length = rows.length :=
  h.candles.length_eq

end IsHistory

end

/-! ### Candles of whole milliseconds -/

theorem truncate_intCast (z : ℤ) : truncate (z : ℚ) = z := by
  rw [truncate, Rat.num_intCast, Rat.den_intCast]
  exact Int.tdiv_one z

/-- The candle of a row. -/
def rowCandle (r : Row) : PyVal :=
  .dict [("timestamp_ms", .int (truncate r.ts)), ("open", .float (.fin r.open)),
    ("high", .float (.fin r.high)), ("low", .float (.fin r.low)),
    ("close", .float (.fin r.close)), ("volume", .int 1000)]

theorem tooLarge_of_lt {z : ℤ} (h : z.natAbs < 2 ^ 64) : tooLarge (.int z) = false := by
  have hzero : ∀ n, 64 ≤ n → z.natAbs >>> n = 0 := fun n hn =>
    Nat.shiftRight_eq_zero _ _ (h.trans_le (Nat.pow_le_pow_right (by decide) hn))
  rw [tooLarge, hzero 970 (by decide)]
  decide

theorem isCandle_rowCandle {r : Row} (h : ∃ z : ℤ, r.ts = z ∧ z.natAbs < 2 ^ 64) :
    IsCandle (rowCandle r) r := by
  obtain ⟨z, hz, hsmall⟩ := h
  refine ⟨_, rfl, ?_, rfl, rfl, rfl, rfl, rfl⟩
  show finiteNum (.int (truncate r.ts)) = some r.ts
  rw [hz, truncate_intCast, finiteNum, tooLarge_of_lt hsmall]
  rfl

theorem isHistory_map {rows : List Row}
    (h : ∀ r ∈ rows, ∃ z : ℤ, r.ts = z ∧ z.natAbs < 2 ^ 64)
    (hasc : rows.Pairwise fun a b => a.ts < b.ts) : IsHistory (rows.map rowCandle) rows := by
  refine ⟨?_, hasc⟩
  rw [List.forall₂_map_left_iff, List.forall₂_same]
  exact fun r hr => isCandle_rowCandle (h r hr)

/-! ### The simulation of the rows -/

/-- The simulation of rows that are already clean. -/
def simulateRows (C : Text.Casing) (plan : ManagementPlan) (rows : List Row) : SimulationResult :=
  match opening C plan with
  | .error r => r
  | .ok L => L.simLoop L.start rows

theorem simulatePlan_eq {C : Text.Casing} {plan : ManagementPlan} {candles : List PyVal}
    {rows : List Row} (hist : IsHistory candles rows) :
    simulatePlan C plan candles = simulateRows C plan rows := by
  unfold simulatePlan simulateRows
  cases opening C plan with
  | error r => rfl
  | ok L =>
      dsimp only
      rw [hist.cleanRaises_eq, if_neg Bool.false_ne_true, hist.cleanCandles_eq]

namespace Levels

variable {L : Levels} {s : Sim}

theorem simStep_done {row : Row} {r : SimulationResult} (h : L.simStep row s = .done r) :
    r.status = .resolved ∧ ∃ q, r.realizedR = some q := by
  unfold simStep at h
  split at h
  · cases h
    exact ⟨rfl, _, rfl⟩
  split at h
  · cases h
  split at h
  · cases h
    exact ⟨rfl, _, rfl⟩
  · cases h

/-- Only the end of a simulation is resolved. -/
theorem simLoop_append (rows rows' : List Row) (h : (L.simLoop s rows).status = .resolved) :
    L.simLoop s (rows ++ rows') = L.simLoop s rows := by
  induction rows generalizing s with
  | nil => cases h
  | cons row rows ih =>
      rw [List.cons_append, simLoop, simLoop]
      rw [simLoop] at h
      cases hout : L.simStep row s with
      | going s' =>
          rw [hout] at h
          exact ih h
      | done r => rfl
      | raised => rfl

theorem simLoop_status (rows : List Row) :
    (L.simLoop s rows).status = .open ∨
      (L.simLoop s rows).status = .resolved ∧ ∃ q, (L.simLoop s rows).realizedR = some q := by
  induction rows generalizing s with
  | nil => exact .inl rfl
  | cons row rows ih =>
      rw [simLoop]
      cases hout : L.simStep row s with
      | going s' => exact ih
      | done r => exact .inr (simStep_done hout)
      | raised => exact .inl rfl

end Levels

/-- **A resolved simulation is final**: it comes out the same on the whole history. -/
theorem simulateRows_append {C : Text.Casing} {plan : ManagementPlan} (rows rows' : List Row)
    (h : (simulateRows C plan rows).status = .resolved) :
    simulateRows C plan (rows ++ rows') = simulateRows C plan rows := by
  unfold simulateRows at h ⊢
  cases hL : opening C plan with
  | error r => rfl
  | ok L =>
      rw [hL] at h
      exact L.simLoop_append rows rows' h

theorem simulateRows_resolved {C : Text.Casing} {plan : ManagementPlan} {rows : List Row}
    (h : (simulateRows C plan rows).status = .resolved) :
    ∃ q, (simulateRows C plan rows).realizedR = some q := by
  unfold simulateRows at h ⊢
  cases hL : opening C plan with
  | error r =>
      rw [hL] at h
      rcases opening_error hL with rfl | ⟨rfl, -⟩ <;> cases h
  | ok L =>
      rw [hL] at h
      rcases L.simLoop_status rows with hopen | ⟨-, hreal⟩
      · cases hopen.symm.trans h
      · exact hreal

end AiTrader.TradeManager
