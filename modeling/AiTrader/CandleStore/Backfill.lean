import AiTrader.CandleStore.History
import AiTrader.Library.SingleFlight
import AiTrader.Library.Transition

/-! # Backfills

`tool-server/src/candles.rs`: a request whose load falls short takes the lock of its symbol and
timeframe, looks again, and then fetches history, persists it bar by bar and loads once more.  Any
number of callers make one and the same request at once, while others write to the tables.

* `single_flight`: the callers fetch once, and once more only after a failure. -/

namespace AiTrader.CandleStore

open Text Transition

/-! ### The tables -/

def Row.tsMillis (row : Row) : ℤ := (row.tsMicros.getD 0).tdiv 1000

def Row.complete (row : Row) : Bool :=
  row.open.isSome && row.high.isSome && row.low.isSome && row.close.isSome

/-- The candles that a query selects from, newest first. -/
structure Table where
  rows : List Row
  complete : ∀ row ∈ rows, row.complete = true
  newest : rows.Pairwise fun a b => b.tsMillis < a.tsMillis

/-- `ORDER BY ts DESC LIMIT`, unless the query fails. -/
def Table.query (t : Table) (limit : ℕ) : Option QueryError → QueryResult
  | some e => .error e
  | none => .ok (t.rows.take limit)

structure Tables where
  historical : Table
  live : Table

/-- No candle is lost; its values may change. -/
def Table.Grows (t t' : Table) : Prop :=
  ∀ row ∈ t.rows, ∃ row' ∈ t'.rows, row'.tsMillis = row.tsMillis

instance (t t' : Table) : Decidable (t.Grows t') :=
  inferInstanceAs (Decidable (∀ row ∈ t.rows, ∃ row' ∈ t'.rows, row'.tsMillis = row.tsMillis))

def Tables.Grows (t t' : Tables) : Prop :=
  t.historical.Grows t'.historical ∧ t.live.Grows t'.live

/-! ### A request -/

structure Request where
  symbol : String
  timeframe : String
  limit : ℤ
  minCandles : ℕ
  /-- Whether there is a client to fetch history with. -/
  kite : Bool

/-- `limit as usize`. -/
def asUsize (limit : ℤ) : ℕ := (limit % 18446744073709551616).toNat

/-- `is_daily_interval`. -/
def isDailyInterval (C : Casing) (tf : String) : Bool :=
  decide (C.lower tf ∈
    ["1d", "day", "1w", "1week", "week", "1mth", "1month", "1mon", "month"])

/-- The table that bars are persisted in. -/
def persistTable (C : Casing) (tf : String) : String :=
  if isDailyInterval C tf then "historical_candles" else "historical_intraday"

namespace Request

variable (C : Casing) (r : Request)

def key : String := normalizeSymbol C r.symbol

/-- `need` of `backfill_and_reload`. -/
def need : ℕ := max (max (asUsize r.limit) r.minCandles) 50

/-- One load, with the queries that fail. -/
def load (t : Tables) (historical live : Option QueryError) :
    Except CandleLoadError (List (ℤ × Candle)) :=
  loadCandlesFromQuestdb (r.key C) r.timeframe r.limit r.minCandles
    (t.historical.query (effectiveLimit r.limit) historical)
    (t.live.query (effectiveLimit r.limit) live)

def shortfall (available : ℕ) (tail : String) : CandleLoadError :=
  .shortfall (r.key C) r.timeframe available r.minCandles
    (insufficientData (r.key C) r.timeframe available r.minCandles ++ tail)

end Request

/-! ### The callers -/

abbrev Loaded := Except CandleLoadError (List (ℤ × Candle))

inductive Phase
  | idle
  | short (available : ℕ)
  | locked (available : ℕ)
  | fetching (available : ℕ)
  | persisting (bars : List HistoryBar)
  | reloading
  | done (result : Loaded)
  | dropped

/-- Whether a caller has the guard of the lock. -/
def Phase.holds : Phase → Bool
  | .locked _ | .fetching _ | .persisting _ | .reloading => true
  | _ => false

/-- Whether a caller is past the second look. -/
def Phase.flies : Phase → Bool
  | .fetching _ | .persisting _ | .reloading => true
  | _ => false

/-- `fetches` counts the calls of `fetch_bars`, and `failures` what went wrong under the lock. -/
structure BackfillState (ι : Type*) where
  tables : Tables
  lock : Option ι
  phase : ι → Phase
  fetches : ℕ
  failures : ℕ

inductive BackfillEvent (ι : Type*)
  | load (i : ι) (historical live : Option QueryError)
  | acquire (i : ι)
  | recheck (i : ι) (historical live : Option QueryError)
  | fetched (i : ι) (page : String → String → Pages) (today : ℤ)
  | insert (i : ι) (outcome : Except String Tables)
  | reload (i : ι) (historical live : Option QueryError)
  | drop (i : ι)
  | written (tables : Tables)

namespace BackfillState

section
variable {ι : Type*} [DecidableEq ι]

def goto (s : BackfillState ι) (i : ι) (p : Phase) : BackfillState ι :=
  { s with phase := Function.update s.phase i p }

/-- The guard is dropped. -/
def leave (s : BackfillState ι) (i : ι) (p : Phase) (failures : ℕ) : BackfillState ι :=
  { s with
    lock := none
    phase := Function.update s.phase i p
    failures := s.failures + failures }

/-- A step of `load_candles_with_ts` and of what it calls; `timestampOk` says which seconds
`from_timestamp` accepts. -/
def step (C : Casing) (timestampOk : ℤ → Bool) (r : Request) (s : BackfillState ι) :
    BackfillEvent ι → Option (BackfillState ι)
  | .load i historical live =>
      match s.phase i with
      | .idle =>
          match r.load C s.tables historical live with
          | .error (.shortfall _ _ available _ _) =>
              if r.kite then some (s.goto i (.short available))
              else some (s.goto i (.done (.error (r.shortfall C available ""))))
          | result => some (s.goto i (.done result))
      | _ => none
  | .acquire i =>
      match s.phase i, s.lock with
      | .short available, none => some { s.goto i (.locked available) with lock := some i }
      | _, _ => none
  | .recheck i historical live =>
      match s.phase i with
      | .locked available =>
          match r.load C s.tables historical live with
          | .ok candles => some (s.leave i (.done (.ok candles)) 0)
          | .error _ => some { s.goto i (.fetching available) with
              fetches := s.fetches + 1
              failures := s.failures + if historical.isSome || live.isSome then 1 else 0 }
      | _ => none
  | .fetched i page today =>
      match s.phase i with
      | .fetching available =>
          match fetchBars C page today (r.key C) r.timeframe r.need with
          | .error e =>
              some (s.leave i (.done (.error (r.shortfall C available (" Backfill failed: " ++ e)))) 1)
          | .ok [] =>
              some (s.leave i (.done (.error (r.shortfall C available " Kite returned no bars."))) 1)
          | .ok (bar :: bars) => some (s.goto i (.persisting (bar :: bars)))
      | _ => none
  | .insert i outcome =>
      match s.phase i with
      | .persisting (bar :: bars) =>
          if timestampOk bar.timeSec then
            match outcome with
            | .error e =>
                some (s.leave i (.done (.error (.fault "kite_backfill_persist"
                  ("INSERT " ++ persistTable C r.timeframe ++ ": " ++ e)))) 1)
            | .ok tables =>
                some { s.goto i (if bars = [] then .reloading else .persisting bars) with tables }
          else
            some (s.leave i (.done (.error (.fault "kite_backfill_persist"
              ("bad unix time " ++ toString bar.timeSec)))) 1)
      | _ => none
  | .reload i historical live =>
      match s.phase i with
      | .reloading =>
          match r.load C s.tables historical live with
          | .ok candles => some (s.leave i (.done (.ok candles)) 0)
          | .error e => some (s.leave i (.done (.error e)) 1)
      | _ => none
  | .drop i =>
      match s.phase i with
      | .done _ | .dropped => none
      | p => if p.holds then some (s.leave i .dropped 1) else some (s.goto i .dropped)
  | .written tables => some { s with tables }

/-- Nobody has asked yet. -/
def Starts (s : BackfillState ι) : Prop :=
  s.lock = none ∧ (∀ i, s.phase i = .idle) ∧ s.fetches = 0 ∧ s.failures = 0

/-- The tables only grow. -/
def Writes (s : BackfillState ι) : BackfillEvent ι → Prop
  | .insert _ (.ok tables) => s.tables.Grows tables
  | .written tables => s.tables.Grows tables
  | _ => True

end

end BackfillState

/-! ### When a load succeeds -/

variable {r : Request} {t t' : Tables} {table : Table} {limit p : ℕ}
  {historical live : Option QueryError} {rows : List Row}

/-- The timestamps of the candles of some rows. -/
def rowTimes (rows : List Row) : Finset ℤ := (rows.map Row.tsMillis).toFinset

/-- The timestamps that a request can be served with. -/
def Request.times (r : Request) (t : Tables) : Finset ℤ :=
  rowTimes t.historical.rows ∪ if readsLive r.timeframe then rowTimes t.live.rows else ∅

/-- The tables hold enough candles for a request. -/
def Request.Enough (r : Request) (t : Tables) : Prop :=
  max 1 r.minCandles ≤ min (r.times t).card (effectiveLimit r.limit)

theorem Table.Grows.rowTimes {t t' : Table} (h : t.Grows t') : rowTimes t.rows ⊆ rowTimes t'.rows := by
  intro ts hts
  obtain ⟨row, hrow, rfl⟩ := List.mem_map.mp (List.mem_toFinset.mp hts)
  obtain ⟨row', hrow', heq⟩ := h row hrow
  exact List.mem_toFinset.mpr (List.mem_map.mpr ⟨row', hrow', heq⟩)

theorem Request.Enough.grows (h : r.Enough t) (ht : t.Grows t') : r.Enough t' := by
  have hsub : r.times t ⊆ r.times t' := by
    refine Finset.union_subset_union ht.1.rowTimes ?_
    split
    · exact ht.2.rowTimes
    · exact Finset.Subset.refl ∅
  exact le_trans h (min_le_min_right _ (Finset.card_le_card hsub))

theorem times_parse (h : ∀ row ∈ rows, row.complete = true) :
    times (parseRowsWithTs rows p) = rowTimes rows := by
  have hmap : (parseRowsWithTs rows p).map PrioCandle.tsMillis = rows.map Row.tsMillis := by
    rw [parseRowsWithTs, List.map_filterMap, ← List.filterMap_eq_map]
    refine List.filterMap_congr fun row hrow => ?_
    have hcomplete := h row hrow
    rw [Row.complete] at hcomplete
    simp only [Bool.and_eq_true, Option.isSome_iff_exists] at hcomplete
    obtain ⟨⟨⟨⟨o, ho⟩, hi, hhi⟩, lo, hlo⟩, c, hc⟩ := hcomplete
    simp [parseRow, ho, hhi, hlo, hc, Row.tsMillis]
  rw [times, hmap, rowTimes]

theorem times_query (table : Table) (limit p : ℕ) (failed : Option QueryError) :
    times (rowsOf (table.query limit failed) p) =
      if failed.isSome then ∅ else rowTimes (table.rows.take limit) := by
  cases failed with
  | some e => rfl
  | none => exact times_parse fun row hrow => table.complete row (List.mem_of_mem_take hrow)

theorem card_take (table : Table) (limit : ℕ) :
    rowTimes (table.rows.take limit) = rowTimes table.rows ∨
      limit ≤ (rowTimes (table.rows.take limit)).card := by
  rcases Nat.lt_or_ge table.rows.length limit with hlt | hge
  · rw [List.take_of_length_le hlt.le]
    exact Or.inl rfl
  · right
    have hnodup : ((table.rows.take limit).map Row.tsMillis).Nodup := by
      rw [List.Nodup, List.pairwise_map]
      exact (table.newest.sublist (List.take_sublist _ _)).imp fun h => (ne_of_lt h).symm
    rw [rowTimes, List.toFinset_card_of_nodup hnodup, List.length_map, List.length_take]
    omega

theorem rowTimes_take_subset (rows : List Row) (limit : ℕ) :
    rowTimes (rows.take limit) ⊆ rowTimes rows := by
  intro ts hts
  rw [rowTimes, List.mem_toFinset, List.mem_map] at hts ⊢
  obtain ⟨row, hrow, heq⟩ := hts
  exact ⟨row, List.mem_of_mem_take hrow, heq⟩

/-- Of a union, as much is left below the limit as there was. -/
theorem min_card_union {A A' B B' : Finset ℤ} {limit : ℕ} (hA : A' ⊆ A) (hB : B' ⊆ B)
    (hA' : A' = A ∨ limit ≤ A'.card) (hB' : B' = B ∨ limit ≤ B'.card) :
    min (A' ∪ B').card limit = min (A ∪ B).card limit := by
  have hle : (A' ∪ B').card ≤ (A ∪ B).card :=
    Finset.card_le_card (Finset.union_subset_union hA hB)
  have hleft : A'.card ≤ (A' ∪ B').card := Finset.card_le_card Finset.subset_union_left
  have hright : B'.card ≤ (A' ∪ B').card := Finset.card_le_card Finset.subset_union_right
  rcases hA' with rfl | hA'
  · rcases hB' with rfl | hB'
    · rfl
    · omega
  · omega

theorem times_all (r : Request) (t : Tables) (historical live : Option QueryError) :
    times (allCandles r.timeframe (t.historical.query limit historical) (t.live.query limit live)) =
      (if historical.isSome then ∅ else rowTimes (t.historical.rows.take limit)) ∪
        if readsLive r.timeframe && !live.isSome then rowTimes (t.live.rows.take limit) else ∅ := by
  have happend : ∀ xs ys : List PrioCandle, times (xs ++ ys) = times xs ∪ times ys := fun xs ys => by
    rw [times, times, times, List.map_append, List.toFinset_append]
  rw [allCandles, happend, times_query]
  congr 1
  cases readsLive r.timeframe with
  | false => rfl
  | true =>
      rw [if_pos rfl, times_query, Bool.true_and]
      cases live.isSome <;> rfl

theorem load_ok_iff {symbol timeframe : String} {limit : ℤ} {minCandles : ℕ}
    {historical live : QueryResult} :
    (∃ candles, loadCandlesFromQuestdb symbol timeframe limit minCandles historical live =
        .ok candles) ↔
      max 1 minCandles ≤
        min (times (allCandles timeframe historical live)).card (effectiveLimit limit) := by
  have hlimit : 100 ≤ effectiveLimit limit := by
    rw [effectiveLimit]
    omega
  by_cases hall : allCandles timeframe historical live = []
  · have hzero : (times (allCandles timeframe historical live)).card = 0 := by
      rw [hall]
      rfl
    rw [hzero, loadCandlesFromQuestdb, if_pos hall]
    constructor
    · rintro ⟨candles, h⟩
      split at h <;> cases h
    · omega
  · obtain ⟨pc, hpc⟩ := List.exists_mem_of_ne_nil _ hall
    have hpos : 0 < (times (allCandles timeframe historical live)).card :=
      Finset.card_pos.mpr ⟨_, List.mem_toFinset.mpr (List.mem_map_of_mem hpc)⟩
    rw [loadCandlesFromQuestdb, if_neg hall]
    simp only [List.length_map, Merge.length_latest, ← card_times]
    split
    · rename_i hfew
      constructor
      · rintro ⟨candles, h⟩
        cases h
      · omega
    · rename_i henough
      exact ⟨fun _ => by omega, fun _ => ⟨_, rfl⟩⟩

theorem Request.enough_of_load {C : Casing} {candles : List (ℤ × Candle)}
    (h : r.load C t historical live = .ok candles) : r.Enough t := by
  have henough := load_ok_iff.mp ⟨candles, h⟩
  rw [times_all] at henough
  refine le_trans henough (min_le_min_right _ (Finset.card_le_card ?_))
  refine Finset.union_subset_union ?_ ?_
  · split
    · exact Finset.empty_subset _
    · exact rowTimes_take_subset _ _
  · cases readsLive r.timeframe with
    | false => exact Finset.Subset.refl ∅
    | true =>
        split
        · exact rowTimes_take_subset _ _
        · exact Finset.empty_subset _

/-- If there are enough candles, only a failed query keeps them from being loaded. -/
theorem Request.load_of_enough (C : Casing) (h : r.Enough t) :
    ∃ candles, r.load C t none none = .ok candles := by
  refine load_ok_iff.mpr ?_
  rw [times_all]
  have hmin := @min_card_union (rowTimes t.historical.rows)
    (rowTimes (t.historical.rows.take (effectiveLimit r.limit)))
    (if readsLive r.timeframe then rowTimes t.live.rows else ∅)
    (if readsLive r.timeframe then rowTimes (t.live.rows.take (effectiveLimit r.limit)) else ∅)
    (effectiveLimit r.limit) (rowTimes_take_subset _ _)
    (by split; exacts [rowTimes_take_subset _ _, Finset.Subset.refl ∅]) (card_take _ _)
    (by split; exacts [card_take _ _, Or.inl rfl])
  simp only [Option.isSome_none, Bool.false_eq_true, if_false, Bool.not_false, Bool.and_true]
  rw [hmin]
  exact h

/-! ### What a step does -/

/-- A caller that got candles got as many as it asked for. -/
def Phase.Served (r : Request) (p : Phase) : Prop :=
  ∀ candles, p = .done (.ok candles) → r.minCandles ≤ candles.length

namespace BackfillState

section
variable {ι : Type*} [DecidableEq ι] {C : Casing} {timestampOk : ℤ → Bool}
  {s s' : BackfillState ι} {a : BackfillEvent ι}

theorem served_of_ne {p : Phase} (h : ∀ candles, p ≠ .done (.ok candles)) : p.Served r :=
  fun candles hp => absurd hp (h candles)

theorem served_error (e : CandleLoadError) : (Phase.done (.error e)).Served r :=
  served_of_ne fun candles h => by cases h

theorem served_of_load {candles : List (ℤ × Candle)}
    (h : r.load C t historical live = .ok candles) : (Phase.done (.ok candles)).Served r := by
  rintro _ ⟨⟩
  rw [Request.load, loadCandlesFromQuestdb] at h
  split at h
  · split at h <;> cases h
  · dsimp only at h
    split at h
    · cases h
    · cases h
      omega

/-- A step: a caller moves on where it stands, takes the lock, starts to fetch or leaves the lock;
and the tables may grow. -/
theorem step_cases (h : s.step C timestampOk r a = some s') (hwrites : s.Writes a) :
    (∃ i p, p.holds = (s.phase i).holds ∧ p.flies = (s.phase i).flies ∧ p.Served r ∧
      ∃ tables, s.tables.Grows tables ∧ s' = { s.goto i p with tables }) ∨
    (∃ i available, s.lock = none ∧
      s' = { s.goto i (.locked available) with lock := some i }) ∨
    (∃ i available k, s.phase i = .locked available ∧ (r.Enough s.tables → 0 < k) ∧
      s' = { s.goto i (.fetching available) with
        fetches := s.fetches + 1, failures := s.failures + k }) ∨
    (∃ i p k, (s.phase i).holds = true ∧ p.holds = false ∧ p.Served r ∧
      ((s.phase i).flies = true → r.Enough s.tables ∨ 0 < k) ∧ s' = s.leave i p k) ∨
    ∃ tables, s.tables.Grows tables ∧ s' = { s with tables } := by
  have hsame : s.tables.Grows s.tables := ⟨fun row hrow => ⟨row, hrow, rfl⟩,
    fun row hrow => ⟨row, hrow, rfl⟩⟩
  cases a with
  | load i historical live =>
      left
      simp only [step] at h
      split at h
      · rename_i hphase
        split at h
        · split at h <;> cases h
          · exact ⟨i, _, by rw [hphase]; rfl, by rw [hphase]; rfl,
              served_of_ne fun _ => Phase.noConfusion, _, hsame, rfl⟩
          · exact ⟨i, _, by rw [hphase]; rfl, by rw [hphase]; rfl,
              served_error _, _, hsame, rfl⟩
        · cases h
          refine ⟨i, _, by rw [hphase]; rfl, by rw [hphase]; rfl, ?_, _, hsame, rfl⟩
          cases hload : r.load C s.tables historical live with
          | ok candles => exact served_of_load hload
          | error e => exact served_error _
      · cases h
  | acquire i =>
      right
      left
      simp only [step] at h
      split at h
      · rename_i available hphase hfree
        cases h
        exact ⟨i, available, hfree, rfl⟩
      · cases h
  | recheck i historical live =>
      right
      right
      simp only [step] at h
      split at h
      · rename_i available hphase
        split at h
        · rename_i candles hload
          cases h
          right
          left
          exact ⟨i, _, 0, by rw [hphase]; rfl, rfl, served_of_load hload,
            fun _ => Or.inl (Request.enough_of_load hload), rfl⟩
        · rename_i e hload
          cases h
          left
          refine ⟨i, available, _, hphase, fun henough => ?_, rfl⟩
          -- with enough candles, only a failed query can have led here
          obtain ⟨candles, hok⟩ := Request.load_of_enough C henough
          cases historical with
          | some q => exact Nat.one_pos
          | none =>
              cases live with
              | some q => exact Nat.one_pos
              | none =>
                  rw [hok] at hload
                  cases hload
      · cases h
  | fetched i page today =>
      simp only [step] at h
      split at h
      · rename_i available hphase
        split at h
        · cases h
          exact Or.inr (Or.inr (Or.inr (Or.inl ⟨i, _, 1, by rw [hphase]; rfl, rfl,
            served_error _, fun _ => Or.inr Nat.one_pos, rfl⟩)))
        · cases h
          exact Or.inr (Or.inr (Or.inr (Or.inl ⟨i, _, 1, by rw [hphase]; rfl, rfl,
            served_error _, fun _ => Or.inr Nat.one_pos, rfl⟩)))
        · cases h
          exact Or.inl ⟨i, _, by rw [hphase]; rfl, by rw [hphase]; rfl,
            served_of_ne fun _ => Phase.noConfusion, _, hsame, rfl⟩
      · cases h
  | insert i outcome =>
      simp only [step] at h
      split at h
      · rename_i bar bars hphase
        split at h
        · split at h
          · cases h
            exact Or.inr (Or.inr (Or.inr (Or.inl ⟨i, _, 1, by rw [hphase]; rfl, rfl,
              served_error _, fun _ => Or.inr Nat.one_pos, rfl⟩)))
          · cases h
            refine Or.inl ⟨i, _, ?_, ?_, ?_, _, hwrites, rfl⟩
            · rw [hphase]
              split <;> rfl
            · rw [hphase]
              split <;> rfl
            · split <;> exact served_of_ne fun _ => Phase.noConfusion
        · cases h
          exact Or.inr (Or.inr (Or.inr (Or.inl ⟨i, _, 1, by rw [hphase]; rfl, rfl,
            served_error _, fun _ => Or.inr Nat.one_pos, rfl⟩)))
      · cases h
  | reload i historical live =>
      right
      right
      right
      left
      simp only [step] at h
      split at h
      · rename_i hphase
        split at h
        · rename_i candles hload
          cases h
          exact ⟨i, _, 0, by rw [hphase]; rfl, rfl, served_of_load hload,
            fun _ => Or.inl (Request.enough_of_load hload), rfl⟩
        · cases h
          exact ⟨i, _, 1, by rw [hphase]; rfl, rfl, served_error _,
            fun _ => Or.inr Nat.one_pos, rfl⟩
      · cases h
  | drop i =>
      simp only [step] at h
      split at h
      · cases h
      · cases h
      · split at h
        · rename_i hholds
          cases h
          exact Or.inr (Or.inr (Or.inr (Or.inl ⟨i, _, 1, hholds, rfl,
            served_of_ne fun _ => Phase.noConfusion, fun _ => Or.inr Nat.one_pos, rfl⟩)))
        · rename_i hholds
          cases h
          refine Or.inl ⟨i, _, ?_, ?_, served_of_ne fun _ => Phase.noConfusion, _, hsame, rfl⟩
          · exact (Bool.eq_false_iff.mpr hholds).symm
          · cases hphase : s.phase i <;> simp_all [Phase.holds, Phase.flies]
  | written tables =>
      cases h
      exact Or.inr (Or.inr (Or.inr (Or.inr ⟨tables, hwrites, rfl⟩)))

/-! ### Every reachable state -/

/-- The lock as the library sees it. -/
def flight (s : BackfillState ι) : SingleFlight ι Tables where
  shared := s.tables
  holder := s.lock
  flying := s.lock.any fun i => (s.phase i).flies
  flights := s.fetches
  setbacks := s.failures

/-- A caller past the lock is the one that has it. -/
structure Guarded (r : Request) (s : BackfillState ι) : Prop where
  holder : ∀ i, (s.phase i).holds = true ↔ s.lock = some i
  served : ∀ i, (s.phase i).Served r
  sound : SingleFlight.Sound r.Enough s.flight

omit [DecidableEq ι] in
theorem Guarded.of_starts (h : s.Starts) : Guarded r s where
  holder i := by
    rw [h.1, h.2.1 i]
    exact ⟨fun hf => Bool.noConfusion hf, fun hf => by cases hf⟩
  served i := by
    rw [h.2.1 i]
    exact served_of_ne fun _ => Phase.noConfusion
  sound := by
    have hflight : s.flight = ⟨s.tables, none, false, 0, 0⟩ := by
      simp only [flight, h.1, h.2.2.1, h.2.2.2, Option.any_none]
    rw [hflight]
    exact SingleFlight.Sound.init _

theorem Guarded.step (hs : Guarded r s) (h : s.step C timestampOk r a = some s')
    (hwrites : s.Writes a) : Guarded r s' := by
  have hserved : ∀ {i p}, p.Served r → ∀ j, (Function.update s.phase i p j).Served r :=
    fun {i p} hp => (Function.forall_update_iff s.phase fun _ q => q.Served r).mpr
      ⟨hp, fun j _ => hs.served j⟩
  obtain ⟨i, p, hholds, hflies, hp, tables, hgrows, rfl⟩ | ⟨i, available, hfree, rfl⟩ |
    ⟨i, available, k, hphase, hk, rfl⟩ | ⟨i, p, k, hholds, hp, hserve, hk, rfl⟩ |
    ⟨tables, hgrows, rfl⟩ := step_cases h hwrites
  · refine ⟨fun j => ?_, hserved hp, ?_⟩
    · have hj := hs.holder j
      by_cases hji : j = i
      · subst hji
        rw [← hholds] at hj
        simpa [goto] using hj
      · simpa [goto, Function.update_of_ne hji] using hj
    · have hflight : flight { s.goto i p with tables } = { s.flight with shared := tables } := by
        simp only [flight, goto, SingleFlight.mk.injEq, and_true, true_and]
        congr 1
        funext j
        by_cases hji : j = i
        · subst hji
          rw [Function.update_self, hflies]
        · rw [Function.update_of_ne hji]
      rw [hflight]
      exact hs.sound.step (.grow _ tables fun henough => henough.grows hgrows)
  · refine ⟨fun j => ?_, hserved (served_of_ne fun _ => Phase.noConfusion), ?_⟩
    · have hj := hs.holder j
      rw [hfree] at hj
      by_cases hji : j = i
      · subst hji
        simp [goto, Phase.holds]
      · simpa [goto, Function.update_of_ne hji, Ne.symm hji] using hj
    · have hflight : flight { s.goto i (.locked available) with lock := some i } =
          { s.flight with holder := some i } := by
        simp [flight, goto, hfree, Phase.flies]
      rw [hflight]
      exact hs.sound.step (.acquire _ i hfree)
  · have hlock : s.lock = some i := (hs.holder i).mp (by rw [hphase]; rfl)
    refine ⟨fun j => ?_, hserved (served_of_ne fun _ => Phase.noConfusion), ?_⟩
    · have hj := hs.holder j
      by_cases hji : j = i
      · subst hji
        simp [goto, Phase.holds, hlock]
      · simpa [goto, Function.update_of_ne hji] using hj
    · have hflight : flight { s.goto i (.fetching available) with
          fetches := s.fetches + 1, failures := s.failures + k } =
          { s.flight with
            flying := true, flights := s.flight.flights + 1, setbacks := s.flight.setbacks + k } := by
        simp [flight, goto, hlock, Phase.flies]
      rw [hflight]
      exact hs.sound.step (.launch _ k (by simp [flight, hlock])
        (by simp [flight, hlock, hphase, Phase.flies]) hk)
  · have hlock : s.lock = some i := (hs.holder i).mp hholds
    refine ⟨fun j => ?_, hserved hserve, ?_⟩
    · have hj := hs.holder j
      rw [hlock] at hj
      by_cases hji : j = i
      · subst hji
        simp [leave, hp]
      · have hfalse : (s.phase j).holds = false :=
          Bool.eq_false_iff.mpr fun hh => hji (Option.some.inj (hj.mp hh)).symm
        simp [leave, Function.update_of_ne hji, hfalse]
    · have hflight : (s.leave i p k).flight =
          { s.flight with
            holder := none, flying := false, setbacks := s.flight.setbacks + k } := by
        simp [flight, leave]
      rw [hflight]
      exact hs.sound.step (.release _ k fun hflying => hk (by simpa [flight, hlock] using hflying))
  · exact ⟨hs.holder, hs.served, hs.sound.step (.grow _ tables fun henough => henough.grows hgrows)⟩

end

end BackfillState

/-- **One fetch at a time, and one is enough.**  In every state that the callers reach, at most one
of them is past the lock, and history was fetched at most once more than something failed under the
lock; without such a failure the fetch is under way or the tables hold enough.  A caller that gets
candles gets as many as it asked for. -/
theorem single_flight {ι : Type*} [DecidableEq ι] (C : Casing) (timestampOk : ℤ → Bool)
    (r : Request) {s t : BackfillState ι} (hstart : s.Starts)
    (h : Reaches (BackfillState.step C timestampOk r) BackfillState.Writes s t) :
    (∀ i j, (t.phase i).holds = true → (t.phase j).holds = true → i = j) ∧
      t.fetches ≤ t.failures + 1 ∧
      (t.failures < t.fetches → (∃ i, (t.phase i).flies = true) ∨ r.Enough t.tables) ∧
      ∀ i candles, t.phase i = .done (.ok candles) → r.minCandles ≤ candles.length := by
  have ht : BackfillState.Guarded r t :=
    h.invariant (fun x a y hx hok hstep => hx.step hstep hok) (.of_starts hstart)
  refine ⟨fun i j hi hj => ?_, ht.sound.bound, fun hlt => ?_, ht.served⟩
  · have hij := (ht.holder i).mp hi
    rw [(ht.holder j).mp hj] at hij
    exact (Option.some.inj hij).symm
  · refine (ht.sound.last hlt).imp (fun hflying => ?_) id
    obtain ⟨i, -, hi⟩ := (Option.any_eq_true _ _).mp hflying
    exact ⟨i, hi⟩

def dailyRequest : Request := ⟨"nse:tcs", "1d", 100, 2, true⟩

def dayBar (day : ℤ) : HistoryBar := ⟨86400 * day, .fin 10, .fin 12, .fin 9, .fin 11, 500⟩

def dayRow (day : ℤ) : Row :=
  ⟨some (86400000000 * day), some (.fin 10), some (.fin 12), some (.fin 9), some (.fin 11), some 500⟩

/-- The table of the first days, nothing in the other. -/
def firstDays : ℕ → Tables
  | 0 => ⟨⟨[], by decide, by decide⟩, ⟨[], by decide, by decide⟩⟩
  | 1 => ⟨⟨[dayRow 1], by decide, by decide⟩, ⟨[], by decide, by decide⟩⟩
  | 2 => ⟨⟨[dayRow 2, dayRow 1], by decide, by decide⟩, ⟨[], by decide, by decide⟩⟩
  | _ => ⟨⟨[dayRow 3, dayRow 2, dayRow 1], by decide, by decide⟩, ⟨[], by decide, by decide⟩⟩

def allIdle : BackfillState (Fin 3) := ⟨firstDays 0, none, fun _ => .idle, 0, 0⟩

/-- Three callers: the first goes away while it fetches, the second fetches and persists three bars,
and the third finds them. -/
def droppedFetch {ι : Type*} (i j k : ι) : List (BackfillEvent ι) :=
  [.load i none none, .load j none none, .load k none none, .acquire i, .recheck i none none,
    .drop i, .acquire j, .recheck j none none,
    .fetched j (fun _ _ start _ => .ok (if start < 0 then [] else [dayBar 1, dayBar 2, dayBar 3]))
      2010,
    .insert j (.ok (firstDays 1)), .insert j (.ok (firstDays 2)), .insert j (.ok (firstDays 3)),
    .reload j none none, .acquire k, .recheck k none none]

instance {ι : Type*} (s : BackfillState ι) (a : BackfillEvent ι) : Decidable (s.Writes a) :=
  match a with
  | .insert _ (.ok _) => inferInstanceAs (Decidable (Table.Grows _ _ ∧ Table.Grows _ _))
  | .written _ => inferInstanceAs (Decidable (Table.Grows _ _ ∧ Table.Grows _ _))
  | .insert _ (.error _) | .load .. | .acquire _ | .recheck .. | .fetched .. | .reload ..
  | .drop _ => isTrue trivial

theorem single_flight_dropped :
    ∃ t, runOk (BackfillState.step Casing.ascii (fun _ => true) dailyRequest) BackfillState.Writes
        allIdle (droppedFetch 0 1 2) = some t ∧ t.fetches = 2 ∧ t.failures = 1 ∧
      dailyRequest.Enough t.tables := by
  have hrun : (runOk (BackfillState.step Casing.ascii (fun _ => true) dailyRequest)
      BackfillState.Writes allIdle (droppedFetch 0 1 2)).map (fun t =>
        (t.fetches, t.failures, (List.finRange 3).all fun i => !(t.phase i).flies)) =
          some (2, 1, true) := by
    decide +kernel
  obtain ⟨t, ht, hcounts⟩ := Option.map_eq_some_iff.mp hrun
  simp only [Prod.mk.injEq, List.all_eq_true, List.mem_finRange, Bool.not_eq_true', true_implies]
    at hcounts
  obtain ⟨hfetches, hfailures, hlanded⟩ := hcounts
  refine ⟨t, ht, hfetches, hfailures, ?_⟩
  have henough := (single_flight Casing.ascii (fun _ => true) dailyRequest
    ⟨rfl, fun _ => rfl, rfl, rfl⟩ (Reaches.of_runOk ht)).2.2.1
  refine (henough (by omega)).resolve_left ?_
  rintro ⟨i, hi⟩
  rw [hlanded i] at hi
  cases hi

end AiTrader.CandleStore
