import AiTrader.Float
import AiTrader.Telemetry.Counting
import AiTrader.Telemetry.Report
import AiTrader.Telemetry.RoundTrip

/-! # Session telemetry: the report of the store

`telemetry.py`, `main`: the report is taken of what `load_sessions` selects.

* `load_sessions_filter`: selecting in the store and selecting among the loaded sessions agree.
* `report_interleaving`: the report depends on what each thread observed, and not on how the
  observations of the threads were interleaved. -/

namespace AiTrader.Telemetry

open Json PyJson Keyed

/-- `main`, up to what it prints. -/
def main (N : NumSyntax PyNum) (rnd : ℚ → ℚ) (config : TelemetryConfig) (store : Store)
    (filter : Filter) (now : Option F64) : Report :=
  { aggregate rnd config now (loadSessions N store filter) with filters := filter }

/-- The bounds are finite, as `_parse_time_bound` gives them. -/
def Filter.Finite (filter : Filter) : Prop :=
  (∀ x ∈ filter.start, ∃ q, x = .fin q) ∧ ∀ x ∈ filter.stop, ∃ q, x = .fin q

variable {N : NumSyntax PyNum} {R : Runtime} {filter : Filter} {records records' : List SessionRecord}
  {observations observations' : List Observation} {record : SessionRecord}

/-! ### Selecting in the store -/

theorem filterSessions_eq (h : filter.Finite) :
    filterSessions records filter = records.filter fun record =>
      filter.admits record.symbol record.timeframe record.mode record.startedAt := by
  rw [filterSessions]
  refine List.filter_congr fun record _ => ?_
  have hstart : (finiteBound filter.start).all (fun low => decide (low ≤ record.startedAt)) =
      filter.start.all fun start => start.le (.fin record.startedAt) := by
    cases hs : filter.start with
    | none => rfl
    | some x =>
        obtain ⟨q, rfl⟩ := h.1 x hs
        exact F64.le_fin.symm
  have hstop : (finiteBound filter.stop).all (fun high => decide (record.startedAt ≤ high)) =
      filter.stop.all fun stop => F64.le (.fin record.startedAt) stop := by
    cases hs : filter.stop with
    | none => rfl
    | some x =>
        obtain ⟨q, rfl⟩ := h.2 x hs
        exact F64.le_fin.symm
  rw [hstart, hstop, Filter.admits]

/-- **Selecting agrees.**  What the store selects is what `filter_sessions` selects of all sessions. -/
theorem load_sessions_filter (N : NumSyntax PyNum) (store : Store) (filter : Filter)
    (h : filter.Finite) :
    loadSessions N store filter = filterSessions (loadSessions N store {}) filter := by
  have hall : store.sessions.rows.filter
      (fun row => ({} : Filter).admits row.symbol row.timeframe row.mode row.startedAt) =
        store.sessions.rows := List.filter_eq_self.mpr fun row _ => rfl
  have hsorted : ∀ rows : List SessionRow,
      (rows.insertionSort fun a b => a.sortKey ≤ b.sortKey).Pairwise
        fun a b => a.sortKey ≤ b.sortKey :=
    @List.pairwise_insertionSort _ (fun a b : SessionRow => a.sortKey ≤ b.sortKey) _
      ⟨fun a b => le_total a.sortKey b.sortKey⟩ ⟨fun _ _ _ => le_trans⟩
  rw [filterSessions_eq h, loadSessions, loadSessions, hall, List.filter_map]
  congr 1
  refine (((List.perm_insertionSort _ _).trans
    ((List.perm_insertionSort _ _).filter _).symm)).eq_of_pairwise (fun a b ha hb hab hba => ?_)
    (hsorted _) ((hsorted _).sublist List.filter_sublist)
  have hkey : a.sessionId = b.sessionId := congrArg (fun key => (ofLex key).2) (le_antisymm hab hba)
  rw [List.mem_insertionSort, List.mem_filter] at ha
  rw [List.mem_filter, List.mem_insertionSort] at hb
  exact List.inj_on_of_nodup_map store.sessions.nodup ha.1 hb.1 hkey

theorem load_sessions_filter_twice :
    loadSessions oneDigit (saveAll oneDigit (twice.map (finalizeSession .small))) { start := some (.fin 1) } =
      filterSessions (loadSessions oneDigit (saveAll oneDigit (twice.map (finalizeSession .small))) {})
        { start := some (.fin 1) } := by
  refine load_sessions_filter oneDigit _ _ ⟨fun x hx => ⟨1, ?_⟩, fun x hx => ?_⟩
  · exact (Option.mem_some_iff.mp hx).symm
  · cases hx

/-! ### Interleavings -/

theorem mem_run {σ α ω : Type*} {exec : σ → α → σ × List ω} {s : σ} {as : List α} {w : ω}
    (h : w ∈ (run exec s as).2) : ∃ t a, w ∈ (exec t a).2 := by
  induction as using List.reverseRecOn with
  | nil => cases h
  | append_singleton as a ih =>
      rw [run_concat] at h
      rcases List.mem_append.mp h with h | h
      · exact ih h
      · exact ⟨_, a, h⟩

theorem endEntry_finalized {w : Writer} {obs : Observation} (h : record ∈ (endEntry R w obs).2) :
    ∃ state, record = finalizeSession R state := by
  cases hbuf : w.buffers.get obs.threadId with
  | none =>
      rw [endEntry, hbuf] at h
      cases h
  | some buf =>
      rw [endEntry, hbuf] at h
      dsimp only at h
      cases hfold : foldEntry R ((w.states.get obs.threadId).getD
          (newState obs.threadId buf.entry buf.lastTs)) buf with
      | error e =>
          rw [hfold] at h
          cases h
      | ok state =>
          refine ⟨state, ?_⟩
          rw [hfold] at h
          dsimp only at h
          split at h
          · exact List.mem_singleton.mp h
          · exact List.mem_singleton.mp h

theorem saved_finalized (h : record ∈ saved R observations) :
    ∃ state, record = finalizeSession R state := by
  obtain ⟨w, obs, h⟩ := mem_run h
  unfold process processOpened at h
  dsimp only at h
  split at h
  · cases h
  · split at h
    · split at h
      · cases h
      · split at h
        · exact endEntry_finalized h
        · cases h
    · split at h
      · exact endEntry_finalized h
      · cases h

/-- What a thread saves depends on what it observes. -/
theorem saved_filter (threadId : String) :
    (saved R observations).filter (fun record => decide (record.threadId = threadId)) =
      (run (threadStep R) {}
        (observations.filter fun obs => decide (obs.threadId = threadId))).2 :=
  process_projection.filter_run (I := Own) (fun k state hstate => by cases hstate)
    (fun t obs h => (threadStep_own h).1) (fun t obs h => (threadStep_own h).2) observations threadId

/-- The threads observe the same, each on its own. -/
def SameViews (observations observations' : List Observation) : Prop :=
  ∀ threadId, observations.filter (fun obs => decide (obs.threadId = threadId)) =
    observations'.filter fun obs => decide (obs.threadId = threadId)

theorem SameViews.saved_filter (h : SameViews observations observations') (threadId : String) :
    (saved R observations).filter (fun record => decide (record.threadId = threadId)) =
      (saved R observations').filter fun record => decide (record.threadId = threadId) := by
  rw [Telemetry.saved_filter, Telemetry.saved_filter, h threadId]

theorem SameViews.mem_saved (h : SameViews observations observations')
    (hrecord : record ∈ saved R observations) : record ∈ saved R observations' := by
  have hmem : record ∈ (saved R observations).filter fun r => decide (r.threadId = record.threadId) :=
    List.mem_filter.mpr ⟨hrecord, decide_eq_true rfl⟩
  rw [h.saved_filter] at hmem
  exact (List.mem_filter.mp hmem).1

theorem eq_of_append_colon {s t x y : List Char} (hx : ':' ∉ x) (hy : ':' ∉ y)
    (h : s ++ ':' :: x = t ++ ':' :: y) : s = t := by
  rcases List.append_eq_append_iff.mp h with ⟨u, rfl, hu⟩ | ⟨u, rfl, hu⟩
  · cases u with
    | nil => exact (List.append_nil s).symm
    | cons c u =>
        obtain ⟨-, rfl⟩ := List.cons_eq_cons.mp hu
        exact absurd (List.mem_append_right u List.mem_cons_self) hx
  · cases u with
    | nil => exact List.append_nil t
    | cons c u =>
        obtain ⟨-, rfl⟩ := List.cons_eq_cons.mp hu
        exact absurd (List.mem_append_right u List.mem_cons_self) hy

/-- An identifier is of one thread only. -/
theorem threadId_of_sessionId (hrepr : ∀ q, ':' ∉ (R.repr q).toList) {state state' : SessionState}
    (h : (finalizeSession R state).sessionId = (finalizeSession R state').sessionId) :
    (finalizeSession R state).threadId = (finalizeSession R state').threadId := by
  have hchars := congrArg String.toList h
  simp only [finalizeSession, String.toList_append, List.append_assoc] at hchars
  exact String.ext_iff.mpr (eq_of_append_colon (hrepr _) (hrepr _) hchars)

theorem SameViews.filter_saved (h : SameViews observations observations')
    (hrepr : ∀ q, ':' ∉ (R.repr q).toList) (sessionId : String) :
    ((saved R observations).filter fun r => decide (r.sessionId = sessionId)) =
      (saved R observations').filter fun r => decide (r.sessionId = sessionId) := by
  have hthread : ∀ {obs : List Observation} {record : SessionRecord}, record ∈ saved R obs →
      record.sessionId = sessionId → ∀ {obs' : List Observation},
      ((saved R obs').filter fun r => decide (r.sessionId = sessionId)) =
        ((saved R obs').filter fun r => decide (r.threadId = record.threadId)).filter
          fun r => decide (r.sessionId = sessionId) := by
    intro obs record hrecord hid obs'
    rw [List.filter_filter]
    refine List.filter_congr fun r hr => ?_
    by_cases hr' : r.sessionId = sessionId
    · obtain ⟨state, rfl⟩ := saved_finalized hrecord
      obtain ⟨state', rfl⟩ := saved_finalized hr
      have hsame := threadId_of_sessionId hrepr (hr'.trans hid.symm)
      simp [hr', hsame]
    · simp [hr']
  by_cases hsome : ∃ record ∈ saved R observations, record.sessionId = sessionId
  · obtain ⟨record, hrecord, hid⟩ := hsome
    rw [hthread hrecord hid, hthread (h.mem_saved hrecord) hid, h.saved_filter]
  · have hnone : ∀ obs, (∀ record ∈ saved R obs, record ∈ saved R observations) →
        ((saved R obs).filter fun r => decide (r.sessionId = sessionId)) = [] := by
      intro obs hobs
      refine List.filter_eq_nil_iff.mpr fun record hrecord => ?_
      simpa using fun hid => hsome ⟨record, hobs record hrecord, hid⟩
    have hsymm : SameViews observations' observations := fun threadId => (h threadId).symm
    rw [hnone observations fun _ hr => hr, hnone observations' fun _ hr => hsymm.mem_saved hr]

/-- **Interleavings do not matter.**  Where the threads observe the same, the store gives the same
report, whatever the filter and the clock. -/
theorem report_interleaving (N : NumSyntax PyNum) (R : Runtime) (rnd : ℚ → ℚ)
    (config : TelemetryConfig) (filter : Filter) (now : Option F64)
    (observations observations' : List Observation) (hrepr : ∀ q, ':' ∉ (R.repr q).toList)
    (h : SameViews observations observations')
    (hser : ∀ record ∈ saved R observations, Serializable N record) :
    main N rnd config (saveAll N (saved R observations)) filter now =
      main N rnd config (saveAll N (saved R observations')) filter now := by
  have hsymm : SameViews observations' observations := fun threadId => (h threadId).symm
  have hmatching : matching filter (saved R observations) = matching filter (saved R observations') := by
    have htotal : Std.Total fun a b : SessionRecord =>
        toLex (a.startedAt, a.sessionId) ≤ toLex (b.startedAt, b.sessionId) :=
      ⟨fun a b => le_total _ _⟩
    have htrans : IsTrans SessionRecord fun a b =>
        toLex (a.startedAt, a.sessionId) ≤ toLex (b.startedAt, b.sessionId) :=
      ⟨fun _ _ _ => le_trans⟩
    refine Table.sorted_filter_eq _ (fun record _ => ?_) fun a _ b _ _ _ hab hba =>
      congrArg (fun key => (ofLex key).2) (le_antisymm hab hba)
    have hlatest : ∀ (rs : List SessionRecord),
        record ∈ (Table.latest rs : Table SessionRecord.sessionId).rows ↔
          (rs.filter fun r => decide (r.sessionId = record.sessionId)).getLast? = some record := by
      intro rs
      rw [← Table.find?_latest]
      exact ⟨fun hmem => Table.find?_of_mem hmem rfl, fun hfind => Table.mem_of_find? hfind⟩
    rw [hlatest, hlatest, h.filter_saved hrepr]
  rw [main, main, loadSessions_saveAll hser,
    loadSessions_saveAll fun record hrecord => hser record (hsymm.mem_saved hrecord), hmatching]

/-- A run from 0 to 4. -/
def shortRun : Leg := { opening := .run (some "INFY") (some "5m") none, startTs := 0, endTs := 4 }

/-- A runtime that writes the time 0. -/
def Runtime.zero : Runtime := { Runtime.small with repr := fun _ => "0.0" }

/-- Two runs at a time. -/
def sideBySide : List Observation :=
  (shortRun.observations "a").take 1 ++ (shortRun.observations "b").take 1 ++
    (shortRun.observations "a").drop 1 ++ (shortRun.observations "b").drop 1

/-- One run after the other. -/
def oneByOne : List Observation := shortRun.observations "a" ++ shortRun.observations "b"

theorem report_interleaving_runs :
    main oneDigit id {} (saveAll oneDigit (saved .zero sideBySide)) {} (some (.fin 90000)) =
      main oneDigit id {} (saveAll oneDigit (saved .zero oneByOne)) {} (some (.fin 90000)) := by
  have hplain : ((saved .zero sideBySide).all fun record => record.storable &&
      decide ((record.funnel.map FunnelEvent.seq).Pairwise (· < ·)) &&
      record.toolCallsByName.rows.isEmpty && record.funnel.all fun e => e.extra.isNone) = true := by
    decide +kernel
  refine report_interleaving oneDigit .zero id {} {} _ sideBySide oneByOne
    (fun q => show ':' ∉ "0.0".toList by decide)
    (fun threadId => ?_) fun record hrecord => ?_
  · by_cases ha : "a" = threadId
    · subst ha
      rfl
    · by_cases hb : "b" = threadId
      · subst hb
        rfl
      · simp [sideBySide, oneByOne, Leg.observations, shortRun, ha, hb]
  · have hrecord := List.all_eq_true.mp hplain record hrecord
    simp only [Bool.and_eq_true, decide_eq_true_eq, List.isEmpty_iff, List.all_eq_true,
      Option.isNone_iff_eq_none] at hrecord
    obtain ⟨⟨⟨hstorable, hordered⟩, hcounts⟩, hbags⟩ := hrecord
    refine ⟨hstorable, hordered, fun row hrow => ?_, fun event hevent d hd => ?_⟩
    · rw [hcounts] at hrow
      cases hrow
    · rw [hbags event hevent] at hd
      cases hd

end AiTrader.Telemetry
