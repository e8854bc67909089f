import AiTrader.Telemetry.Store

/-! # Session telemetry: what is read back

* `matching`: what loading should give, of the last record saved under each identifier.
* `SessionRecord.read`: the record without its opportunity tier, its budget and its bag, which
  `save` writes and `load_sessions` does not read.
* `loadSessions_saveAll`: these are loaded.
* `load_sessions_lossless_iff`: so nothing is lost just where there was nothing in them. -/

namespace AiTrader.Telemetry

open Json PyJson

/-- The matching records by start and identifier, of each identifier the last one saved. -/
def matching (filter : Filter) (records : List SessionRecord) : List SessionRecord :=
  ((Table.latest records : Table SessionRecord.sessionId).rows.filter fun record =>
      filter.admits record.symbol record.timeframe record.mode record.startedAt).insertionSort
    fun a b => toLex (a.startedAt, a.sessionId) ≤ toLex (b.startedAt, b.sessionId)

/-- Calls of `save` on a new store. -/
def saveAll (N : NumSyntax PyNum) (records : List SessionRecord) : Store := records.foldl (save N) {}

/-- The record without what is not read back. -/
def SessionRecord.read (record : SessionRecord) : SessionRecord :=
  { record with opportunityTier := none, sessionBudget := none, extra := none }

/-- Numbers of the bag are read back, and its keys are distinct. -/
def ReadableBag (N : NumSyntax PyNum) (d : Kwargs) : Prop :=
  (toValue (.dict d)).Forall N.Readable ∧ Distinct (.dict d)

/-- The integers fit, the funnel is in order, and its JSON cells are read back. -/
structure Serializable (N : NumSyntax PyNum) (record : SessionRecord) : Prop where
  storable : record.storable = true
  ordered : (record.funnel.map FunnelEvent.seq).Pairwise (· < ·)
  counts : ∀ row ∈ record.toolCallsByName.rows, N.Readable (.int row.2)
  bags : ∀ event ∈ record.funnel, ∀ d, event.extra = some d → ReadableBag N d

variable {N : NumSyntax PyNum} {R : Runtime} {record : SessionRecord} {records : List SessionRecord}
  {filter : Filter}

/-! ### JSON cells -/

theorem strip_dumps_dict (d : Kwargs) : Text.strip (dumps .asciiSpaced N (.dict d)) ≠ "" := by
  obtain ⟨cs, hcs⟩ : ∃ cs, print Style.asciiSpaced N (toValue (.dict d)) = '\x7b' :: cs := by
    cases d with
    | nil => exact ⟨_, rfl⟩
    | cons kv d => exact ⟨_, rfl⟩
  intro hempty
  obtain ⟨l, r, hsplit, hl, hr⟩ := Text.trimBoth_split Text.isSpace ('\x7b' :: cs)
  have htrim : Text.trimBoth Text.isSpace ('\x7b' :: cs) = [] := by
    have := congrArg String.toList hempty
    rwa [Text.strip, String.toList_ofList, dumps, String.toList_ofList, hcs] at this
  rw [htrim, List.append_nil] at hsplit
  have hbrace : '\x7b' ∈ l ++ r := hsplit ▸ List.mem_cons_self
  rcases List.mem_append.mp hbrace with h | h
  · exact absurd (hl _ h) (by decide)
  · exact absurd (hr _ h) (by decide)

theorem jsonLoads_jsonDumps {d : Kwargs} (h : ReadableBag N d) :
    jsonLoadsOrNone N (jsonDumpsOrNone N (some (.dict d))) = some (.dict d) := by
  rw [jsonDumpsOrNone, Option.map_some, jsonLoadsOrNone, Option.bind_some,
    if_neg (strip_dumps_dict d), loads_dumps h.1 h.2]

theorem decodedExtra_dumps {bag : Option Kwargs} (h : ∀ d, bag = some d → ReadableBag N d) :
    decodedExtra N (jsonDumpsOrNone N (bag.map .dict)) = bag := by
  cases bag with
  | none => rfl
  | some d => rw [decodedExtra, Option.map_some, jsonLoads_jsonDumps (h d rfl)]

theorem readableBag_toDict {counts : ToolCounts}
    (h : ∀ row ∈ counts.rows, N.Readable (.int row.2)) : ReadableBag N counts.toDict := by
  have hkeys : (counts.toDict.map Prod.fst) = counts.rows.map Prod.fst := by
    rw [ToolCounts.toDict, List.map_map]
    rfl
  refine ⟨?_, by rw [hkeys]; exact counts.nodup, ?_⟩
  · show Value.ForallMembers N.Readable (toMembers (counts.rows.map _))
    generalize counts.rows = rows at h
    induction rows with
    | nil => trivial
    | cons row rows ih =>
        exact ⟨h row List.mem_cons_self, ih fun r hr => h r (List.mem_cons_of_mem row hr)⟩
  · show DistinctMembers (counts.rows.map _)
    generalize counts.rows = rows
    induction rows with
    | nil => trivial
    | cons row rows ih => exact ⟨trivial, ih⟩

theorem ofDict_toDict (counts : ToolCounts) : ToolCounts.ofDict counts.toDict = counts := by
  rw [ToolCounts.ofDict, ToolCounts.toDict, List.foldl_map]
  exact counts.latest_rows

theorem decodedToolCallsByName_dumps {counts : ToolCounts}
    (h : ∀ row ∈ counts.rows, N.Readable (.int row.2)) :
    decodedToolCallsByName N (jsonDumpsOrNone N (some (.dict counts.toDict))) = counts := by
  rw [decodedToolCallsByName, jsonLoads_jsonDumps (readableBag_toDict h)]
  exact ofDict_toDict counts

/-! ### The two tables after the saves -/

/-- A record whose integers fit is saved. -/
theorem save_of_storable (h : record.storable = true) (store : Store) :
    save N store record =
      { sessions := store.sessions.replace (sessionValues N record)
        funnelEvents :=
          store.funnelEvents.filter (fun row => decide (row.sessionId ≠ record.sessionId)) ++
            record.funnel.map (funnelValues N record.sessionId) } := by
  rw [save, if_pos h]

theorem saveAll_concat (records : List SessionRecord) (record : SessionRecord) :
    saveAll N (records ++ [record]) = save N (saveAll N records) record := by
  rw [saveAll, List.foldl_append, List.foldl_cons, List.foldl_nil, ← saveAll]

theorem sessions_saveAll (h : ∀ record ∈ records, Serializable N record) :
    (saveAll N records).sessions = Table.latest (records.map (sessionValues N)) := by
  induction records using List.reverseRecOn with
  | nil => rfl
  | append_singleton records record ih =>
      rw [saveAll_concat, save_of_storable (h record (by simp)).storable, List.map_append, List.map_cons,
        List.map_nil, Table.latest_concat, ← ih fun r hr => h r (List.mem_append_left _ hr)]

/-- The rows of `sessions` are those of the last records. -/
theorem sessions_rows_saveAll (h : ∀ record ∈ records, Serializable N record) :
    (saveAll N records).sessions.rows =
      (Table.latest records : Table SessionRecord.sessionId).rows.map (sessionValues N) := by
  rw [sessions_saveAll h]
  exact Table.rows_latest_map (fun record => rfl) records

/-- The rows of `funnel_events` of a session are the funnel of its last record. -/
theorem funnelEvents_saveAll (h : ∀ record ∈ records, Serializable N record) (sessionId : String) :
    (saveAll N records).funnelEvents.filter (fun row => decide (row.sessionId = sessionId)) =
      match (Table.latest records : Table SessionRecord.sessionId).find? sessionId with
      | none => []
      | some record => record.funnel.map (funnelValues N sessionId) := by
  induction records using List.reverseRecOn with
  | nil => rfl
  | append_singleton records record ih =>
      have ih := ih fun r hr => h r (List.mem_append_left _ hr)
      rw [saveAll_concat, save_of_storable (h record (by simp)).storable, List.filter_append,
        List.filter_filter, Table.latest_concat, Table.find?_replace]
      by_cases hid : sessionId = record.sessionId
      · subst hid
        have hold : ∀ rows : List FunnelRow, rows.filter (fun row =>
            decide (row.sessionId = record.sessionId) && decide (row.sessionId ≠ record.sessionId)) =
              [] := by
          intro rows
          refine List.filter_eq_nil_iff.mpr fun row _ => ?_
          simp
        have hnew : (record.funnel.map (funnelValues N record.sessionId)).filter
            (fun row => decide (row.sessionId = record.sessionId)) =
              record.funnel.map (funnelValues N record.sessionId) := by
          refine List.filter_eq_self.mpr fun row hrow => ?_
          obtain ⟨event, -, rfl⟩ := List.mem_map.mp hrow
          exact decide_eq_true rfl
        rw [hold, hnew, if_pos rfl, List.nil_append]
      · have hold : ∀ rows : List FunnelRow, rows.filter (fun row =>
            decide (row.sessionId = sessionId) && decide (row.sessionId ≠ record.sessionId)) =
              rows.filter fun row => decide (row.sessionId = sessionId) := by
          intro rows
          refine List.filter_congr fun row _ => ?_
          by_cases hrow : row.sessionId = sessionId
          · simp [hrow, hid]
          · simp [hrow]
        have hnew : (record.funnel.map (funnelValues N record.sessionId)).filter
            (fun row => decide (row.sessionId = sessionId)) = [] := by
          refine List.filter_eq_nil_iff.mpr fun row hrow => ?_
          obtain ⟨event, -, rfl⟩ := List.mem_map.mp hrow
          simp [funnelValues, Ne.symm hid]
        rw [hold, hnew, if_neg hid, List.append_nil, ih]

/-! ### Loading -/

theorem loadFunnel_of_rows {store : Store} {sessionId : String} {funnel : List FunnelEvent}
    (hrows : store.funnelEvents.filter (fun row => decide (row.sessionId = sessionId)) =
      funnel.map (funnelValues N sessionId))
    (hordered : (funnel.map FunnelEvent.seq).Pairwise (· < ·))
    (hbags : ∀ event ∈ funnel, ∀ d, event.extra = some d → ReadableBag N d) :
    loadFunnel N store sessionId = funnel := by
  have hsorted : (funnel.map (funnelValues N sessionId)).insertionSort (fun a b => a.seq ≤ b.seq) =
      funnel.map (funnelValues N sessionId) := by
    refine List.Pairwise.insertionSort_eq ?_
    rw [List.pairwise_map] at hordered ⊢
    exact hordered.imp fun hlt => le_of_lt hlt
  rw [loadFunnel, hrows, hsorted, List.map_map]
  refine (List.map_congr_left fun event hevent => ?_).trans (List.map_id funnel)
  rw [Function.comp_apply, funnelValues, decodedExtra_dumps (hbags event hevent)]
  rfl

theorem mem_matching : record ∈ matching filter records ↔
    record ∈ (Table.latest records : Table SessionRecord.sessionId).rows ∧
      filter.admits record.symbol record.timeframe record.mode record.startedAt = true := by
  rw [matching, List.mem_insertionSort, List.mem_filter]

/-- What should be loaded is, in ascending order, what was saved last under its identifier. -/
theorem matching_spec (filter : Filter) (records : List SessionRecord) :
    ((matching filter records).Pairwise fun a b =>
        toLex (a.startedAt, a.sessionId) < toLex (b.startedAt, b.sessionId)) ∧
      ∀ record, record ∈ matching filter records ↔
        (records.filter fun r => decide (r.sessionId = record.sessionId)).getLast? = some record ∧
          filter.admits record.symbol record.timeframe record.mode record.startedAt = true := by
  constructor
  · have hnodup : ((matching filter records).map SessionRecord.sessionId).Nodup := by
      refine ((List.perm_insertionSort _ _).map _).nodup_iff.mpr ?_
      exact (Table.latest records).nodup.sublist (List.filter_sublist.map _)
    refine ((List.pairwise_insertionSort _ _).and (List.pairwise_map.mp hnodup)).imp ?_
    rintro a b ⟨hle, hne⟩
    exact lt_of_le_of_ne hle fun heq => hne (congrArg (fun key => (ofLex key).2) heq)
  · intro record
    rw [mem_matching, ← Table.find?_latest]
    exact and_congr_left fun _ =>
      ⟨fun hmem => Table.find?_of_mem hmem rfl, fun hfind => Table.mem_of_find? hfind⟩

/-- **One session** is read back but for what is not read. -/
theorem sessionOfRow_saveAll (h : ∀ record ∈ records, Serializable N record)
    (hrecord : record ∈ (Table.latest records : Table SessionRecord.sessionId).rows) :
    sessionOfRow N (saveAll N records) (sessionValues N record) = record.read := by
  have hser := h record (Table.mem_latest hrecord)
  have hrows := funnelEvents_saveAll h record.sessionId
  rw [Table.find?_of_mem hrecord rfl] at hrows
  have hfunnel := loadFunnel_of_rows hrows hser.ordered hser.bags
  rw [sessionOfRow, sessionValues, decodedToolCallsByName_dumps hser.counts, hfunnel,
    SessionRecord.read]

/-- **The sessions** are read back but for what is not read. -/
theorem loadSessions_saveAll (h : ∀ record ∈ records, Serializable N record) (filter : Filter) :
    loadSessions N (saveAll N records) filter =
      (matching filter records).map SessionRecord.read := by
  have hsort := fun rows : List SessionRecord => List.map_insertionSort
    (r := fun a b : SessionRecord =>
      toLex (a.startedAt, a.sessionId) ≤ toLex (b.startedAt, b.sessionId))
    (s := fun a b : SessionRow => a.sortKey ≤ b.sortKey) (sessionValues N) rows
    fun a _ b _ => Iff.rfl
  rw [loadSessions, sessions_rows_saveAll h, List.filter_map, ← hsort, List.map_map]
  exact List.map_congr_left fun record hrecord =>
    sessionOfRow_saveAll h (mem_matching.mp hrecord).1

theorem read_eq_self (hbudget : record.sessionBudget = none) :
    record.read = record ↔ record.opportunityTier = none ∧ record.extra = none := by
  constructor
  · intro h
    exact ⟨(congrArg SessionRecord.opportunityTier h).symm, (congrArg SessionRecord.extra h).symm⟩
  · rintro ⟨htier, hextra⟩
    rw [SessionRecord.read, ← htier, ← hextra, ← hbudget]

/-- **Loading is lossless** just where the last records saved have no opportunity tier and no bag. -/
theorem load_sessions_lossless_iff (N : NumSyntax PyNum) (R : Runtime) (states : List SessionState)
    (filter : Filter) (h : ∀ state ∈ states, Serializable N (finalizeSession R state)) :
    loadSessions N (saveAll N (states.map (finalizeSession R))) filter =
        matching filter (states.map (finalizeSession R)) ↔
      ∀ record ∈ matching filter (states.map (finalizeSession R)),
        record.opportunityTier = none ∧ record.extra = none := by
  have hser : ∀ record ∈ states.map (finalizeSession R), Serializable N record := by
    intro record hrecord
    obtain ⟨state, hstate, rfl⟩ := List.mem_map.mp hrecord
    exact h state hstate
  have hbudget : ∀ record ∈ matching filter (states.map (finalizeSession R)),
      record.sessionBudget = none := by
    intro record hrecord
    obtain ⟨state, -, rfl⟩ := List.mem_map.mp (Table.mem_latest (mem_matching.mp hrecord).1)
    rfl
  rw [loadSessions_saveAll hser]
  constructor
  · intro hlossless record hrecord
    rw [← read_eq_self (hbudget record hrecord)]
    exact List.map_inj_left.mp (hlossless.trans (List.map_id _).symm) record hrecord
  · intro hnone
    refine (List.map_congr_left fun record hrecord => ?_).trans (List.map_id _)
    exact (read_eq_self (hbudget record hrecord)).mpr (hnone record hrecord)

/-- A session that called one tool. -/
def priced : SessionState where
  threadId := "a"
  startedAt := 0
  funnel := [{ seq := 0, kind := .sessionStarted },
    { seq := 1, kind := .toolCall, toolName := some "get_quote", extra := some [("calls", .int 1)] }]
  toolCallsTotal := 1
  toolCallsByName := ToolCounts.bump .empty "get_quote"

/-- The session at a pause, and again when it was decided. -/
def twice : List SessionState := [priced, { priced with endedAt := some 5, outcome := some .tradeBuy }]

def oneDigit : NumSyntax PyNum := NumSyntax.ofTable [(.int 1, ['1'])]

theorem load_sessions_lossless_twice :
    loadSessions oneDigit (saveAll oneDigit (twice.map (finalizeSession .small))) {} =
      matching {} (twice.map (finalizeSession .small)) := by
  have hone : oneDigit.Readable (.int 1) := by decide
  have hser : ∀ state ∈ twice, Serializable oneDigit (finalizeSession .small state) := by
    intro state hstate
    have hsame : state.funnel = priced.funnel ∧ state.toolCallsByName = priced.toolCallsByName := by
      rcases List.mem_pair.mp hstate with rfl | rfl
      · exact ⟨rfl, rfl⟩
      · exact ⟨rfl, rfl⟩
    refine ⟨?_, ?_, fun row hrow => ?_, fun event hevent d hd => ?_⟩
    · rcases List.mem_pair.mp hstate with rfl | rfl
      · decide
      · decide
    · show (state.funnel.map FunnelEvent.seq).Pairwise (· < ·)
      rw [hsame.1]
      decide
    · have hrow : row ∈ priced.toolCallsByName.rows := hsame.2 ▸ hrow
      rw [List.mem_singleton.mp hrow]
      exact hone
    · have hevent : event ∈ priced.funnel := hsame.1 ▸ hevent
      rcases List.mem_pair.mp hevent with rfl | rfl
      · cases hd
      · cases hd
        exact ⟨⟨hone, trivial⟩, by decide, trivial, trivial⟩
  refine (load_sessions_lossless_iff oneDigit .small twice {} hser).mpr fun record hrecord => ?_
  obtain ⟨state, hstate, rfl⟩ := List.mem_map.mp (Table.mem_latest (mem_matching.mp hrecord).1)
  rcases List.mem_pair.mp hstate with rfl | rfl
  · exact ⟨rfl, rfl⟩
  · exact ⟨rfl, rfl⟩

/-- A hunt that committed at a tier. -/
def tiered : SessionState where
  threadId := "a"
  startedAt := 0
  endedAt := some 5
  outcome := some .tradeBuy
  funnel := [{ seq := 0, kind := .sessionStarted }, { seq := 1, kind := .decision }]
  opportunityTier := some "a_plus"

/-- The tier is saved, and not loaded. -/
theorem tier_lost :
    (saveAll oneDigit [finalizeSession .small tiered]).sessions.rows.map SessionRow.opportunityTier =
        [some "a_plus"] ∧
      (loadSessions oneDigit (saveAll oneDigit [finalizeSession .small tiered]) {}).map
        SessionRecord.opportunityTier = [none] ∧
      loadSessions oneDigit (saveAll oneDigit [finalizeSession .small tiered]) {} ≠
        matching {} [finalizeSession .small tiered] := by
  have hloaded : (loadSessions oneDigit (saveAll oneDigit [finalizeSession .small tiered]) {}).map
      SessionRecord.opportunityTier = [none] := by decide +kernel
  refine ⟨by decide +kernel, hloaded, fun heq => ?_⟩
  rw [heq] at hloaded
  exact absurd hloaded (by decide +kernel)

end AiTrader.Telemetry
