import AiTrader.Session.Operations
import Mathlib.Data.List.Sort

/-! # The transcript of a run

The frames of a run as `run_events` stores them, numbered from `1`.

* `Transcript s rid frames`: the run's rows are exactly these frames, in this order, and its
  `last_seq` is their number.
* `Transcript.seqs_perm`: the sequence numbers of a transcript are exactly `1 … last_seq`.
* `frameAt_insertEvents`, `count_insertEvents_le`: what `INSERT OR IGNORE` of a batch stores.
* `listRunEvents_of_transcript`: the page that `list_run_events` reads from a transcript. -/

namespace AiTrader.Session

/-- An event name and its payload. -/
abbrev StoredFrame := String × PyVal

/-- What a row of the transcript holds. -/
def EventRow.frame (e : EventRow) : StoredFrame := (e.event, e.payload)

namespace Store

/-- The frame stored under a sequence number. -/
def frameAt (s : Store) (rid : Id) (seq : ℕ) : Option StoredFrame :=
  (s.runEvents.find? (rid, seq)).map EventRow.frame

/-- `SELECT last_seq FROM runs WHERE run_id = ?`. -/
def lastSeq? (s : Store) (rid : Id) : Option ℕ := (s.runs.find? rid).map RunRow.lastSeq

/-- The rows of a run. -/
def eventsOf (s : Store) (rid : Id) : List EventRow :=
  s.runEvents.rows.filter fun e => decide (e.runId = rid)

/-- The transcript of the run is these frames. -/
structure Transcript (s : Store) (rid : Id) (frames : List StoredFrame) : Prop where
  lastSeq : s.lastSeq? rid = some frames.length
  zero : s.frameAt rid 0 = none
  succ : ∀ k, s.frameAt rid (k + 1) = frames[k]?

section
variable {s s' : Store} {rid : Id} {frames : List StoredFrame} {e : EventRow}

theorem frameAt_of_mem (h : e ∈ s.eventsOf rid) : s.frameAt rid e.seq = some e.frame := by
  obtain ⟨hmem, hrun⟩ := List.mem_filter.mp h
  have hkey : EventRow.key e = (rid, e.seq) := by rw [← of_decide_eq_true hrun]; rfl
  rw [frameAt, Table.find?_of_mem hmem hkey]
  rfl

theorem mem_of_frameAt {seq : ℕ} {f : StoredFrame} (h : s.frameAt rid seq = some f) :
    ∃ e ∈ s.eventsOf rid, e.seq = seq ∧ e.frame = f := by
  obtain ⟨e, he, hf⟩ := Option.map_eq_some_iff.mp h
  have hkey : EventRow.key e = (rid, seq) := Table.find?_key he
  obtain ⟨hrun, hseq⟩ := Prod.mk.inj hkey
  exact ⟨e, List.mem_filter.mpr ⟨Table.mem_of_find? he, decide_eq_true hrun⟩, hseq, hf⟩

theorem nodup_seqs (s : Store) (rid : Id) : ((s.eventsOf rid).map EventRow.seq).Nodup := by
  have hkeys : ((s.eventsOf rid).map EventRow.key).Nodup :=
    s.runEvents.nodup.sublist (List.filter_sublist.map _)
  refine (List.nodup_map_iff_inj_on (hkeys.of_map _)).mpr fun a ha b hb hab => ?_
  have ha' := of_decide_eq_true (List.mem_filter.mp ha).2
  have hb' := of_decide_eq_true (List.mem_filter.mp hb).2
  refine List.inj_on_of_nodup_map hkeys ha hb ?_
  show (a.runId, a.seq) = (b.runId, b.seq)
  rw [ha', hb', hab]

/-- The sequence numbers of a transcript are exactly `1 … last_seq`. -/
theorem Transcript.seqs_perm (h : s.Transcript rid frames) :
    ((s.eventsOf rid).map EventRow.seq).Perm (List.range' 1 frames.length) := by
  refine (List.perm_ext_iff_of_nodup (nodup_seqs s rid) List.nodup_range').mpr fun q => ?_
  rw [List.mem_map, List.mem_range'_1]
  constructor
  · rintro ⟨e, he, rfl⟩
    have hframe := frameAt_of_mem he
    cases hq : e.seq with
    | zero => rw [hq, h.zero] at hframe; cases hframe
    | succ k =>
        rw [hq, h.succ] at hframe
        have hk := (List.getElem?_eq_some_iff.mp hframe).1
        omega
  · rintro ⟨hpos, hlt⟩
    obtain ⟨k, rfl⟩ := Nat.exists_eq_add_of_le' hpos
    have hk : k < frames.length := by omega
    obtain ⟨e, he, hseq, -⟩ := mem_of_frameAt ((h.succ k).trans (List.getElem?_eq_getElem hk))
    exact ⟨e, he, hseq⟩

theorem Transcript.count (h : s.Transcript rid frames) :
    (s.eventsOf rid).length = frames.length := by
  have hlen := h.seqs_perm.length_eq
  rwa [List.length_map, List.length_range'] at hlen

/-! ### `INSERT OR IGNORE` of a batch -/

/-- The batch, numbered from `seq + 1`. -/
def insertEvents (s : Store) (rid : Id) (now : Stamp) (seq : ℕ) (batch : List StoredFrame) : Store :=
  { s with runEvents := (eventRows rid now seq batch).foldl Table.insertIgnore s.runEvents }

variable {now : Stamp} {seq : ℕ} {batch : List StoredFrame}

theorem insertEvents_cons (f : StoredFrame) (batch : List StoredFrame) :
    s.insertEvents rid now seq (f :: batch) =
      (s.insertEvents rid now seq [f]).insertEvents rid now (seq + 1) batch := rfl

@[simp] theorem insertEvents_runs : (s.insertEvents rid now seq batch).runs = s.runs := rfl

theorem frameAt_insertEvents_one (f : StoredFrame) (q : ℕ) :
    (s.insertEvents rid now seq [f]).frameAt rid q =
      if q = seq + 1 then (s.frameAt rid q).or (some f) else s.frameAt rid q := by
  let row : EventRow :=
    { runId := rid, seq := seq + 1, event := f.1, payload := f.2, createdAt := now }
  have hinsert : (s.insertEvents rid now seq [f]).runEvents = s.runEvents.insertIgnore row := rfl
  rw [frameAt, hinsert]
  by_cases hq : q = seq + 1
  · subst hq
    rw [if_pos rfl]
    cases hold : s.runEvents.find? (rid, seq + 1) with
    | none =>
        rw [show (rid, seq + 1) = EventRow.key row from rfl, Table.find?_insertIgnore_self hold]
        simp [frameAt, hold, row, EventRow.frame]
    | some e =>
        rw [Table.find?_insertIgnore_of_some hold]
        simp [frameAt, hold]
  · have hne : EventRow.key row ≠ (rid, q) := fun h => hq (Prod.mk.inj h).2.symm
    rw [if_neg hq, Table.find?_insertIgnore_of_ne hne]
    rfl

/-- A batch numbered beyond all stored frames is stored whole. -/
theorem frameAt_insertEvents (hfree : ∀ q, seq < q → s.frameAt rid q = none) (q : ℕ) :
    (s.insertEvents rid now seq batch).frameAt rid q =
      if seq < q then batch[q - seq - 1]? else s.frameAt rid q := by
  induction batch generalizing s seq with
  | nil =>
      show s.frameAt rid q = _
      split
      · rename_i h
        rw [hfree q h, List.getElem?_nil]
      · rfl
  | cons f batch ih =>
      have hone : ∀ q, seq + 1 < q → (s.insertEvents rid now seq [f]).frameAt rid q = none := by
        intro q hq
        rw [frameAt_insertEvents_one, if_neg (by omega), hfree q (by omega)]
      rw [insertEvents_cons, ih hone]
      by_cases hlt : seq + 1 < q
      · rw [if_pos hlt, if_pos (by omega), show q - seq - 1 = (q - (seq + 1) - 1) + 1 by omega,
          List.getElem?_cons_succ]
      · rw [if_neg hlt, frameAt_insertEvents_one]
        by_cases hq : q = seq + 1
        · subst hq
          rw [if_pos rfl, if_pos (by omega), hfree _ (by omega)]
          simp
        · rw [if_neg hq, if_neg (by omega)]

theorem count_insertEvents_one (f : StoredFrame) :
    ((s.insertEvents rid now seq [f]).eventsOf rid).length =
      (s.eventsOf rid).length + if (s.frameAt rid (seq + 1)).isSome then 0 else 1 := by
  let row : EventRow :=
    { runId := rid, seq := seq + 1, event := f.1, payload := f.2, createdAt := now }
  have hinsert : (s.insertEvents rid now seq [f]).runEvents = s.runEvents.insertIgnore row := rfl
  rw [eventsOf, hinsert]
  cases hold : s.runEvents.find? (rid, seq + 1) with
  | none =>
      have hrows : (s.runEvents.insertIgnore row).rows = s.runEvents.rows ++ [row] :=
        Table.insertIgnore_rows hold
      rw [hrows, List.filter_append]
      simp [frameAt, hold, eventsOf, row]
  | some e =>
      have hrows : s.runEvents.insertIgnore row = s.runEvents := by
        rw [Table.insertIgnore, dif_neg]
        rw [show EventRow.key row = (rid, seq + 1) from rfl, hold]
        exact Option.some_ne_none e
      rw [hrows]
      simp [frameAt, hold, eventsOf]

theorem count_insertEvents_le (s : Store) (rid : Id) (now : Stamp) (seq : ℕ)
    (batch : List StoredFrame) :
    ((s.insertEvents rid now seq batch).eventsOf rid).length ≤
      (s.eventsOf rid).length + batch.length := by
  induction batch generalizing s seq with
  | nil => exact le_rfl
  | cons f batch ih =>
      rw [insertEvents_cons, List.length_cons]
      have hrest := ih (s.insertEvents rid now seq [f]) (seq + 1)
      rw [count_insertEvents_one] at hrest
      split at hrest <;> omega

/-- A batch whose first number is taken loses a frame. -/
theorem count_insertEvents_lt (now : Stamp) (hne : batch ≠ [])
    (htaken : (s.frameAt rid (seq + 1)).isSome) :
    ((s.insertEvents rid now seq batch).eventsOf rid).length <
      (s.eventsOf rid).length + batch.length := by
  cases batch with
  | nil => exact absurd rfl hne
  | cons f batch =>
      rw [insertEvents_cons, List.length_cons]
      have hrest := (s.insertEvents rid now seq [f]).count_insertEvents_le rid now (seq + 1) batch
      rw [count_insertEvents_one, if_pos htaken] at hrest
      omega

/-! ### The statements of `append_run_events` -/

/-- `UPDATE runs SET last_seq = ?, last_event_at = ?`. -/
def setLastSeq (s : Store) (rid : Id) (seq : ℕ) (now : Stamp) : Store :=
  s.updateRuns (fun r => decide (r.runId = rid))
    (fun r => { r with lastSeq := seq, lastEventAt := now }) (fun _ => rfl)

theorem lastSeq?_setLastSeq (h : (s.lastSeq? rid).isSome) :
    (s.setLastSeq rid seq now).lastSeq? rid = some seq := by
  obtain ⟨n, hn⟩ := Option.isSome_iff_exists.mp h
  obtain ⟨r, hr, -⟩ := Option.map_eq_some_iff.mp hn
  have hid : r.runId = rid := Table.find?_key hr
  have hrow : (s.setLastSeq rid seq now).runs.find? rid =
      (s.runs.find? rid).map (fun r => if decide (r.runId = rid) then
        { r with lastSeq := seq, lastEventAt := now } else r) :=
    Table.find?_updateWhere s.runs (fun r => decide (r.runId = rid))
      (fun r => { r with lastSeq := seq, lastEventAt := now }) (fun _ => rfl) rid
  rw [lastSeq?, hrow, hr]
  simp [hid]

/-- In a row, the statements are `append_run_events`. -/
theorem appendRunEvents_eq {r : RunRow} (hr : s.runs.find? rid = some r) (hne : batch ≠ [])
    (hnamed : batch.any (fun e => (Session.text e.1).isNone) = false) :
    s.appendRunEvents now rid batch =
      .ok (r.lastSeq + batch.length,
        ((s.insertEvents rid now r.lastSeq batch).setLastSeq rid (r.lastSeq + batch.length)
          now).touch r.sessionId now) := by
  have hempty : batch.isEmpty = false := by simpa using hne
  rw [appendRunEvents, hr]
  simp only [hempty, hnamed, Bool.false_eq_true, if_false]
  rfl

theorem Transcript.congr (h : s.Transcript rid frames) (hruns : s'.runs = s.runs)
    (hevents : s'.runEvents = s.runEvents) : s'.Transcript rid frames := by
  refine ⟨?_, ?_, fun k => ?_⟩
  · rw [lastSeq?, hruns]
    exact h.lastSeq
  · rw [frameAt, hevents]
    exact h.zero
  · rw [frameAt, hevents]
    exact h.succ k

theorem Transcript.append (h : s.Transcript rid frames) (hne : batch ≠ [])
    (hnamed : batch.any (fun e => (Session.text e.1).isNone) = false) :
    ∃ n s', s.appendRunEvents now rid batch = .ok (n, s') ∧ s'.Transcript rid (frames ++ batch) := by
  obtain ⟨r, hr, hseq⟩ := Option.map_eq_some_iff.mp h.lastSeq
  refine ⟨_, _, appendRunEvents_eq hr hne hnamed, ?_⟩
  rw [hseq]
  have hframes : ∀ q, (s.insertEvents rid now frames.length batch).frameAt rid q =
      if frames.length < q then batch[q - frames.length - 1]? else s.frameAt rid q :=
    frameAt_insertEvents fun q hq => by
      obtain ⟨k, rfl⟩ := Nat.exists_eq_add_of_lt hq
      rw [h.succ, List.getElem?_eq_none (by omega)]
  refine ⟨?_, ?_, fun k => ?_⟩
  · refine (lastSeq?_setLastSeq ?_).trans (by rw [List.length_append])
    show (s.lastSeq? rid).isSome
    rw [h.lastSeq]
    rfl
  · exact (hframes 0).trans (by rw [if_neg (by omega), h.zero])
  · refine (hframes (k + 1)).trans ?_
    by_cases hk : frames.length < k + 1
    · rw [if_pos hk, List.getElem?_append_right (by omega)]
      congr 1
      omega
    · rw [if_neg hk, h.succ, List.getElem?_append_left (by omega)]

/-! ### `list_run_events` -/

/-- `_loads(…) or {}`. -/
def orEmpty (v : PyVal) : PyVal := if v.truthy then v else .dict []

/-- The rows after `afterSeq`, in the order of `seq`. -/
def page (s : Store) (rid : Id) (afterSeq : ℕ) : List EventRow :=
  ((s.eventsOf rid).filter fun e => decide (afterSeq < e.seq)).insertionSort
    (fun a b => a.seq ≤ b.seq)

/-- The sequence numbers after `afterSeq` are an interval. -/
theorem Transcript.seqs_page (h : s.Transcript rid frames) (afterSeq : ℕ) :
    (s.page rid afterSeq).map EventRow.seq =
      List.range' (afterSeq + 1) (frames.length - afterSeq) := by
  have hperm : (s.page rid afterSeq).Perm
      ((s.eventsOf rid).filter fun e => decide (afterSeq < e.seq)) := List.perm_insertionSort _ _
  have hnodup : ((s.page rid afterSeq).map EventRow.seq).Nodup :=
    (hperm.map _).nodup_iff.mpr ((nodup_seqs s rid).sublist (List.filter_sublist.map _))
  have hsorted : (s.page rid afterSeq).Pairwise (fun a b => a.seq ≤ b.seq) :=
    List.pairwise_insertionSort (r := fun a b : EventRow => a.seq ≤ b.seq) _
  apply List.Perm.eq_of_pairwise' (r := (· ≤ ·))
  · exact List.pairwise_map.mpr hsorted
  · exact (List.sortedLE_range' _ _ _).pairwise
  · refine (List.perm_ext_iff_of_nodup hnodup List.nodup_range').mpr fun q => ?_
    have hmem := h.seqs_perm.mem_iff (a := q)
    rw [List.mem_range'_1] at hmem ⊢
    constructor
    · intro hq
      obtain ⟨e, he, rfl⟩ := List.mem_map.mp hq
      obtain ⟨he, hlt⟩ := List.mem_filter.mp (hperm.mem_iff.mp he)
      have hrange := hmem.mp (List.mem_map_of_mem he)
      have hlt' := of_decide_eq_true hlt
      omega
    · intro hq
      obtain ⟨e, he, rfl⟩ := List.mem_map.mp (hmem.mpr (by omega))
      exact List.mem_map_of_mem (hperm.mem_iff.mpr
        (List.mem_filter.mpr ⟨he, decide_eq_true (by omega)⟩))

theorem Transcript.frames_page (h : s.Transcript rid frames) (afterSeq : ℕ) :
    (s.page rid afterSeq).map EventRow.frame = frames.drop afterSeq := by
  have hseqs := h.seqs_page afterSeq
  have hlen : (s.page rid afterSeq).length = frames.length - afterSeq := by
    have hmap := congrArg List.length hseqs
    rwa [List.length_map, List.length_range'] at hmap
  apply List.ext_getElem?
  intro j
  by_cases hj : j < (s.page rid afterSeq).length
  · have hseq : ((s.page rid afterSeq)[j]).seq = afterSeq + 1 + j := by
      have hget := congrArg (fun l => l[j]?) hseqs
      simp only [List.getElem?_map, List.getElem?_eq_getElem hj, Option.map_some] at hget
      rw [List.getElem?_range' (by omega)] at hget
      simpa using hget
    have hmem : (s.page rid afterSeq)[j] ∈ s.eventsOf rid := by
      have hin := (List.perm_insertionSort (fun a b : EventRow => a.seq ≤ b.seq) _).mem_iff.mp
        (List.getElem_mem hj)
      exact (List.mem_filter.mp hin).1
    have hframe := frameAt_of_mem hmem
    rw [hseq, show afterSeq + 1 + j = (afterSeq + j) + 1 by omega, h.succ] at hframe
    rw [List.getElem?_map, List.getElem?_eq_getElem hj, Option.map_some, List.getElem?_drop, hframe]
  · rw [List.getElem?_eq_none (by rw [List.length_map]; omega),
      List.getElem?_eq_none (by rw [List.length_drop]; omega)]

/-- `list_run_events`: at most `limit` frames after `afterSeq`, and the run's `last_seq`. -/
def listRunEvents (s : Store) (rid : Id) (afterSeq limit : ℕ) : List (ℕ × StoredFrame) × ℕ :=
  match s.lastSeq? rid with
  | none => ([], 0)
  | some last =>
      (((s.page rid afterSeq).take (max 1 (min limit 5000))).map
        (fun e => (e.seq, (e.event, orEmpty e.payload))), last)

/-- The default of `limit`. -/
def defaultPage : ℕ := 1000

/-- What is read from a transcript: the frames after `afterSeq`, as many as fit the page. -/
theorem listRunEvents_of_transcript (h : s.Transcript rid frames) (afterSeq limit : ℕ) :
    (s.listRunEvents rid afterSeq limit).1.map Prod.snd =
      ((frames.drop afterSeq).take (max 1 (min limit 5000))).map
        (fun f => (f.1, orEmpty f.2)) := by
  rw [listRunEvents, h.lastSeq, ← h.frames_page, ← List.map_take, List.map_map, List.map_map]
  rfl

end

end Store

theorem sampleStore_transcript : sampleStore.Transcript 1 [] := by
  have hrows : sampleStore.runEvents.rows.isEmpty = true := by decide +kernel
  have hnone : ∀ q, sampleStore.frameAt 1 q = none := by
    intro q
    rw [Store.frameAt, Table.find?, List.isEmpty_iff.mp hrows]
    rfl
  have hlast : sampleStore.lastSeq? 1 = some 0 := by decide +kernel
  exact ⟨hlast, hnone 0, fun k => hnone (k + 1)⟩

end AiTrader.Session
