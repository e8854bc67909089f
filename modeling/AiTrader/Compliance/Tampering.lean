import AiTrader.Compliance.Records

/-! # What the compliance chain detects

Single-row tampers of a verified table, what its tip commits to, and verification after the
payload columns have grown.

* `verifyRows_tamper`: every single-row tamper is detected, except the removal of the last row.
* `tip_commits_to_history`: two verified tables with one tip hold the same payloads and links.
* `verifyRows_snoc`: after a payload column was added, only an empty table still verifies. -/

namespace AiTrader.Compliance

open HashChain

/-! ### Single-row tampers -/

/-- A change of one row, or of the place of one or two rows. -/
inductive Tamper where
  | edit (i : ℕ) (column : String) (value : PyVal)
  | remove (i : ℕ)
  | swap (i j : ℕ)
  | insertCopy (i p : ℕ)

namespace Tamper

/-- The rows after the tamper. -/
def apply : Tamper → List Row → List Row
  | edit i column value, rows => rows.modify i fun row => row.set column value
  | remove i, rows => rows.eraseIdx i
  | swap i j, rows =>
      match rows[i]?, rows[j]? with
      | some a, some b => (rows.set i b).set j a
      | _, _ => rows
  | insertCopy i p, rows =>
      match rows[i]? with
      | some row => rows.take p ++ row :: rows.drop p
      | none => rows

/-- The tamper is one of these rows and changes something: an edited payload column gets a value
with another canonical text, and the rows exchanged are two. -/
def Alters (H : Host) (C : PayloadColumns) (rows : List Row) : Tamper → Prop
  | edit i column value => column ∈ C.names ∧ ∃ row, rows[i]? = some row ∧
      canonicalJson H.reprFloat value ≠ canonicalJson H.reprFloat (row.get column)
  | remove i => i < rows.length
  | swap i j => i < j ∧ j < rows.length
  | insertCopy i p => i < rows.length ∧ p ≤ rows.length

end Tamper

section
variable {H : Host} {C : PayloadColumns} {rows rows' : List Row}

theorem exists_getElem? {i : ℕ} (h : i < rows.length) : ∃ row, rows[i]? = some row :=
  ⟨rows[i], List.getElem?_eq_getElem h⟩

theorem exists_split {i : ℕ} {row : Row} (h : rows[i]? = some row) :
    ∃ xs ys, rows = xs ++ row :: ys ∧ xs.length = i := by
  obtain ⟨hlt, hget⟩ := List.getElem?_eq_some_iff.mp h
  refine ⟨rows.take i, rows.drop (i + 1), ?_, by rw [List.length_take]; omega⟩
  rw [← hget, ← List.drop_eq_getElem_cons hlt, List.take_append_drop]

theorem canonicalJson_set {row : Row} {column : String} {value : PyVal} (hcol : column ∈ C.names)
    (hne : canonicalJson H.reprFloat value ≠ canonicalJson H.reprFloat (row.get column)) :
    canonicalJson H.reprFloat (payloadOf C (row.set column value)) ≠
      canonicalJson H.reprFloat (payloadOf C row) := by
  apply canonicalJson_edit (f := row.get) (g := (row.set column value).get) C.nodup hcol
  · intro d _ hd
    exact Kwargs.get_set_of_ne hd
  · rwa [Kwargs.get_set_self]

/-- With a hash that is injective on texts and never yields the first link, a single-row tamper of
a verified table is detected exactly when it is not the removal of the last row. -/
theorem verifyRows_tamper (hinj : Function.Injective H.sha256)
    (hgen : ∀ s, H.sha256 s ≠ genesisHash) (hok : (verifyRows H (payloadOf C) rows).ok = true)
    {t : Tamper} (ht : t.Alters H C rows) :
    (verifyRows H (payloadOf C) (t.apply rows)).ok = false ↔ t ≠ .remove (rows.length - 1) := by
  have hfree := collisionFree (payloadOf C) hinj hgen
  rw [verifyRows_ok] at hok
  rw [Bool.eq_false_iff, ne_eq, verifyRows_ok]
  cases t with
  | edit i column value =>
      obtain ⟨hcol, row, hrow, hne⟩ := ht
      obtain ⟨xs, ys, rfl, rfl⟩ := exists_split hrow
      refine iff_of_true ?_ (by simp)
      have happly : (Tamper.edit xs.length column value).apply (xs ++ row :: ys) =
          xs ++ row.set column value :: ys := by
        simp [Tamper.apply, List.modify_eq_set_getElem?]
      have hmeta : column ≠ "row_hash" := fun h => C.content _ hcol (by simp [h])
      rw [happly]
      exact hok.edit hfree (Kwargs.get_set_of_ne (Ne.symm hmeta)) (canonicalJson_set hcol hne)
  | remove i =>
      obtain ⟨row, hrow⟩ := exists_getElem? ht
      obtain ⟨xs, ys, rfl, rfl⟩ := exists_split hrow
      have happly : (Tamper.remove xs.length).apply (xs ++ row :: ys) = xs ++ ys := by
        simp [Tamper.apply, List.eraseIdx_append_of_length_le]
      rw [happly, hok.remove_iff hfree]
      cases ys <;> simp
  | swap i j =>
      obtain ⟨hij, hj⟩ := ht
      obtain ⟨a, ha⟩ := exists_getElem? (hij.trans hj)
      obtain ⟨b, hb⟩ := exists_getElem? hj
      obtain ⟨xs, rest, rfl, rfl⟩ := exists_split ha
      have hrest : rest[j - xs.length - 1]? = some b := by
        rw [List.getElem?_append_right (by omega), List.getElem?_cons, if_neg (by omega)] at hb
        exact hb
      obtain ⟨ys, zs, rfl, hys⟩ := exists_split hrest
      refine iff_of_true ?_ (by simp)
      have hj' : j = xs.length + 1 + ys.length := by omega
      have happly : (Tamper.swap xs.length j).apply (xs ++ a :: (ys ++ b :: zs)) =
          xs ++ b :: ys ++ a :: zs := by
        simp only [Tamper.apply, ha, hj']
        simp [List.set_append_right, Nat.add_assoc, Nat.add_comm 1]
      rw [happly]
      exact Scheme.Chained.swap hfree (by simpa using hok)
  | insertCopy i p =>
      obtain ⟨hi, hp⟩ := ht
      refine iff_of_true ?_ (by simp)
      have happly : (Tamper.insertCopy i p).apply rows =
          rows.take p ++ rows[i] :: rows.drop p := by
        simp [Tamper.apply, hi]
      rw [happly]
      rw [← List.take_append_drop p rows] at hok
      exact hok.insert_copy hfree (by simp)

/-- As many rows, and position by position one canonical text of the payload, one `prev_hash` and
one `row_hash`. -/
def SameHistory (H : Host) (payloadOf : Row → PyVal) (rows rows' : List Row) : Prop :=
  rows.length = rows'.length ∧
    ∀ (i : ℕ) (row row' : Row), rows[i]? = some row → rows'[i]? = some row' →
      canonicalJson H.reprFloat (payloadOf row) = canonicalJson H.reprFloat (payloadOf row') ∧
        row.get "prev_hash" = row'.get "prev_hash" ∧ row.get "row_hash" = row'.get "row_hash"

/-- **The tip commits to the history.** With such a hash, two verified tables whose last rows
carry one `row_hash` have the same history. -/
theorem tip_commits_to_history {payloadOf : Row → PyVal} (hinj : Function.Injective H.sha256)
    (hgen : ∀ s, H.sha256 s ≠ genesisHash) (hne : rows ≠ []) (hne' : rows' ≠ [])
    (hok : (verifyRows H payloadOf rows).ok = true)
    (hok' : (verifyRows H payloadOf rows').ok = true)
    (hlast : (rows.getLast hne).get "row_hash" = (rows'.getLast hne').get "row_hash") :
    SameHistory H payloadOf rows rows' := by
  have htip : ∀ {l : List Row} (hl : l ≠ []), (scheme H payloadOf).tip (.str genesisHash) l =
      (l.getLast hl).get "row_hash" := by
    intro l hl
    conv_lhs => rw [← List.dropLast_append_getLast hl]
    exact Scheme.tip_concat _ _ _
  have hagree := (verifyRows_ok.mp hok).commit (collisionFree payloadOf hinj hgen)
    (verifyRows_ok.mp hok') (by rw [htip hne, htip hne', hlast])
  obtain ⟨hlen, hget⟩ := List.forall₂_iff_get.mp hagree
  refine ⟨hlen, fun i row row' hrow hrow' => ?_⟩
  obtain ⟨h, rfl⟩ := List.getElem?_eq_some_iff.mp hrow
  obtain ⟨h', rfl⟩ := List.getElem?_eq_some_iff.mp hrow'
  obtain ⟨hprev, hbody, hhash⟩ := hget i h h'
  exact ⟨hbody, hprev, hhash⟩

/-! ### A further payload column -/

/-- The payload columns with one more. -/
def PayloadColumns.snoc (C : PayloadColumns) (c : String) (hc : c ∉ C.names)
    (hmeta : c ∉ ["id", "prev_hash", "row_hash"]) : PayloadColumns where
  names := C.names ++ [c]
  nodup := by
    rw [List.nodup_append]
    refine ⟨C.nodup, List.nodup_singleton c, ?_⟩
    rintro a ha b hb rfl
    exact hc (List.mem_singleton.mp hb ▸ ha)
  content d hd := by
    rcases List.mem_append.mp hd with hd | hd
    · exact C.content d hd
    · exact List.mem_singleton.mp hd ▸ hmeta

/-- A row hashed over the old columns does not match over the new ones: a column that reads as
`NULL` still is a member of the hashed text. -/
theorem verifyRows_snoc_false {c : String} {hc : c ∉ C.names}
    {hmeta : c ∉ ["id", "prev_hash", "row_hash"]} (hinj : Function.Injective H.sha256)
    (hok : (verifyRows H (payloadOf C) rows).ok = true) (hne : rows ≠ []) :
    (verifyRows H (payloadOf (C.snoc c hc hmeta)) rows).ok = false := by
  rw [Bool.eq_false_iff, ne_eq, verifyRows_ok]
  intro hnew
  rw [verifyRows_ok] at hok
  cases rows with
  | nil => exact hne rfl
  | cons row rows =>
      obtain ⟨-, hold, -⟩ := hok
      obtain ⟨-, hhash, -⟩ := hnew
      have hjson := (hashJson_inj hinj isHash_genesis isHash_genesis
        (PyVal.str.inj (hold.symm.trans hhash))).2
      have hlt : (canonicalJson H.reprFloat (payloadOf C row)).length <
          (canonicalJson H.reprFloat (payloadOf (C.snoc c hc hmeta) row)).length :=
        length_canonicalJson_snoc c
      exact absurd (congrArg String.length hjson) hlt.ne

/-- After a payload column was added, whatever the stored rows read there, a table written before
verifies exactly when it is empty. -/
theorem verifyRows_snoc (c : String) (hc : c ∉ C.names)
    (hmeta : c ∉ ["id", "prev_hash", "row_hash"]) (hinj : Function.Injective H.sha256)
    (hok : (verifyRows H (payloadOf C) rows).ok = true) :
    (verifyRows H (payloadOf (C.snoc c hc hmeta)) rows).ok = true ↔ rows = [] := by
  constructor
  · intro hnew
    by_contra hne
    rw [verifyRows_snoc_false hinj hok hne] at hnew
    exact Bool.false_ne_true hnew
  · rintro rfl
    rfl

end

/-! ### One interaction, logged -/

/-- A request and its outcome. -/
def loggedRequest : Payload interactionColumns :=
  requestPayload (.fin 1700000000) { kind := "run", threadId := some "t-1", symbol := some "INFY" }

def loggedOutcome : Payload interactionColumns :=
  outcomePayload (.fin 1700000042) { kind := "run", status := "completed", threadId := some "t-1" }

/-- The two rows as `_append` stores them, under the given row ids. -/
def interactionRows (i j : ℕ) : List Row :=
  [storedRow binaryHost i loggedRequest genesisHash,
   storedRow binaryHost j loggedOutcome
     (hashPayload binaryHost (.str genesisHash) (.dict loggedRequest.values))]

theorem interactionRow_ok (i : ℕ) :
    (verifyRows binaryHost (payloadOf interactionColumns)
      ([] ++ [storedRow binaryHost i loggedRequest genesisHash])).ok = true :=
  verifyRows_storedRow.mpr ⟨rfl, rfl, .inl rfl⟩

theorem interactionRows_ok (i j : ℕ) :
    (verifyRows binaryHost (payloadOf interactionColumns) (interactionRows i j)).ok = true := by
  have hrows : interactionRows i j =
      ([] ++ [storedRow binaryHost i loggedRequest genesisHash]) ++
        [storedRow binaryHost j loggedOutcome
          (hashPayload binaryHost (.str genesisHash) (.dict loggedRequest.values))] := rfl
  rw [hrows, verifyRows_storedRow]
  refine ⟨interactionRow_ok i, ?_, .inl rfl⟩
  simp only [List.nil_append, chainTip, List.getLast?_singleton, storedRow_row_hash]
  rw [Payload.text_of_nil rfl]
  exact (hashText_str (binaryHost.sha256_ne _)).symm

theorem verifyRows_tamper_interaction :
    (verifyRows binaryHost (payloadOf interactionColumns)
      ((Tamper.swap 0 1).apply (interactionRows 1 2))).ok = false ↔
      Tamper.swap 0 1 ≠ .remove ((interactionRows 1 2).length - 1) :=
  verifyRows_tamper binaryHost_injective binaryHost_ne_genesis (interactionRows_ok 1 2)
    ⟨Nat.one_pos, Nat.lt_succ_self 1⟩

/-- The removal of the last row goes unnoticed. -/
theorem removed_outcome_verifies :
    (verifyRows binaryHost (payloadOf interactionColumns) (interactionRows 1 2)).ok = true ∧
      (Tamper.remove 1).Alters binaryHost interactionColumns (interactionRows 1 2) ∧
      (verifyRows binaryHost (payloadOf interactionColumns)
        ((Tamper.remove 1).apply (interactionRows 1 2))).ok = true :=
  ⟨interactionRows_ok 1 2, Nat.lt_succ_self 1,
    interactionRow_ok 1⟩

/-- Row ids are not hashed: a renumbered table has the same tip, and the same history. -/
theorem tip_commits_to_history_renumbered :
    SameHistory binaryHost (payloadOf interactionColumns) (interactionRows 1 2)
      (interactionRows 4 9) :=
  tip_commits_to_history binaryHost_injective binaryHost_ne_genesis (List.cons_ne_nil _ _)
    (List.cons_ne_nil _ _) (interactionRows_ok 1 2) (interactionRows_ok 4 9)
    (storedRow_row_hash.trans storedRow_row_hash.symm)

theorem interactionRows_locale : ∀ row ∈ interactionRows 1 2, row.get "locale" = .none := by
  intro row hrow
  rcases List.mem_cons.mp hrow with rfl | hrow
  · rfl
  · rw [List.mem_singleton.mp hrow]
    rfl

theorem locale_fresh : "locale" ∉ interactionColumns.names ∧
    "locale" ∉ ["id", "prev_hash", "row_hash"] := by decide

theorem verifyRows_snoc_locale :
    (verifyRows binaryHost
      (payloadOf (interactionColumns.snoc "locale" locale_fresh.1 locale_fresh.2))
      (interactionRows 1 2)).ok = true ↔ interactionRows 1 2 = [] :=
  verifyRows_snoc "locale" locale_fresh.1 locale_fresh.2 binaryHost_injective
    (interactionRows_ok 1 2)

/-- A log that verifies no longer does once its table has a further payload column. -/
theorem interaction_log_broken_by_column :
    (verifyRows binaryHost (payloadOf interactionColumns) (interactionRows 1 2)).ok = true ∧
      (∀ row ∈ interactionRows 1 2, row.get "locale" = .none) ∧
      (verifyRows binaryHost
        (payloadOf (interactionColumns.snoc "locale" locale_fresh.1 locale_fresh.2))
        (interactionRows 1 2)).ok = false :=
  ⟨interactionRows_ok 1 2, interactionRows_locale,
    verifyRows_snoc_false binaryHost_injective (interactionRows_ok 1 2) (List.cons_ne_nil _ _)⟩

end AiTrader.Compliance
