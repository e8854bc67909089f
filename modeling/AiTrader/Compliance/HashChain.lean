import AiTrader.Compliance.CanonicalJson
import AiTrader.Library.HashChain
import Mathlib.Algebra.Order.BigOperators.Group.List

/-! # The compliance hash chain

`hashchain.py`: the link between two rows of a compliance table, the tip of the table and its
verification, and the payload that the records rebuild from a stored row.  The hash is a
parameter: all that is known of `sha256(…).hexdigest()` here is that it yields hex digits.

* `verifyRows_ok`: a table verifies exactly when its rows chain up from `genesisHash`.
* `verifyRows_broken`: a failed verification names the first row that does not reconcile.
* `collisionFree`: an injective hash that avoids `genesisHash` gives collision-free links.
* `tip_commits_to_history`, `verifyRows_tamper`: what the tip of a verified table commits to,
  and which single tampers verification detects.
* `Payload.readsBack_iff`: a stored row has the hash of what was written unless that holds `-0.0`.
* `verifyRows_storedRow`: when a table still verifies with one more row. -/

namespace AiTrader.Compliance

open HashChain

/-- What the interpreter provides: how a finite float prints, and `hashlib.sha256` over the
UTF-8 bytes of a text, as `hexdigest()`. -/
structure Host where
  reprFloat : F64 → String
  sha256 : String → String
  sha256_ne : ∀ s, sha256 s ≠ ""
  sha256_hex : ∀ s, ∀ c ∈ (sha256 s).toList, c.isDigit ∨ c ∈ ['a', 'b', 'c', 'd', 'e', 'f']

/-- A stored row, read by column name; `_row_get` yields `None` for a column it lacks. -/
abbrev Row := Kwargs

/-- The first link of every chain. -/
def genesisHash : String := String.ofList (List.replicate 64 '0')

/-- A hash read from a row: anything but a non-empty text falls back to the first link. -/
def hashText : PyVal → String
  | .str s => if s = "" then genesisHash else s
  | _ => genesisHash

section
variable (H : Host)

/-- The link over the text of a payload. -/
def hashJson (prev : PyVal) (json : String) : String := H.sha256 (hashText prev ++ "\n" ++ json)

/-- `hash_payload`. -/
def hashPayload (prev payload : PyVal) : String := hashJson H prev (canonicalJson H.reprFloat payload)

end

/-- `chain_tip`, over the rows in the order of `id`. -/
def chainTip (rows : List Row) : String :=
  match rows.getLast? with
  | none => genesisHash
  | some row => hashText (row.get "row_hash")

/-! ### Verification -/

/-- `ChainVerification`. -/
structure ChainVerification where
  ok : Bool
  rows : ℕ
  brokenAtId : PyVal := .none
  reason : Option String := none

/-- `stored == text`. -/
def isText : PyVal → String → Bool
  | .str s, t => decide (s = t)
  | _, _ => false

theorem isText_iff {v : PyVal} {t : String} : isText v t = true ↔ v = .str t := by
  cases v <;> simp [isText]

def linkageReason : String :=
  "prev_hash does not match the previous row's row_hash — a row was inserted, removed or reordered"

def editedReason : String := "row_hash does not match the row's contents — the row was edited"

section
variable (H : Host) (payloadOf : Row → PyVal)

/-- The loop of `verify_rows`, from the hash of the row before and the number of rows read. -/
def verifyFrom (prev : String) (count : ℕ) : List Row → ChainVerification
  | [] => { ok := true, rows := count }
  | row :: rows =>
      if !isText (row.get "prev_hash") prev then
        { ok := false, rows := count + 1, brokenAtId := row.get "id", reason := some linkageReason }
      else if !isText (row.get "row_hash") (hashPayload H (.str prev) (payloadOf row)) then
        { ok := false, rows := count + 1, brokenAtId := row.get "id", reason := some editedReason }
      else verifyFrom (hashPayload H (.str prev) (payloadOf row)) (count + 1) rows

/-- `verify_rows`. -/
def verifyRows (rows : List Row) : ChainVerification := verifyFrom H payloadOf genesisHash 0 rows

/-- The chain of a compliance table. -/
def scheme : Scheme Row PyVal String where
  prevOf row := row.get "prev_hash"
  hashOf row := row.get "row_hash"
  bodyOf row := canonicalJson H.reprFloat (payloadOf row)
  link prev json := .str (hashJson H prev json)

end

section
variable {H : Host} {payloadOf : Row → PyVal} {rows rows' : List Row} {prev : String} {count : ℕ}

theorem verifyFrom_ok : (verifyFrom H payloadOf prev count rows).ok = true ↔
    (scheme H payloadOf).Chained (.str prev) rows := by
  induction rows generalizing prev count with
  | nil => simp [verifyFrom]
  | cons row rows ih =>
      rw [verifyFrom]
      by_cases hp : isText (row.get "prev_hash") prev = true
      · rw [if_neg (by simp [hp])]
        by_cases hh : isText (row.get "row_hash") (hashPayload H (.str prev) (payloadOf row)) = true
        · rw [if_neg (by simp [hh]), ih]
          have hhash : (scheme H payloadOf).hashOf row = _ := isText_iff.mp hh
          constructor
          · intro h
            exact ⟨isText_iff.mp hp, hhash, by rw [hhash]; exact h⟩
          · rintro ⟨-, -, h⟩
            rw [hhash] at h
            exact h
        · rw [if_pos (by simp [hh])]
          refine iff_of_false Bool.false_ne_true ?_
          rintro ⟨-, h, -⟩
          exact hh (isText_iff.mpr h)
      · rw [if_pos (by simp [hp])]
        refine iff_of_false Bool.false_ne_true ?_
        rintro ⟨h, -, -⟩
        exact hp (isText_iff.mpr h)

/-- A table verifies exactly when its rows chain up from the first link. -/
theorem verifyRows_ok : (verifyRows H payloadOf rows).ok = true ↔
    (scheme H payloadOf).Chained (.str genesisHash) rows :=
  verifyFrom_ok

theorem verifyFrom_broken (h : (verifyFrom H payloadOf prev count rows).ok = false) :
    ∃ pre row post, rows = pre ++ row :: post ∧
      (verifyFrom H payloadOf prev count pre).ok = true ∧
      (verifyFrom H payloadOf prev count rows).brokenAtId = row.get "id" ∧
      (verifyFrom H payloadOf prev count rows).rows = count + pre.length + 1 := by
  induction rows generalizing prev count with
  | nil => cases h
  | cons row rows ih =>
      rw [verifyFrom] at h ⊢
      split at h
      · rename_i hp
        refine ⟨[], row, rows, rfl, rfl, ?_⟩
        rw [if_pos hp]
        exact ⟨rfl, rfl⟩
      · rename_i hp
        split at h
        · rename_i hh
          refine ⟨[], row, rows, rfl, rfl, ?_⟩
          rw [if_neg hp, if_pos hh]
          exact ⟨rfl, rfl⟩
        · rename_i hh
          obtain ⟨pre, bad, post, hsplit, hok, hid, hrows⟩ := ih h
          refine ⟨row :: pre, bad, post, by rw [hsplit]; rfl, ?_, ?_⟩
          · rw [verifyFrom, if_neg hp, if_neg hh]
            exact hok
          · rw [if_neg hp, if_neg hh]
            refine ⟨hid, ?_⟩
            rw [hrows, List.length_cons]
            omega

/-- A failed verification names the first row that does not reconcile: the rows before it
verify. -/
theorem verifyRows_broken (h : (verifyRows H payloadOf rows).ok = false) :
    ∃ pre row post, rows = pre ++ row :: post ∧ (verifyRows H payloadOf pre).ok = true ∧
      (verifyRows H payloadOf rows).brokenAtId = row.get "id" ∧
      (verifyRows H payloadOf rows).rows = pre.length + 1 := by
  obtain ⟨pre, row, post, hsplit, hok, hid, hrows⟩ := verifyFrom_broken h
  exact ⟨pre, row, post, hsplit, hok, hid, by simpa [verifyRows] using hrows⟩

/-! ### Links without collisions -/

/-- The hashes a chain can contain: texts on one line. -/
def IsHash (v : PyVal) : Prop := ∃ s, v = .str s ∧ s ≠ "" ∧ '\n' ∉ s.toList

theorem toList_genesisHash : genesisHash.toList = List.replicate 64 '0' := String.toList_ofList

theorem eq_zero_of_mem_genesis {c : Char} (h : c ∈ genesisHash.toList) : c = '0' := by
  rw [toList_genesisHash] at h
  exact List.eq_of_mem_replicate h

theorem isHash_genesis : IsHash (.str genesisHash) := by
  refine ⟨genesisHash, rfl, by decide, fun h => ?_⟩
  have hne : '\n' ≠ '0' := by decide
  exact hne (eq_zero_of_mem_genesis h)

theorem isHash_sha256 (s : String) : IsHash (.str (H.sha256 s)) := by
  refine ⟨H.sha256 s, rfl, H.sha256_ne s, fun hnl => ?_⟩
  rcases H.sha256_hex s _ hnl with h | h
  · exact absurd h (by decide)
  · exact absurd h (by decide)

theorem hashText_str {s : String} (h : s ≠ "") : hashText (.str s) = s := if_neg h

/-- The first newline of the hashed text separates the hash from the payload. -/
theorem eq_of_newline {as as' bs bs' : List Char} (h : '\n' ∉ as) (h' : '\n' ∉ as')
    (heq : as ++ '\n' :: bs = as' ++ '\n' :: bs') : as = as' ∧ bs = bs' := by
  induction as generalizing as' with
  | nil =>
      cases as' with
      | nil => exact ⟨rfl, (List.cons.inj heq).2⟩
      | cons c as' =>
          have hc := (List.cons.inj heq).1
          exact absurd (hc ▸ List.mem_cons_self) h'
  | cons c as ih =>
      cases as' with
      | nil =>
          have hc := (List.cons.inj heq).1
          exact absurd (hc ▸ List.mem_cons_self) h
      | cons c' as' =>
          obtain ⟨hc, hrest⟩ := List.cons.inj heq
          obtain ⟨has, hbs⟩ := ih (fun hm => h (List.mem_cons_of_mem _ hm))
            (fun hm => h' (List.mem_cons_of_mem _ hm)) hrest
          exact ⟨by rw [hc, has], hbs⟩

/-- An injective hash links without collisions: what was hashed splits in one way only. -/
theorem hashJson_inj (hinj : Function.Injective H.sha256) {p p' : PyVal} {json json' : String}
    (hp : IsHash p) (hp' : IsHash p') (h : hashJson H p json = hashJson H p' json') :
    p = p' ∧ json = json' := by
  obtain ⟨s, rfl, hs, hnl⟩ := hp
  obtain ⟨s', rfl, hs', hnl'⟩ := hp'
  have htext := congrArg String.toList (hinj h)
  rw [hashText_str hs, hashText_str hs'] at htext
  simp only [String.toList_append, List.append_assoc] at htext
  obtain ⟨hprev, hjson⟩ := eq_of_newline hnl hnl' htext
  exact ⟨congrArg PyVal.str (String.toList_injective hprev), String.toList_injective hjson⟩

theorem collisionFree (payloadOf : Row → PyVal) (hinj : Function.Injective H.sha256)
    (hgen : ∀ s, H.sha256 s ≠ genesisHash) :
    (scheme H payloadOf).CollisionFree IsHash (.str genesisHash) where
  genesis_mem := isHash_genesis
  link_mem _ _ := isHash_sha256 _
  link_inj _ _ _ _ hp hp' h := hashJson_inj hinj hp hp' (PyVal.str.inj h)
  link_ne _ _ h := hgen _ (PyVal.str.inj h)

end

/-! ### Stored payloads -/

/-- The payload columns of a table: distinct, and none of the chain's own. -/
structure PayloadColumns where
  names : List String
  nodup : names.Nodup
  content : ∀ c ∈ names, c ∉ ["id", "prev_hash", "row_hash"]

/-- `_payload_of`: the payload as it is rebuilt from a stored row. -/
def payloadOf (C : PayloadColumns) (row : Row) : PyVal :=
  .dict (C.names.map fun c => (c, row.get c))

/-- A payload with exactly the columns of the table: its values as a stored row gives them back.
A float `-0.0` is hashed as it prints, and comes back from its `REAL` column as `0.0`. -/
structure Payload (C : PayloadColumns) where
  values : Kwargs
  keys : values.map Prod.fst = C.names
  /-- The columns that are given `-0.0`. -/
  negZeros : List String := []
  negZeros_zero : ∀ c ∈ negZeros, Kwargs.get values c = .float (.fin 0) := by simp

/-- `canonical_json` of a payload, before it is stored. -/
def Payload.text (H : Host) {C : PayloadColumns} (payload : Payload C) : String :=
  objectText (payload.values.map fun kv =>
    (kv.1, if kv.1 ∈ payload.negZeros then "-0.0" else canonicalJson H.reprFloat kv.2))

/-- The row that the `INSERT` of a payload stores. -/
def storedRow (H : Host) {C : PayloadColumns} (id : ℕ) (payload : Payload C) (prev : String) : Row :=
  payload.values ++ [("id", .int id), ("prev_hash", .str prev),
    ("row_hash", .str (hashJson H (.str prev) (payload.text H)))]

/-- The payload that is rebuilt from the stored row has the hash of the one that was written:
nothing in it is `-0.0`, or the two texts collide. -/
def Payload.ReadsBack (H : Host) {C : PayloadColumns} (payload : Payload C) (prev : String) : Prop :=
  payload.negZeros = [] ∨
    hashJson H (.str prev) (payload.text H) = hashPayload H (.str prev) (.dict payload.values)

section
variable {H : Host} {C : PayloadColumns} {payload : Payload C} {id : ℕ} {prev : String}

theorem map_get_keys : ∀ {d e : Kwargs}, (d.map Prod.fst).Nodup →
    (d.map Prod.fst).map (fun c => (c, Kwargs.get (d ++ e) c)) = d
  | [], _, _ => rfl
  | (k, v) :: d, e, h => by
      obtain ⟨hk, hd⟩ := List.nodup_cons.mp h
      have ih := map_get_keys (e := e) hd
      have hrest : ∀ c ∈ d.map Prod.fst,
          (c, Kwargs.get ((k, v) :: d ++ e) c) = (c, Kwargs.get (d ++ e) c) := by
        intro c hc
        have hne : c ≠ k := fun heq => hk (heq ▸ hc)
        rw [Kwargs.get, List.cons_append, lookup_cons_ite, if_neg hne]
        rfl
      have hself : Kwargs.get ((k, v) :: d ++ e) k = v := by
        rw [Kwargs.get, List.cons_append, lookup_cons_ite, if_pos rfl]
        rfl
      rw [List.map_cons, List.map_cons, hself, List.map_congr_left hrest, ih]

theorem payloadOf_storedRow : payloadOf C (storedRow H id payload prev) = .dict payload.values := by
  rw [payloadOf, storedRow, ← payload.keys, map_get_keys (payload.keys ▸ C.nodup)]

theorem get_storedRow_of_meta {c : String} (hc : c ∈ ["id", "prev_hash", "row_hash"]) :
    (storedRow H id payload prev).get c = Kwargs.get [("id", .int id), ("prev_hash", .str prev),
      ("row_hash", .str (hashJson H (.str prev) (payload.text H)))] c := by
  have hnone : List.lookup c payload.values = none := by
    rw [List.lookup_eq_none_iff]
    intro kv hkv
    have hmem : kv.1 ∈ C.names := payload.keys ▸ List.mem_map_of_mem hkv
    exact bne_iff_ne.mpr fun h => C.content _ hmem (h ▸ hc)
  rw [storedRow, Kwargs.get, List.lookup_append, hnone, Option.none_or]
  rfl

@[simp] theorem storedRow_prev_hash :
    (storedRow H id payload prev).get "prev_hash" = .str prev := by
  rw [get_storedRow_of_meta (by decide)]
  rfl

@[simp] theorem storedRow_row_hash : (storedRow H id payload prev).get "row_hash" =
    .str (hashJson H (.str prev) (payload.text H)) := by
  rw [get_storedRow_of_meta (by decide)]
  rfl

/-- A payload without `-0.0` is hashed as it reads back. -/
theorem Payload.text_of_nil (h : payload.negZeros = []) :
    payload.text H = canonicalJson H.reprFloat (.dict payload.values) := by
  simp [Payload.text, h, canonicalJson_dict]

theorem Payload.readsBack_iff_hash : payload.ReadsBack H prev ↔
    hashJson H (.str prev) (payload.text H) = hashPayload H (.str prev) (.dict payload.values) := by
  constructor
  · rintro (h | h)
    · rw [Payload.text_of_nil h, hashPayload]
    · exact h
  · exact .inr

theorem Payload.values_eq : payload.values = C.names.map fun c => (c, Kwargs.get payload.values c) := by
  have hvalues := map_get_keys (e := []) (payload.keys ▸ C.nodup)
  rw [List.append_nil, payload.keys] at hvalues
  exact hvalues.symm

theorem Payload.mem_names {c : String} (hc : c ∈ payload.negZeros) : c ∈ C.names := by
  have hget := payload.negZeros_zero c hc
  rw [← payload.keys]
  by_contra hnot
  have hnone : List.lookup c payload.values = none := by
    rw [List.lookup_eq_none_iff]
    exact fun kv hkv => bne_iff_ne.mpr fun heq => hnot (heq ▸ List.mem_map_of_mem hkv)
  rw [Kwargs.get, hnone] at hget
  cases hget

theorem Payload.length_column (hzero : H.reprFloat (.fin 0) = "0.0") (c : String) :
    (member (c, if c ∈ payload.negZeros then "-0.0"
      else canonicalJson H.reprFloat (Kwargs.get payload.values c))).length =
      (member (c, canonicalJson H.reprFloat (Kwargs.get payload.values c))).length +
        (if c ∈ payload.negZeros then 1 else 0) := by
  by_cases hc : c ∈ payload.negZeros
  · have htext : canonicalJson H.reprFloat (Kwargs.get payload.values c) = "0.0" := by
      rw [payload.negZeros_zero c hc]
      exact hzero
    have hlen : "-0.0".length = "0.0".length + 1 := by decide
    rw [if_pos hc, if_pos hc, htext]
    simp only [member, String.length_append, hlen]
    omega
  · rw [if_neg hc, if_neg hc, Nat.add_zero]

/-- With `-0.0` in it a payload is hashed over a longer text than it reads back with. -/
theorem Payload.length_text (hzero : H.reprFloat (.fin 0) = "0.0") (h : payload.negZeros ≠ []) :
    (canonicalJson H.reprFloat (.dict payload.values)).length < (payload.text H).length := by
  obtain ⟨c, hc⟩ := List.exists_mem_of_ne_nil _ h
  have hlt := List.sum_lt_sum (l := C.names)
    (fun d => (member (d, canonicalJson H.reprFloat (Kwargs.get payload.values d))).length)
    (fun d => (member (d, if d ∈ payload.negZeros then "-0.0"
      else canonicalJson H.reprFloat (Kwargs.get payload.values d))).length)
    (fun d _ => by rw [Payload.length_column hzero]; exact Nat.le_add_right _ _)
    ⟨c, Payload.mem_names hc, by rw [Payload.length_column hzero, if_pos hc]; exact Nat.lt_succ_self _⟩
  have htext : payload.text H = objectText (C.names.map fun d => (d, if d ∈ payload.negZeros
      then "-0.0" else canonicalJson H.reprFloat (Kwargs.get payload.values d))) := by
    rw [Payload.text]
    conv_lhs => rw [Payload.values_eq, List.map_map]
    rfl
  have hback : canonicalJson H.reprFloat (.dict payload.values) = objectText (C.names.map fun d =>
      (d, canonicalJson H.reprFloat (Kwargs.get payload.values d))) := by
    rw [canonicalJson_dict]
    conv_lhs => rw [Payload.values_eq, List.map_map]
    rfl
  rw [htext, hback, length_objectText, length_objectText]
  omega

/-- Where the hash is injective, exactly the payloads without `-0.0` read back as they were
written. -/
theorem Payload.readsBack_iff (hinj : Function.Injective H.sha256)
    (hzero : H.reprFloat (.fin 0) = "0.0") :
    payload.ReadsBack H prev ↔ payload.negZeros = [] := by
  refine ⟨fun h => ?_, .inl⟩
  by_contra hne
  have htext := hinj (Payload.readsBack_iff_hash.mp h)
  rw [String.append_right_inj] at htext
  exact absurd (congrArg String.length htext) (Payload.length_text hzero hne).ne'

theorem str_chainTip {rows : List Row} (h : (verifyRows H (payloadOf C) rows).ok = true) :
    PyVal.str (chainTip rows) = (scheme H (payloadOf C)).tip (.str genesisHash) rows := by
  rw [verifyRows_ok] at h
  cases rows using List.reverseRecOn with
  | nil => rfl
  | append_singleton rows row =>
      obtain ⟨-, -, hhash⟩ := Scheme.chained_concat.mp h
      have hrow : row.get "row_hash" = .str _ := hhash
      rw [Scheme.tip_concat, hhash, chainTip, List.getLast?_concat]
      simp only [hrow, hashJson, hashText_str (H.sha256_ne _)]
      rfl

/-- **Append rule.** A table with one more stored payload verifies exactly when it did before, the
payload was hashed against its tip and it reads back as it was written. -/
theorem verifyRows_storedRow {rows : List Row} :
    (verifyRows H (payloadOf C) (rows ++ [storedRow H id payload prev])).ok = true ↔
      (verifyRows H (payloadOf C) rows).ok = true ∧ prev = chainTip rows ∧
        payload.ReadsBack H prev := by
  rw [verifyRows_ok, Scheme.chained_concat, verifyRows_ok]
  refine and_congr_right fun h => ?_
  rw [← str_chainTip (verifyRows_ok.mpr h), Payload.readsBack_iff_hash]
  have hhash : (scheme H (payloadOf C)).hashOf (storedRow H id payload prev) =
      .str (hashJson H (.str prev) (payload.text H)) := storedRow_row_hash
  have hlink : (scheme H (payloadOf C)).link (.str prev)
      ((scheme H (payloadOf C)).bodyOf (storedRow H id payload prev)) =
      .str (hashPayload H (.str prev) (.dict payload.values)) :=
    congrArg (fun v => PyVal.str (hashPayload H (.str prev) v)) payloadOf_storedRow
  have hprev : (scheme H (payloadOf C)).prevOf (storedRow H id payload prev) = .str prev :=
    storedRow_prev_hash
  rw [hprev, hhash, PyVal.str.injEq]
  refine and_congr_right fun htip => ?_
  rw [← htip, hlink, PyVal.str.injEq]

end

/-! ### A hash that spells its input out -/

/-- The code point in binary, one digit a character. -/
def binaryDigits (c : Char) : List Char :=
  (List.range 21).map fun i => if c.toNat.testBit i then '1' else '0'

theorem mem_binaryDigits {c d : Char} (h : d ∈ binaryDigits c) : d = '0' ∨ d = '1' := by
  obtain ⟨i, -, rfl⟩ := List.mem_map.mp h
  split
  · exact .inr rfl
  · exact .inl rfl

theorem binaryDigits_inj {c d : Char} (h : binaryDigits c = binaryDigits d) : c = d := by
  have hlt : ∀ e : Char, e.toNat < 2 ^ 21 := by
    intro e
    have hvalid := e.valid
    simp only [UInt32.isValidChar, Nat.isValidChar, Char.toNat] at hvalid ⊢
    omega
  apply Char.toNat_inj.mp
  apply Nat.eq_of_testBit_eq
  intro i
  by_cases hi : i < 21
  · have hbit := List.map_inj_left.mp h i (List.mem_range.mpr hi)
    cases hc : c.toNat.testBit i <;> cases hd : d.toNat.testBit i <;> simp_all
  · have hpow : 2 ^ 21 ≤ 2 ^ i := Nat.pow_le_pow_right (by omega) (by omega)
    rw [Nat.testBit_lt_two_pow (lt_of_lt_of_le (hlt c) hpow),
      Nat.testBit_lt_two_pow (lt_of_lt_of_le (hlt d) hpow)]

theorem flatMap_binaryDigits_inj : ∀ {cs ds : List Char},
    cs.flatMap binaryDigits = ds.flatMap binaryDigits → cs = ds
  | [], [], _ => rfl
  | [], d :: ds, h => by
      have hlen := congrArg List.length h
      simp only [binaryDigits, List.flatMap_nil, List.flatMap_cons, List.length_nil,
        List.length_append, List.length_map, List.length_range] at hlen
      omega
  | c :: cs, [], h => by
      have hlen := congrArg List.length h
      simp only [binaryDigits, List.flatMap_nil, List.flatMap_cons, List.length_nil,
        List.length_append, List.length_map, List.length_range] at hlen
      omega
  | c :: cs, d :: ds, h => by
      rw [List.flatMap_cons, List.flatMap_cons] at h
      obtain ⟨hc, hcs⟩ := List.append_inj h (by simp [binaryDigits])
      rw [binaryDigits_inj hc, flatMap_binaryDigits_inj hcs]

/-- A host whose hash is the text itself in binary, after an `f`. -/
def binaryHost : Host where
  reprFloat
    | .fin q => toString q.num ++ ".0"
    | _ => ""
  sha256 s := String.ofList ('f' :: s.toList.flatMap binaryDigits)
  sha256_ne s h := by
    have hlist := congrArg String.toList h
    simp at hlist
  sha256_hex s c hc := by
    rw [String.toList_ofList] at hc
    rcases List.mem_cons.mp hc with rfl | hc
    · exact .inr (by decide)
    · obtain ⟨e, -, he⟩ := List.mem_flatMap.mp hc
      rcases mem_binaryDigits he with rfl | rfl
      · exact .inl rfl
      · exact .inl rfl

theorem binaryHost_injective : Function.Injective binaryHost.sha256 := by
  intro s t h
  have hlist := congrArg String.toList h
  simp only [binaryHost, String.toList_ofList, List.cons.injEq, true_and] at hlist
  exact String.toList_injective (flatMap_binaryDigits_inj hlist)

theorem binaryHost_ne_genesis (s : String) : binaryHost.sha256 s ≠ genesisHash := by
  intro h
  have hmem : 'f' ∈ genesisHash.toList := by
    rw [← h]
    simp only [binaryHost, String.toList_ofList]
    exact List.mem_cons_self
  have hne : 'f' ≠ '0' := by decide
  exact hne (eq_zero_of_mem_genesis hmem)

end AiTrader.Compliance
