import AiTrader.Value
import Mathlib.Algebra.Ring.Nat
import Mathlib.Data.List.Sort
import Mathlib.Data.String.Basic

/-! # Canonical JSON

`_canonicalise` and `canonical_json` of `hashchain.py`: the one text the hash of a payload is
defined over.  Keys are sorted, the separators are compact, text outside ASCII stays as it is.
How Python prints a finite float is data of the interpreter: `reprFloat`.

* `canonicalJson_payload`: the text of a dictionary over distinct columns, column by column.
* `canonicalJson_edit`: another text for one column is another text for the dictionary.
* `length_canonicalJson_snoc`: a further column lengthens the text, whatever it holds. -/

namespace AiTrader.Compliance

/-! ### Canonical values -/

mutual
/-- `_canonicalise`: a float that is not finite becomes `None`, everywhere in the value. -/
def canonicalise : PyVal → PyVal
  | .float x => if x.isFinite then .float x else .none
  | .list xs => .list (canonicaliseList xs)
  | .dict kvs => .dict (canonicaliseDict kvs)
  | .none => .none
  | .bool b => .bool b
  | .int z => .int z
  | .str s => .str s

def canonicaliseList : List PyVal → List PyVal
  | [] => []
  | x :: xs => canonicalise x :: canonicaliseList xs

def canonicaliseDict : List (String × PyVal) → List (String × PyVal)
  | [] => []
  | (k, v) :: kvs => (k, canonicalise v) :: canonicaliseDict kvs
end

theorem canonicaliseDict_eq_map : ∀ kvs : List (String × PyVal),
    canonicaliseDict kvs = kvs.map (fun kv => (kv.1, canonicalise kv.2))
  | [] => rfl
  | (k, v) :: kvs => by rw [canonicaliseDict, canonicaliseDict_eq_map kvs, List.map_cons]

/-! ### `json.dumps` -/

/-- A character of a JSON string: only quotes, backslashes and control characters are escaped. -/
def escapeChar (c : Char) : List Char :=
  if c = '"' then ['\\', '"']
  else if c = '\\' then ['\\', '\\']
  else if c = '\n' then ['\\', 'n']
  else if c = '\r' then ['\\', 'r']
  else if c = '\t' then ['\\', 't']
  else if c.toNat = 8 then ['\\', 'b']
  else if c.toNat = 12 then ['\\', 'f']
  else if c.toNat < 32 then
    ['\\', 'u', '0', '0', Nat.digitChar (c.toNat / 16), Nat.digitChar (c.toNat % 16)]
  else [c]

/-- A JSON string. -/
def quote (s : String) : String := "\"" ++ String.ofList (s.toList.flatMap escapeChar) ++ "\""

/-- One member of a JSON object. -/
def member (kv : String × String) : String := quote kv.1 ++ ":" ++ kv.2

/-- A JSON object from the texts of its values, `sort_keys=True`. -/
def objectText (kvs : List (String × String)) : String :=
  "\x7b" ++ String.intercalate "," ((kvs.insertionSort (fun a b => a.1 ≤ b.1)).map member) ++ "\x7d"

section
variable (reprFloat : F64 → String)

mutual
/-- `json.dumps(…, sort_keys=True, separators=(",", ":"), ensure_ascii=False)`. -/
def dumps : PyVal → String
  | .none => "null"
  | .bool b => if b then "true" else "false"
  | .int z => toString z
  | .float x => reprFloat x
  | .str s => quote s
  | .list xs => "[" ++ String.intercalate "," (dumpsList xs) ++ "]"
  | .dict kvs => objectText (dumpsDict kvs)

def dumpsList : List PyVal → List String
  | [] => []
  | x :: xs => dumps x :: dumpsList xs

def dumpsDict : List (String × PyVal) → List (String × String)
  | [] => []
  | (k, v) :: kvs => (k, dumps v) :: dumpsDict kvs
end

theorem dumpsDict_eq_map : ∀ kvs : List (String × PyVal),
    dumpsDict reprFloat kvs = kvs.map (fun kv => (kv.1, dumps reprFloat kv.2))
  | [] => rfl
  | (k, v) :: kvs => by rw [dumpsDict, dumpsDict_eq_map kvs, List.map_cons]

/-- `canonical_json`. -/
def canonicalJson (payload : PyVal) : String := dumps reprFloat (canonicalise payload)

end

/-! ### The text of a payload -/

section
variable {reprFloat : F64 → String} {columns : List String} {f g : String → PyVal}

/-- The member of one column. -/
def columnText (reprFloat : F64 → String) (f : String → PyVal) (c : String) : String :=
  member (c, canonicalJson reprFloat (f c))

theorem objectText_columns (columns : List String) (text : String → String) :
    objectText (columns.map fun c => (c, text c)) =
      "\x7b" ++ String.intercalate ","
        ((columns.insertionSort (· ≤ ·)).map fun c => member (c, text c)) ++ "\x7d" := by
  have hsort := List.map_insertionSort (r := (· ≤ ·)) (s := fun a b => a.1 ≤ b.1)
    (fun c => (c, text c)) columns (fun a _ b _ => Iff.rfl)
  rw [objectText, ← hsort, List.map_map]
  rfl

theorem canonicalJson_dict (kvs : List (String × PyVal)) :
    canonicalJson reprFloat (.dict kvs) =
      objectText (kvs.map fun kv => (kv.1, canonicalJson reprFloat kv.2)) := by
  simp only [canonicalJson, canonicalise, dumps, canonicaliseDict_eq_map, dumpsDict_eq_map,
    List.map_map, Function.comp_def]

theorem canonicalJson_payload (columns : List String) (f : String → PyVal) :
    canonicalJson reprFloat (.dict (columns.map (fun c => (c, f c)))) =
      "\x7b" ++ String.intercalate ","
        ((columns.insertionSort (· ≤ ·)).map (columnText reprFloat f)) ++ "\x7d" := by
  rw [canonicalJson_dict, List.map_map]
  exact objectText_columns columns fun c => canonicalJson reprFloat (f c)

theorem intercalate_around (xs ys : List String) :
    ∃ pre post, ∀ x, String.intercalate "," (xs ++ x :: ys) = pre ++ x ++ post := by
  have hpost : ∃ post, ∀ x, String.intercalate "," (x :: ys) = x ++ post := by
    cases ys with
    | nil => exact ⟨"", fun x => by simp⟩
    | cons y ys =>
        exact ⟨"," ++ String.intercalate "," (y :: ys), fun x => by
          rw [String.intercalate_cons_cons, String.append_assoc]⟩
  obtain ⟨post, hpost⟩ := hpost
  cases xs with
  | nil => exact ⟨"", post, fun x => by simpa using hpost x⟩
  | cons y xs =>
      refine ⟨String.intercalate "," (y :: xs) ++ ",", post, fun x => ?_⟩
      rw [String.intercalate_append_of_ne_nil (by simp) (by simp), hpost]
      simp only [String.append_assoc]

theorem length_intercalate (xs : List String) :
    (String.intercalate "," xs).length = (xs.map String.length).sum + (xs.length - 1) := by
  induction xs with
  | nil => simp
  | cons x xs ih =>
      cases xs with
      | nil => simp
      | cons y ys =>
          have hcomma : (",".length) = 1 := rfl
          rw [String.intercalate_cons_cons]
          simp only [String.length_append, List.map_cons, List.sum_cons, List.length_cons, hcomma]
            at ih ⊢
          omega

/-- Another text for one column is another text for the whole payload. -/
theorem canonicalJson_edit {c : String} (hnd : columns.Nodup) (hc : c ∈ columns)
    (hsame : ∀ d ∈ columns, d ≠ c → g d = f d)
    (hne : canonicalJson reprFloat (g c) ≠ canonicalJson reprFloat (f c)) :
    canonicalJson reprFloat (.dict (columns.map (fun d => (d, g d)))) ≠
      canonicalJson reprFloat (.dict (columns.map (fun d => (d, f d)))) := by
  intro heq
  rw [canonicalJson_payload, canonicalJson_payload, String.append_left_inj,
    String.append_right_inj] at heq
  have hperm := List.perm_insertionSort (· ≤ ·) columns
  obtain ⟨xs, ys, hsplit⟩ := List.append_of_mem (hperm.mem_iff.mpr hc)
  rw [hsplit] at heq hperm
  -- the other columns contribute the same text on both sides
  have hout : ∀ d ∈ xs ++ ys, columnText reprFloat g d = columnText reprFloat f d := by
    intro d hd
    have hnd' := hperm.nodup_iff.mpr hnd
    rw [List.nodup_middle, List.nodup_cons] at hnd'
    have hdc : d ≠ c := fun h => hnd'.1 (h ▸ hd)
    have hmem : d ∈ columns := hperm.mem_iff.mp (by
      rw [List.mem_append, List.mem_cons]
      rcases List.mem_append.mp hd with h | h
      · exact .inl h
      · exact .inr (.inr h))
    rw [columnText, columnText, hsame d hmem hdc]
  have hxs : xs.map (columnText reprFloat g) = xs.map (columnText reprFloat f) :=
    List.map_congr_left fun d hd => hout d (List.mem_append_left _ hd)
  have hys : ys.map (columnText reprFloat g) = ys.map (columnText reprFloat f) :=
    List.map_congr_left fun d hd => hout d (List.mem_append_right _ hd)
  obtain ⟨pre, post, htext⟩ := intercalate_around (xs.map (columnText reprFloat f))
    (ys.map (columnText reprFloat f))
  rw [List.map_append, List.map_append, List.map_cons, List.map_cons, hxs, hys, htext, htext,
    String.append_left_inj, String.append_right_inj] at heq
  refine hne ?_
  simpa [columnText, member] using heq

theorem length_objectText (columns : List String) (text : String → String) :
    (objectText (columns.map fun c => (c, text c))).length =
      (columns.map fun c => (member (c, text c)).length).sum + (columns.length - 1) + 2 := by
  have hperm := List.perm_insertionSort (· ≤ ·) columns
  have hsum := List.Perm.sum_nat (hperm.map fun c => (member (c, text c)).length)
  have hopen : ("\x7b".length) = 1 := rfl
  have hclose : ("\x7d".length) = 1 := rfl
  rw [objectText_columns]
  simp only [String.length_append, length_intercalate, List.length_map, List.map_map,
    Function.comp_def, hsum, hperm.length_eq, hopen, hclose]
  omega

theorem length_member_pos (kv : String × String) : 0 < (member kv).length := by
  have hcolon : (":".length) = 1 := rfl
  simp only [member, String.length_append, hcolon]
  omega

/-- One more column lengthens the text, whatever it holds. -/
theorem length_canonicalJson_snoc (c : String) :
    (canonicalJson reprFloat (.dict (columns.map (fun d => (d, f d))))).length <
      (canonicalJson reprFloat (.dict ((columns ++ [c]).map (fun d => (d, f d))))).length := by
  have hpos := length_member_pos (c, canonicalJson reprFloat (f c))
  rw [canonicalJson_dict, canonicalJson_dict, List.map_map, List.map_map]
  have hlen := length_objectText columns fun d => canonicalJson reprFloat (f d)
  have hlen' := length_objectText (columns ++ [c]) fun d => canonicalJson reprFloat (f d)
  simp only [Function.comp_def]
  rw [hlen, hlen', List.map_append, List.sum_append, List.length_append, List.map_singleton,
    List.sum_singleton, List.length_singleton]
  omega

end

end AiTrader.Compliance
