import AiTrader.Library.Json
import AiTrader.Value

/-! # Python's `json`

`json.dumps` and `json.loads` on the values of `PyVal`.  A number is an `int` or a `float`; how
the interpreter writes and reads one is a parameter (`NumSyntax PyNum`).

* `loads_dumps`: a value with distinct keys whose numbers are read back is read back.
* `loadsBytes_utf8`: bytes that start like an object in UTF-8 are read as that text. -/

namespace AiTrader.PyJson

open Json

inductive PyNum
  | int (z : ℤ)
  | float (x : F64)
  deriving DecidableEq

/-! ### Values as JSON values -/

mutual
def toValue : PyVal → Value PyNum
  | .none => .null
  | .bool b => .bool b
  | .int z => .num (.int z)
  | .float x => .num (.float x)
  | .str s => .str s
  | .list xs => .arr (toValues xs)
  | .dict kvs => .obj (toMembers kvs)

def toValues : List PyVal → List (Value PyNum)
  | [] => []
  | x :: xs => toValue x :: toValues xs

def toMembers : List (String × PyVal) → List (String × Value PyNum)
  | [] => []
  | (k, v) :: kvs => (k, toValue v) :: toMembers kvs
end

mutual
/-- What is decoded; of members with one key the last one counts. -/
def ofValue : Value PyNum → PyVal
  | .null => .none
  | .bool b => .bool b
  | .num (.int z) => .int z
  | .num (.float x) => .float x
  | .str s => .str s
  | .arr xs => .list (ofValues xs)
  | .obj kvs => .dict ((ofMembers kvs).foldl (fun d kv => Kwargs.set d kv.1 kv.2) [])

def ofValues : List (Value PyNum) → List PyVal
  | [] => []
  | x :: xs => ofValue x :: ofValues xs

def ofMembers : List (String × Value PyNum) → List (String × PyVal)
  | [] => []
  | (k, v) :: kvs => (k, ofValue v) :: ofMembers kvs
end

/-- `json.dumps` in a given style. -/
def dumps (S : Style) (N : NumSyntax PyNum) (v : PyVal) : String :=
  String.ofList (print S N (toValue v))

/-- `json.loads`; `none` is a `ValueError`.  A text with the escape of a lone surrogate is refused,
which `json.loads` reads: no string of characters holds one. -/
def loads (N : NumSyntax PyNum) (text : String) : Option PyVal :=
  (parse N text.toList).map ofValue

/-! ### Round trip -/

mutual
/-- The keys of every dictionary in the value are distinct. -/
def Distinct : PyVal → Prop
  | .list xs => DistinctList xs
  | .dict kvs => (kvs.map Prod.fst).Nodup ∧ DistinctMembers kvs
  | _ => True

def DistinctList : List PyVal → Prop
  | [] => True
  | x :: xs => Distinct x ∧ DistinctList xs

def DistinctMembers : List (String × PyVal) → Prop
  | [] => True
  | (_, v) :: kvs => Distinct v ∧ DistinctMembers kvs
end

theorem set_of_notMem {d : Kwargs} {k : String} (v : PyVal) (h : k ∉ d.map Prod.fst) :
    Kwargs.set d k v = d ++ [(k, v)] := by
  rw [Kwargs.set, if_neg]
  intro hany
  obtain ⟨kv, hkv, hk⟩ := List.any_eq_true.mp hany
  exact h (List.mem_map.mpr ⟨kv, hkv, of_decide_eq_true hk⟩)

theorem foldl_set {kvs d : Kwargs} (h : ((d ++ kvs).map Prod.fst).Nodup) :
    kvs.foldl (fun d kv => Kwargs.set d kv.1 kv.2) d = d ++ kvs := by
  induction kvs generalizing d with
  | nil => simp
  | cons kv kvs ih =>
      have hnot : kv.1 ∉ d.map Prod.fst := by
        rw [List.map_append, List.map_cons, List.nodup_append] at h
        intro hmem
        exact h.2.2 kv.1 hmem kv.1 List.mem_cons_self rfl
      rw [List.foldl_cons, set_of_notMem kv.2 hnot, ih (by simpa using h)]
      simp

mutual
theorem ofValue_toValue : ∀ v : PyVal, Distinct v → ofValue (toValue v) = v
  | .none, _ => rfl
  | .bool _, _ => rfl
  | .int _, _ => rfl
  | .float _, _ => rfl
  | .str _, _ => rfl
  | .list xs, h => congrArg PyVal.list (ofValues_toValues xs h)
  | .dict kvs, h => by
      rw [toValue, ofValue, ofMembers_toMembers kvs h.2, foldl_set (by simpa using h.1)]
      rfl

theorem ofValues_toValues : ∀ xs : List PyVal, DistinctList xs → ofValues (toValues xs) = xs
  | [], _ => rfl
  | x :: xs, h => by rw [toValues, ofValues, ofValue_toValue x h.1, ofValues_toValues xs h.2]

theorem ofMembers_toMembers : ∀ kvs : List (String × PyVal), DistinctMembers kvs →
    ofMembers (toMembers kvs) = kvs
  | [], _ => rfl
  | (k, v) :: kvs, h => by
      rw [toMembers, ofMembers, ofValue_toValue v h.1, ofMembers_toMembers kvs h.2]
end

/-- **Round trip.** -/
theorem loads_dumps {S : Style} {N : NumSyntax PyNum} {v : PyVal}
    (hnum : (toValue v).Forall N.Readable) (hkeys : Distinct v) :
    loads N (dumps S N v) = some v := by
  rw [loads, dumps, String.toList_ofList, parse_print hnum, Option.map_some,
    ofValue_toValue v hkeys]

/-! ### Reading bytes -/

inductive Encoding
  | utf8
  | utf8Sig
  | utf16
  | utf16be
  | utf16le
  | utf32
  | utf32be
  | utf32le

/-- `json.detect_encoding`. -/
def detectEncoding (b : List UInt8) : Encoding :=
  if [0, 0, 0xFE, 0xFF].isPrefixOf b || [0xFF, 0xFE, 0, 0].isPrefixOf b then .utf32
  else if [0xFE, 0xFF].isPrefixOf b || [0xFF, 0xFE].isPrefixOf b then .utf16
  else if [0xEF, 0xBB, 0xBF].isPrefixOf b then .utf8Sig
  else
    match b with
    | b0 :: b1 :: b2 :: b3 :: _ =>
        if b0 = 0 then if b1 ≠ 0 then .utf16be else .utf32be
        else if b1 = 0 then if b2 ≠ 0 ∨ b3 ≠ 0 then .utf16le else .utf32le
        else .utf8
    | [b0, b1] => if b0 = 0 then .utf16be else if b1 = 0 then .utf16le else .utf8
    | _ => .utf8

def decodeUtf8 (b : List UInt8) : Option (List Char) :=
  (String.fromUTF8? ⟨b.toArray⟩).map String.toList

/-- The code units of two bytes each. -/
def units16 (bigEndian : Bool) : List UInt8 → Option (List ℕ)
  | [] => some []
  | [_] => none
  | a :: b :: r => (units16 bigEndian r).map fun us =>
      (if bigEndian then 256 * a.toNat + b.toNat else a.toNat + 256 * b.toNat) :: us

/-- Code units and surrogate pairs.  A lone surrogate is no character. -/
def decodeUnits : List ℕ → Option (List Char)
  | [] => some []
  | [u] => if 0xD800 ≤ u ∧ u ≤ 0xDFFF then none else some [Char.ofNat u]
  | u :: v :: r =>
      if 0xD800 ≤ u ∧ u ≤ 0xDBFF then
        if 0xDC00 ≤ v ∧ v ≤ 0xDFFF then (decodeUnits r).map fun cs =>
          Char.ofNat (0x10000 + 0x400 * (u - 0xD800) + (v - 0xDC00)) :: cs
        else none
      else if 0xDC00 ≤ u ∧ u ≤ 0xDFFF then none
      else (decodeUnits (v :: r)).map fun cs => Char.ofNat u :: cs

def decodeUtf16 (bigEndian : Bool) (b : List UInt8) : Option (List Char) :=
  (units16 bigEndian b).bind decodeUnits

def decodeUtf32 (bigEndian : Bool) : List UInt8 → Option (List Char)
  | [] => some []
  | a :: b :: c :: d :: r =>
      let n := if bigEndian then 256 * (256 * (256 * a.toNat + b.toNat) + c.toNat) + d.toNat
        else a.toNat + 256 * (b.toNat + 256 * (c.toNat + 256 * d.toNat))
      if n.isValidChar then (decodeUtf32 bigEndian r).map fun cs => Char.ofNat n :: cs else none
  | _ => none

/-- `b.decode(encoding)`; the byte order mark that was detected is skipped. -/
def decodeBytes (b : List UInt8) : Option (List Char) :=
  match detectEncoding b with
  | .utf8 => decodeUtf8 b
  | .utf8Sig => decodeUtf8 (b.drop 3)
  | .utf16 => decodeUtf16 (b.head? = some 0xFE) (b.drop 2)
  | .utf16be => decodeUtf16 true b
  | .utf16le => decodeUtf16 false b
  | .utf32 => decodeUtf32 (b.head? = some 0) (b.drop 4)
  | .utf32be => decodeUtf32 true b
  | .utf32le => decodeUtf32 false b

/-- `json.loads` of bytes; `none` is an exception. -/
def loadsBytes (N : NumSyntax PyNum) (b : List UInt8) : Option PyVal :=
  (decodeBytes b).bind fun cs => loads N (String.ofList cs)

/-- `s.encode("utf-8")`. -/
def utf8 (s : String) : List UInt8 := s.toUTF8.data.toList

theorem decodeUtf8_utf8 (s : String) : decodeUtf8 (utf8 s) = some s.toList := by
  have hbytes : String.fromUTF8? s.toUTF8 = some s := dif_pos s.isValidUTF8
  show (String.fromUTF8? s.toUTF8).map String.toList = _
  rw [hbytes, Option.map_some]

theorem utf8_eq (s : String) : utf8 s = s.toList.flatMap String.utf8EncodeChar := by
  rw [utf8, String.toUTF8, ← String.utf8Encode_toList, List.utf8Encode]
  simp

theorem utf8EncodeChar_ascii {c : Char} (h : c.toNat < 0x80) :
    String.utf8EncodeChar c = [UInt8.ofNat c.toNat] :=
  if_pos (Nat.le_of_lt_succ h)

theorem detectEncoding_ascii {b0 b1 : UInt8} (r : List UInt8) (h0 : b0 ≠ 0) (h1 : b1 ≠ 0)
    (hlow : b0 < 0x80) : detectEncoding (b0 :: b1 :: r) = .utf8 := by
  have hne : ∀ {c : UInt8}, 0x80 ≤ c → (c == b0) = false := by
    intro c hc
    apply beq_false_of_ne
    rintro rfl
    exact absurd hlow (UInt8.not_lt.mpr hc)
  have hzero : ((0 : UInt8) == b0) = false := beq_false_of_ne fun h => h0 h.symm
  unfold detectEncoding
  simp only [List.isPrefixOf, hne (c := 0xFF) (by decide), hne (c := 0xFE) (by decide),
    hne (c := 0xEF) (by decide), hzero, Bool.false_and, Bool.or_self, Bool.false_eq_true, if_false]
  split
  · rename_i heq
    cases heq
    rw [if_neg h0, if_neg h1]
  · rename_i heq
    cases heq
    rw [if_neg h0, if_neg h1]
  · rfl

theorem ofNat_ne_zero {n : ℕ} (h0 : 0 < n) (h : n < 0x80) : UInt8.ofNat n ≠ 0 := by
  intro heq
  have htoNat := congrArg UInt8.toNat heq
  rw [UInt8.toNat_ofNat', UInt8.toNat_zero] at htoNat
  omega

/-- **An object's text is read from its UTF-8 bytes.** -/
theorem loadsBytes_utf8 (N : NumSyntax PyNum) {c0 c1 : Char} (cs : List Char)
    (h0 : 0 < c0.toNat ∧ c0.toNat < 0x80) (h1 : 0 < c1.toNat ∧ c1.toNat < 0x80) :
    loadsBytes N (utf8 (String.ofList (c0 :: c1 :: cs))) =
      loads N (String.ofList (c0 :: c1 :: cs)) := by
  have hbytes : utf8 (String.ofList (c0 :: c1 :: cs)) = UInt8.ofNat c0.toNat ::
      UInt8.ofNat c1.toNat :: cs.flatMap String.utf8EncodeChar := by
    rw [utf8_eq, String.toList_ofList, List.flatMap_cons, List.flatMap_cons,
      utf8EncodeChar_ascii h0.2, utf8EncodeChar_ascii h1.2]
    rfl
  have hlow : UInt8.ofNat c0.toNat < 0x80 := by
    rw [UInt8.lt_iff_toNat_lt, UInt8.toNat_ofNat']
    show c0.toNat % 256 < 128
    omega
  have hencoding : detectEncoding (utf8 (String.ofList (c0 :: c1 :: cs))) = .utf8 := by
    rw [hbytes]
    exact detectEncoding_ascii _ (ofNat_ne_zero h0.1 h0.2) (ofNat_ne_zero h1.1 h1.2) hlow
  rw [loadsBytes, decodeBytes, hencoding]
  show (decodeUtf8 (utf8 _)).bind _ = _
  rw [decodeUtf8_utf8, Option.bind_some, String.ofList_toList]

end AiTrader.PyJson
