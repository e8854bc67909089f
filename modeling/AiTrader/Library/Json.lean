import Mathlib.Data.List.TakeWhile
import Mathlib.Data.String.Basic
import Mathlib.Tactic.SplitIfs

/-! # JSON texts

Values, a printer with a choice of layout and of escapes (`Style`), and a parser that reads any
layout and any escapes.  Numbers are of an arbitrary type: how they are written and read is a
parameter (`NumSyntax`).  A word is a maximal run of letters, digits and the characters of
numbers; a word that is no literal is a number or nothing.

* `Style.unescape_escape` (a field): what a style writes for a character is read as it.
* `parseValue_print`: the parser on a printed value and whatever follows it.
* `parse_print`: the round trip.
* `parse_congr`: two ways of writing numbers that are read alike.
* `Style.ascii`, `Style.asciiSpaced`, `Style.raw`: the usual ways of writing characters outside ASCII. -/

namespace AiTrader.Json

inductive Value (ν : Type) where
  | null
  | bool (b : Bool)
  | num (n : ν)
  | str (s : String)
  | arr (xs : List (Value ν))
  | obj (kvs : List (String × Value ν))

/-- The texts of numbers. -/
structure NumSyntax (ν : Type) where
  text : ν → List Char
  read : List Char → Option ν

/-! ### Characters -/

/-- A blank between tokens. -/
def isWs (c : Char) : Bool := c = ' ' || c = '\t' || c = '\n' || c = '\r'

/-- A character of a literal or of a number. -/
def isWordChar (c : Char) : Bool :=
  (48 ≤ c.toNat && c.toNat ≤ 57) || (65 ≤ c.toNat && c.toNat ≤ 90) ||
    (97 ≤ c.toNat && c.toNat ≤ 122) || c = '+' || c = '-' || c = '.'

def skipWs (cs : List Char) : List Char := cs.dropWhile isWs

/-- The value of a hexadecimal digit. -/
def hexVal (c : Char) : Option ℕ :=
  if 48 ≤ c.toNat ∧ c.toNat ≤ 57 then some (c.toNat - 48)
  else if 65 ≤ c.toNat ∧ c.toNat ≤ 70 then some (c.toNat - 55)
  else if 97 ≤ c.toNat ∧ c.toNat ≤ 102 then some (c.toNat - 87)
  else none

/-- Four hexadecimal digits. -/
def hex4 : List Char → Option (ℕ × List Char)
  | a :: b :: c :: d :: r => do
      let a ← hexVal a
      let b ← hexVal b
      let c ← hexVal c
      let d ← hexVal d
      return (4096 * a + 256 * b + 16 * c + d, r)
  | _ => none

/-- What follows `\u`: a code unit, or a surrogate pair.  A lone surrogate is no character and is
refused, where Python's reader keeps it. -/
def unescapeUnicode (cs : List Char) : Option (Char × List Char) :=
  (hex4 cs).bind fun p =>
    if 0xD800 ≤ p.1 ∧ p.1 ≤ 0xDBFF then
      match p.2 with
      | '\\' :: 'u' :: r =>
          (hex4 r).bind fun q =>
            if 0xDC00 ≤ q.1 ∧ q.1 ≤ 0xDFFF then
              some (Char.ofNat (0x10000 + 0x400 * (p.1 - 0xD800) + (q.1 - 0xDC00)), q.2)
            else none
      | _ => none
    else if 0xDC00 ≤ p.1 ∧ p.1 ≤ 0xDFFF then none
    else some (Char.ofNat p.1, p.2)

/-- The character of a two-character escape. -/
def simpleEscape (c : Char) : Option Char :=
  if c = '"' ∨ c = '\\' ∨ c = '/' then some c
  else if c = 'n' then some '\n'
  else if c = 'r' then some '\r'
  else if c = 't' then some '\t'
  else if c = 'b' then some '\x08'
  else if c = 'f' then some '\x0c'
  else none

/-- One character inside a string. -/
def unescape : List Char → Option (Char × List Char)
  | [] => none
  | c :: r =>
      if c = '\\' then
        match r with
        | [] => none
        | e :: r =>
            if e = 'u' then unescapeUnicode r else (simpleEscape e).map fun c => (c, r)
      else if c = '"' ∨ c.toNat < 32 then none
      else some (c, r)

/-- How a text is laid out and its characters are written. -/
structure Style where
  escape : Char → List Char
  itemPad : List Char
  keyPad : List Char
  unescape_escape : ∀ c r, unescape (escape c ++ r) = some (c, r)
  itemPad_ws : ∀ c ∈ itemPad, isWs c = true
  keyPad_ws : ∀ c ∈ keyPad, isWs c = true

/-! ### Two styles -/

/-- The two-character escapes. -/
def shortEscape (c : Char) : Option (List Char) :=
  if c = '"' then some ['\\', '"']
  else if c = '\\' then some ['\\', '\\']
  else if c = '\n' then some ['\\', 'n']
  else if c = '\r' then some ['\\', 'r']
  else if c = '\t' then some ['\\', 't']
  else if c = '\x08' then some ['\\', 'b']
  else if c = '\x0c' then some ['\\', 'f']
  else none

def hexText (n : ℕ) : List Char :=
  [Nat.digitChar (n / 4096), Nat.digitChar (n / 256 % 16), Nat.digitChar (n / 16 % 16),
    Nat.digitChar (n % 16)]

/-- One code unit, or a surrogate pair. -/
def unicodeEscape (c : Char) : List Char :=
  if c.toNat < 0x10000 then '\\' :: 'u' :: hexText c.toNat
  else '\\' :: 'u' :: (hexText (0xD800 + (c.toNat - 0x10000) / 0x400) ++
    '\\' :: 'u' :: hexText (0xDC00 + (c.toNat - 0x10000) % 0x400))

/-- Everything outside printable ASCII is escaped. -/
def asciiEscape (c : Char) : List Char :=
  (shortEscape c).getD (if 32 ≤ c.toNat ∧ c.toNat ≤ 126 then [c] else unicodeEscape c)

/-- Only what may not stand in a string is escaped. -/
def rawEscape (c : Char) : List Char :=
  (shortEscape c).getD (if 32 ≤ c.toNat then [c] else unicodeEscape c)

section
variable {c : Char} {r : List Char} {n : ℕ}

theorem hexVal_digitChar : ∀ d, d < 16 → hexVal (Nat.digitChar d) = some d := by decide

theorem hex4_hexText (hn : n < 0x10000) : hex4 (hexText n ++ r) = some (n, r) := by
  have h3 := hexVal_digitChar (n / 4096) (by omega)
  have h2 := hexVal_digitChar (n / 256 % 16) (by omega)
  have h1 := hexVal_digitChar (n / 16 % 16) (by omega)
  have h0 := hexVal_digitChar (n % 16) (by omega)
  show (hexVal _).bind _ = _
  simp only [h3, h2, h1, h0, Option.bind_some]
  show some (_, r) = _
  rw [show 4096 * (n / 4096) + 256 * (n / 256 % 16) + 16 * (n / 16 % 16) + n % 16 = n by omega]

theorem toNat_range (c : Char) : c.toNat < 0xD800 ∨ (0xDFFF < c.toNat ∧ c.toNat < 0x110000) :=
  c.valid

theorem unescape_unicodeEscape : unescape (unicodeEscape c ++ r) = some (c, r) := by
  have hrange := toNat_range c
  unfold unicodeEscape
  split
  · rename_i hunit
    show unescapeUnicode (hexText c.toNat ++ r) = _
    rw [unescapeUnicode, hex4_hexText hunit, Option.bind_some, if_neg (by dsimp only; omega),
      if_neg (by dsimp only; omega), Char.ofNat_toNat]
  · rename_i hpair
    rw [List.cons_append, List.cons_append, List.append_assoc]
    show unescapeUnicode (hexText _ ++ '\\' :: 'u' :: (hexText _ ++ r)) = _
    rw [unescapeUnicode, hex4_hexText (by omega), Option.bind_some, if_pos (by dsimp only; omega)]
    show (hex4 (hexText _ ++ r)).bind _ = _
    rw [hex4_hexText (by omega), Option.bind_some, if_pos (by dsimp only; omega)]
    dsimp only
    rw [show 0x10000 + 0x400 * (0xD800 + (c.toNat - 0x10000) / 0x400 - 0xD800) +
      (0xDC00 + (c.toNat - 0x10000) % 0x400 - 0xDC00) = c.toNat by omega, Char.ofNat_toNat]

theorem unescape_shortEscape {t : List Char} (h : shortEscape c = some t) :
    unescape (t ++ r) = some (c, r) := by
  unfold shortEscape at h
  split_ifs at h <;> cases h <;> subst_vars <;> rfl

theorem unescape_self (h : shortEscape c = none) (hc : 32 ≤ c.toNat) :
    unescape ([c] ++ r) = some (c, r) := by
  have hbackslash : c ≠ '\\' := by
    rintro rfl
    exact absurd h (by decide)
  have hquote : c ≠ '"' := by
    rintro rfl
    exact absurd h (by decide)
  show (if c = '\\' then _ else if c = '"' ∨ c.toNat < 32 then none else some (c, r)) = _
  rw [if_neg hbackslash, if_neg]
  rintro (hq | hlow)
  · exact hquote hq
  · omega

theorem unescape_asciiEscape (c : Char) (r : List Char) :
    unescape (asciiEscape c ++ r) = some (c, r) := by
  unfold asciiEscape
  cases hshort : shortEscape c with
  | some t => exact unescape_shortEscape hshort
  | none =>
      rw [Option.getD_none]
      split
      · rename_i hc
        exact unescape_self hshort hc.1
      · exact unescape_unicodeEscape

theorem unescape_rawEscape (c : Char) (r : List Char) :
    unescape (rawEscape c ++ r) = some (c, r) := by
  unfold rawEscape
  cases hshort : shortEscape c with
  | some t => exact unescape_shortEscape hshort
  | none =>
      rw [Option.getD_none]
      split
      · rename_i hc
        exact unescape_self hshort hc
      · exact unescape_unicodeEscape

end

/-- No blanks, and ASCII only. -/
def Style.ascii : Style where
  escape := asciiEscape
  itemPad := []
  keyPad := []
  unescape_escape := unescape_asciiEscape
  itemPad_ws := by simp
  keyPad_ws := by simp

/-- ASCII only, with a blank after every comma and colon. -/
def Style.asciiSpaced : Style where
  escape := asciiEscape
  itemPad := [' ']
  keyPad := [' ']
  unescape_escape := unescape_asciiEscape
  itemPad_ws := List.all_eq_true.mp (by decide)
  keyPad_ws := List.all_eq_true.mp (by decide)

/-- No blanks, and characters outside ASCII as they are. -/
def Style.raw : Style where
  escape := rawEscape
  itemPad := []
  keyPad := []
  unescape_escape := unescape_rawEscape
  itemPad_ws := by simp
  keyPad_ws := by simp

/-! ### The printer -/

section
variable {ν : Type} (S : Style) (N : NumSyntax ν)

def Style.string (s : String) : List Char := '"' :: (s.toList.flatMap S.escape ++ ['"'])

mutual
def print : Value ν → List Char
  | .null => ['n', 'u', 'l', 'l']
  | .bool true => ['t', 'r', 'u', 'e']
  | .bool false => ['f', 'a', 'l', 's', 'e']
  | .num n => N.text n
  | .str s => S.string s
  | .arr [] => ['[', ']']
  | .arr (x :: xs) => '[' :: (print x ++ printItems xs)
  | .obj [] => ['\x7b', '\x7d']
  | .obj ((k, v) :: kvs) => '\x7b' :: (S.string k ++ ':' :: (S.keyPad ++ (print v ++ printMembers kvs)))

/-- The items of an array after the first, and its end. -/
def printItems : List (Value ν) → List Char
  | [] => [']']
  | x :: xs => ',' :: (S.itemPad ++ (print x ++ printItems xs))

/-- The members of an object after the first, and its end. -/
def printMembers : List (String × Value ν) → List Char
  | [] => ['\x7d']
  | (k, v) :: kvs =>
      ',' :: (S.itemPad ++ (S.string k ++ ':' :: (S.keyPad ++ (print v ++ printMembers kvs))))
end

/-! ### The parser -/

/-- The rest of a string, up to its closing quote. -/
def parseString : ℕ → List Char → Option (List Char × List Char)
  | 0, _ => none
  | fuel + 1, cs =>
      match cs with
      | '"' :: r => some ([], r)
      | cs => (unescape cs).bind fun p =>
          (parseString fuel p.2).map fun q => (p.1 :: q.1, q.2)

/-- A literal or a number. -/
def parseWord (cs : List Char) : Option (Value ν × List Char) :=
  let word := cs.takeWhile isWordChar
  let rest := cs.dropWhile isWordChar
  if word = [] then none
  else if word = ['n', 'u', 'l', 'l'] then some (.null, rest)
  else if word = ['t', 'r', 'u', 'e'] then some (.bool true, rest)
  else if word = ['f', 'a', 'l', 's', 'e'] then some (.bool false, rest)
  else (N.read word).map fun n => (.num n, rest)

/-- A key and the colon after it. -/
def parseKey (cs : List Char) : Option (String × List Char) :=
  match skipWs cs with
  | '"' :: r => (parseString (r.length + 1) r).bind fun p =>
      match skipWs p.2 with
      | ':' :: r => some (String.ofList p.1, r)
      | _ => none
  | _ => none

mutual
def parseValue : ℕ → List Char → Option (Value ν × List Char)
  | 0, _ => none
  | fuel + 1, cs =>
      match skipWs cs with
      | '"' :: r => (parseString (r.length + 1) r).map fun p => (.str (String.ofList p.1), p.2)
      | '[' :: r =>
          match skipWs r with
          | ']' :: r => some (.arr [], r)
          | r => (parseValue fuel r).bind fun p =>
              (parseItems fuel p.2).map fun q => (.arr (p.1 :: q.1), q.2)
      | '\x7b' :: r =>
          match skipWs r with
          | '\x7d' :: r => some (.obj [], r)
          | r => (parseKey r).bind fun k =>
              (parseValue fuel k.2).bind fun p =>
                (parseMembers fuel p.2).map fun q => (.obj ((k.1, p.1) :: q.1), q.2)
      | cs => parseWord N cs

def parseItems : ℕ → List Char → Option (List (Value ν) × List Char)
  | 0, _ => none
  | fuel + 1, cs =>
      match skipWs cs with
      | ']' :: r => some ([], r)
      | ',' :: r => (parseValue fuel r).bind fun p =>
          (parseItems fuel p.2).map fun q => (p.1 :: q.1, q.2)
      | _ => none

def parseMembers : ℕ → List Char → Option (List (String × Value ν) × List Char)
  | 0, _ => none
  | fuel + 1, cs =>
      match skipWs cs with
      | '\x7d' :: r => some ([], r)
      | ',' :: r => (parseKey r).bind fun k =>
          (parseValue fuel k.2).bind fun p =>
            (parseMembers fuel p.2).map fun q => ((k.1, p.1) :: q.1, q.2)
      | _ => none
end

/-- A whole text. -/
def parse (cs : List Char) : Option (Value ν) :=
  (parseValue N (cs.length + 1) cs).bind fun p => if skipWs p.2 = [] then some p.1 else none

end

/-! ### Reading back what was written -/

/-- A number whose text is a word of its own and reads as the number. -/
structure NumSyntax.Readable {ν : Type} (N : NumSyntax ν) (n : ν) : Prop where
  nonempty : N.text n ≠ []
  word : ∀ c ∈ N.text n, isWordChar c = true
  not_null : N.text n ≠ ['n', 'u', 'l', 'l']
  not_true : N.text n ≠ ['t', 'r', 'u', 'e']
  not_false : N.text n ≠ ['f', 'a', 'l', 's', 'e']
  read_text : N.read (N.text n) = some n

instance {ν : Type} [DecidableEq ν] (N : NumSyntax ν) (n : ν) : Decidable (N.Readable n) :=
  decidable_of_iff (N.text n ≠ [] ∧ (N.text n).all isWordChar = true ∧
      N.text n ≠ ['n', 'u', 'l', 'l'] ∧ N.text n ≠ ['t', 'r', 'u', 'e'] ∧
      N.text n ≠ ['f', 'a', 'l', 's', 'e'] ∧ N.read (N.text n) = some n)
    ⟨fun ⟨h₁, h₂, h₃, h₄, h₅, h₆⟩ => ⟨h₁, List.all_eq_true.mp h₂, h₃, h₄, h₅, h₆⟩,
      fun ⟨h₁, h₂, h₃, h₄, h₅, h₆⟩ => ⟨h₁, List.all_eq_true.mpr h₂, h₃, h₄, h₅, h₆⟩⟩

/-- The texts of finitely many numbers. -/
def NumSyntax.ofTable {ν : Type} [DecidableEq ν] (table : List (ν × List Char)) : NumSyntax ν where
  text n := ((table.find? fun e => e.1 = n).map Prod.snd).getD []
  read cs := (table.find? fun e => e.2 = cs).map Prod.fst

mutual
/-- Every number of the value meets `P`. -/
def Value.Forall {ν : Type} (P : ν → Prop) : Value ν → Prop
  | .null => True
  | .bool _ => True
  | .num n => P n
  | .str _ => True
  | .arr xs => Value.ForallItems P xs
  | .obj kvs => Value.ForallMembers P kvs

def Value.ForallItems {ν : Type} (P : ν → Prop) : List (Value ν) → Prop
  | [] => True
  | x :: xs => x.Forall P ∧ Value.ForallItems P xs

def Value.ForallMembers {ν : Type} (P : ν → Prop) : List (String × Value ν) → Prop
  | [] => True
  | (_, v) :: kvs => v.Forall P ∧ Value.ForallMembers P kvs
end

section
variable {ν : Type} {S : Style} {N : NumSyntax ν}

/-- A word before `r` ends there. -/
def Stops (r : List Char) : Prop := ∀ c ∈ r.head?, isWordChar c = false

theorem skipWs_append {pad r : List Char} (h : ∀ c ∈ pad, isWs c = true) :
    skipWs (pad ++ r) = skipWs r :=
  List.dropWhile_append_of_pos h

theorem skipWs_cons {c : Char} {r : List Char} (h : isWs c = false) : skipWs (c :: r) = c :: r :=
  List.dropWhile_cons_of_neg (by simp [h])

theorem takeWhile_word {w r : List Char} (hw : ∀ c ∈ w, isWordChar c = true) (hr : Stops r) :
    (w ++ r).takeWhile isWordChar = w ∧ (w ++ r).dropWhile isWordChar = r := by
  rw [List.takeWhile_append_of_pos hw, List.dropWhile_append_of_pos hw]
  cases r with
  | nil => simp
  | cons c r =>
      have hc : isWordChar c = false := hr c rfl
      rw [List.takeWhile_cons_of_neg (by simp [hc]), List.dropWhile_cons_of_neg (by simp [hc]),
        List.append_nil]
      exact ⟨rfl, rfl⟩

theorem parseWord_num {n : ν} {r : List Char} (hn : N.Readable n) (hr : Stops r) :
    parseWord N (N.text n ++ r) = some (.num n, r) := by
  obtain ⟨htake, hdrop⟩ := takeWhile_word hn.word hr
  simp only [parseWord, htake, hdrop, if_neg hn.nonempty, if_neg hn.not_null, if_neg hn.not_true,
    if_neg hn.not_false, hn.read_text, Option.map_some]

theorem Style.escape_head (S : Style) (c : Char) :
    ∃ d t, S.escape c = d :: t ∧ d ≠ '"' := by
  have h := S.unescape_escape c []
  cases hesc : S.escape c with
  | nil =>
      rw [hesc] at h
      cases h
  | cons d t =>
      refine ⟨d, t, rfl, fun hd => ?_⟩
      rw [hesc, hd] at h
      simp [unescape] at h

theorem parseString_print (cs : List Char) (r : List Char) {fuel : ℕ}
    (hfuel : cs.length < fuel) :
    parseString fuel (cs.flatMap S.escape ++ '"' :: r) = some (cs, r) := by
  induction cs generalizing fuel with
  | nil =>
      obtain ⟨fuel, rfl⟩ : ∃ n, fuel = n + 1 := ⟨fuel - 1, by omega⟩
      rfl
  | cons c cs ih =>
      obtain ⟨fuel, rfl⟩ : ∃ n, fuel = n + 1 := ⟨fuel - 1, by omega⟩
      obtain ⟨d, t, hesc, hd⟩ := S.escape_head c
      have hread := S.unescape_escape c (cs.flatMap S.escape ++ '"' :: r)
      have hrest : parseString fuel (cs.flatMap S.escape ++ '"' :: r) = some (cs, r) :=
        ih (by simpa using hfuel)
      rw [List.flatMap_cons, List.append_assoc]
      rw [hesc, List.cons_append] at hread ⊢
      rw [parseString]
      · rw [hread, Option.bind_some, hrest]
        rfl
      · intro r' h
        exact hd (List.cons.inj h).1

theorem length_le_flatMap_escape (S : Style) (cs : List Char) :
    cs.length ≤ (cs.flatMap S.escape).length := by
  induction cs with
  | nil => simp
  | cons c cs ih =>
      obtain ⟨d, t, hesc, -⟩ := S.escape_head c
      rw [List.flatMap_cons, List.length_append, hesc, List.length_cons, List.length_cons]
      omega

theorem parseString_string (s : String) (r : List Char) :
    parseString ((s.toList.flatMap S.escape ++ ['"'] ++ r).length + 1)
      (s.toList.flatMap S.escape ++ ['"'] ++ r) = some (s.toList, r) := by
  have hlen := length_le_flatMap_escape S s.toList
  rw [List.append_assoc, List.singleton_append]
  apply parseString_print
  rw [List.length_append]
  omega

theorem parseKey_print (k : String) (pad r : List Char) (hpad : ∀ c ∈ pad, isWs c = true) :
    parseKey (pad ++ (S.string k ++ ':' :: r)) = some (k, r) := by
  have hbody := parseString_string (S := S) k (':' :: r)
  rw [parseKey, skipWs_append hpad, Style.string, List.cons_append, skipWs_cons rfl]
  simp only [hbody, Option.bind_some, skipWs_cons (c := ':') rfl, String.ofList_toList]

/-- A printed value starts with a character that is no blank and closes nothing. -/
theorem print_head {v : Value ν} (hv : v.Forall N.Readable) :
    ∃ c t, print S N v = c :: t ∧ isWs c = false ∧ c ≠ ']' ∧ c ≠ '\x7d' := by
  cases v with
  | null => exact ⟨_, _, rfl, by decide, by decide, by decide⟩
  | bool b =>
      cases b with
      | true => exact ⟨_, _, rfl, by decide, by decide, by decide⟩
      | false => exact ⟨_, _, rfl, by decide, by decide, by decide⟩
  | num n =>
      have hn : N.Readable n := hv
      cases htext : N.text n with
      | nil => exact absurd htext hn.nonempty
      | cons c t =>
          have hc : isWordChar c = true := hn.word c (by rw [htext]; exact List.mem_cons_self)
          refine ⟨c, t, htext, ?_, ?_, ?_⟩
          · cases hws : isWs c with
            | false => rfl
            | true =>
                simp only [isWs, Bool.or_eq_true, decide_eq_true_eq] at hws
                rcases hws with ((rfl | rfl) | rfl) | rfl <;> exact absurd hc (by decide)
          · rintro rfl
            exact absurd hc (by decide)
          · rintro rfl
            exact absurd hc (by decide)
  | str s => exact ⟨_, _, rfl, by decide, by decide, by decide⟩
  | arr xs =>
      cases xs with
      | nil => exact ⟨_, _, rfl, by decide, by decide, by decide⟩
      | cons x xs => exact ⟨_, _, rfl, by decide, by decide, by decide⟩
  | obj kvs =>
      cases kvs with
      | nil => exact ⟨_, _, rfl, by decide, by decide, by decide⟩
      | cons kv kvs => exact ⟨_, _, rfl, by decide, by decide, by decide⟩

theorem stops_printItems (xs : List (Value ν)) (r : List Char) :
    Stops (printItems S N xs ++ r) := by
  cases xs with
  | nil =>
      rintro c ⟨⟩
      decide
  | cons x xs =>
      rintro c ⟨⟩
      decide

theorem stops_printMembers (kvs : List (String × Value ν)) (r : List Char) :
    Stops (printMembers S N kvs ++ r) := by
  cases kvs with
  | nil =>
      rintro c ⟨⟩
      decide
  | cons kv kvs =>
      rintro c ⟨⟩
      decide

/-- In a list that does not start with a closing character the first item comes next. -/
theorem skipWs_print {v : Value ν} (hv : v.Forall N.Readable) (r : List Char) :
    skipWs (print S N v ++ r) = print S N v ++ r := by
  obtain ⟨c, t, hprint, hc, -, -⟩ := print_head (S := S) hv
  rw [hprint, List.cons_append, skipWs_cons hc]

theorem parseWord_null {r : List Char} (hr : Stops r) :
    parseWord N (['n', 'u', 'l', 'l'] ++ r) = some (.null, r) := by
  obtain ⟨htake, hdrop⟩ := takeWhile_word (w := ['n', 'u', 'l', 'l']) (List.all_eq_true.mp (by decide)) hr
  rw [parseWord, htake, hdrop]
  rfl

theorem parseWord_true {r : List Char} (hr : Stops r) :
    parseWord N (['t', 'r', 'u', 'e'] ++ r) = some (.bool true, r) := by
  obtain ⟨htake, hdrop⟩ := takeWhile_word (w := ['t', 'r', 'u', 'e']) (List.all_eq_true.mp (by decide)) hr
  rw [parseWord, htake, hdrop]
  rfl

theorem parseWord_false {r : List Char} (hr : Stops r) :
    parseWord N (['f', 'a', 'l', 's', 'e'] ++ r) = some (.bool false, r) := by
  obtain ⟨htake, hdrop⟩ := takeWhile_word (w := ['f', 'a', 'l', 's', 'e'])
    (List.all_eq_true.mp (by decide)) hr
  rw [parseWord, htake, hdrop]
  rfl

theorem parseValue_word {w pad r : List Char} {v : Value ν} (fuel : ℕ)
    (hpad : ∀ c ∈ pad, isWs c = true) (hne : w ≠ []) (hw : ∀ c ∈ w, isWordChar c = true)
    (h : parseWord N (w ++ r) = some (v, r)) :
    parseValue N (fuel + 1) (pad ++ (w ++ r)) = some (v, r) := by
  obtain ⟨c, t, rfl⟩ := List.exists_cons_of_ne_nil hne
  have hc : isWordChar c = true := hw c List.mem_cons_self
  have hws : isWs c = false := by
    cases hws : isWs c with
    | false => rfl
    | true =>
        simp only [isWs, Bool.or_eq_true, decide_eq_true_eq] at hws
        rcases hws with ((rfl | rfl) | rfl) | rfl <;> exact absurd hc (by decide)
  rw [parseValue, skipWs_append hpad, List.cons_append, skipWs_cons hws]
  rw [List.cons_append] at h
  split
  · rename_i heq
    cases heq
    exact absurd hc (by decide)
  · rename_i heq
    cases heq
    exact absurd hc (by decide)
  · rename_i heq
    cases heq
    exact absurd hc (by decide)
  · exact h

theorem parseValue_arr_cons {cs r : List Char} (fuel : ℕ) (h : skipWs cs = '[' :: r)
    (hr : ∀ r', skipWs r ≠ ']' :: r') :
    parseValue N (fuel + 1) cs = (parseValue N fuel (skipWs r)).bind fun p =>
      (parseItems N fuel p.2).map fun q => (.arr (p.1 :: q.1), q.2) := by
  have hopen : parseValue N (fuel + 1) cs = match skipWs r with
      | ']' :: r => some (.arr [], r)
      | r => (parseValue N fuel r).bind fun p =>
          (parseItems N fuel p.2).map fun q => (.arr (p.1 :: q.1), q.2) := by
    rw [parseValue, h]
    rfl
  rw [hopen]
  split
  · rename_i r' heq
    exact absurd heq (hr r')
  · rfl

theorem parseValue_obj_cons {cs r : List Char} (fuel : ℕ) (h : skipWs cs = '\x7b' :: r)
    (hr : ∀ r', skipWs r ≠ '\x7d' :: r') :
    parseValue N (fuel + 1) cs = (parseKey (skipWs r)).bind fun k =>
      (parseValue N fuel k.2).bind fun p =>
        (parseMembers N fuel p.2).map fun q => (.obj ((k.1, p.1) :: q.1), q.2) := by
  have hopen : parseValue N (fuel + 1) cs = match skipWs r with
      | '\x7d' :: r => some (.obj [], r)
      | r => (parseKey r).bind fun k =>
          (parseValue N fuel k.2).bind fun p =>
            (parseMembers N fuel p.2).map fun q => (.obj ((k.1, p.1) :: q.1), q.2) := by
    rw [parseValue, h]
    rfl
  rw [hopen]
  split
  · rename_i r' heq
    exact absurd heq (hr r')
  · rfl

mutual
/-- **A printed value is read back**, whatever follows it that does not prolong a word. -/
theorem parseValue_print : ∀ (v : Value ν) (fuel : ℕ) (pad r : List Char),
    v.Forall N.Readable → (∀ c ∈ pad, isWs c = true) → Stops r →
      (print S N v).length ≤ fuel → parseValue N fuel (pad ++ (print S N v ++ r)) = some (v, r)
  | v, 0, pad, r, hv, _, _, hfuel => by
      obtain ⟨c, t, hprint, -⟩ := print_head (S := S) hv
      rw [hprint, List.length_cons] at hfuel
      omega
  | .null, fuel + 1, pad, r, _, hpad, hr, _ =>
      parseValue_word (w := ['n', 'u', 'l', 'l']) fuel hpad (List.cons_ne_nil _ _)
        (List.all_eq_true.mp (by decide))
        (parseWord_null hr)
  | .bool true, fuel + 1, pad, r, _, hpad, hr, _ =>
      parseValue_word (w := ['t', 'r', 'u', 'e']) fuel hpad (List.cons_ne_nil _ _)
        (List.all_eq_true.mp (by decide))
        (parseWord_true hr)
  | .bool false, fuel + 1, pad, r, _, hpad, hr, _ =>
      parseValue_word (w := ['f', 'a', 'l', 's', 'e']) fuel hpad (List.cons_ne_nil _ _)
        (List.all_eq_true.mp (by decide))
        (parseWord_false hr)
  | .num n, fuel + 1, pad, r, hv, hpad, hr, _ =>
      have hn : N.Readable n := hv
      parseValue_word fuel hpad hn.nonempty hn.word (parseWord_num hn hr)
  | .str s, fuel + 1, pad, r, hv, hpad, hr, _ => by
      have hbody := parseString_string (S := S) s r
      rw [parseValue, skipWs_append hpad, skipWs_print hv, print, Style.string, List.cons_append]
      simp only [hbody, Option.map_some, String.ofList_toList]
  | .arr [], fuel + 1, pad, r, hv, hpad, hr, _ => by
      rw [parseValue, skipWs_append hpad, skipWs_print hv, print]
      rfl
  | .arr (x :: xs), fuel + 1, pad, r, hv, hpad, hr, hfuel => by
      have hx : x.Forall N.Readable := hv.1
      rw [print, List.length_cons, List.length_append] at hfuel
      have hfirst := parseValue_print x fuel [] (printItems S N xs ++ r) hx (by simp)
        (stops_printItems xs r) (by omega)
      have hrest := parseItems_print xs fuel r hv.2 (by omega)
      have hopen : skipWs (pad ++ (print S N (.arr (x :: xs)) ++ r)) =
          '[' :: (print S N x ++ (printItems S N xs ++ r)) := by
        rw [skipWs_append hpad, skipWs_print hv, print, List.cons_append, List.append_assoc]
      rw [parseValue_arr_cons fuel hopen, skipWs_print hx]
      · rw [List.nil_append] at hfirst
        rw [hfirst, Option.bind_some, hrest]
        rfl
      · intro r' heq
        obtain ⟨c, t, hprint, -, hc, -⟩ := print_head (S := S) hx
        rw [skipWs_print hx, hprint, List.cons_append] at heq
        exact hc (List.cons.inj heq).1
  | .obj [], fuel + 1, pad, r, hv, hpad, hr, _ => by
      rw [parseValue, skipWs_append hpad, skipWs_print hv, print]
      rfl
  | .obj ((k, v) :: kvs), fuel + 1, pad, r, hv, hpad, hr, hfuel => by
      have hkey := parseKey_print (S := S) k []
        (S.keyPad ++ (print S N v ++ (printMembers S N kvs ++ r))) (by simp)
      simp only [print, List.length_cons, List.length_append] at hfuel
      have hfirst := parseValue_print v fuel S.keyPad (printMembers S N kvs ++ r) hv.1
        S.keyPad_ws (stops_printMembers kvs r) (by omega)
      have hrest := parseMembers_print kvs fuel r hv.2 (by omega)
      have hopen : skipWs (pad ++ (print S N (.obj ((k, v) :: kvs)) ++ r)) = '\x7b' ::
          (S.string k ++ ':' :: (S.keyPad ++ (print S N v ++ (printMembers S N kvs ++ r)))) := by
        rw [skipWs_append hpad, skipWs_print hv, print]
        simp only [List.cons_append, List.append_assoc]
      have hquote : skipWs (S.string k ++ ':' ::
          (S.keyPad ++ (print S N v ++ (printMembers S N kvs ++ r)))) = S.string k ++ ':' ::
          (S.keyPad ++ (print S N v ++ (printMembers S N kvs ++ r))) := skipWs_cons rfl
      rw [parseValue_obj_cons fuel hopen, hquote]
      · rw [List.nil_append] at hkey
        rw [hkey, Option.bind_some, hfirst, Option.bind_some, hrest]
        rfl
      · intro r' heq
        rw [hquote] at heq
        cases heq

theorem parseItems_print : ∀ (xs : List (Value ν)) (fuel : ℕ) (r : List Char),
    Value.ForallItems N.Readable xs → (printItems S N xs).length ≤ fuel →
      parseItems N fuel (printItems S N xs ++ r) = some (xs, r)
  | xs, 0, r, _, hfuel => by
      cases xs <;> simp [printItems] at hfuel
  | [], fuel + 1, r, _, _ => rfl
  | x :: xs, fuel + 1, r, hxs, hfuel => by
      simp only [printItems, List.length_cons, List.length_append] at hfuel
      have hfirst := parseValue_print x fuel S.itemPad (printItems S N xs ++ r) hxs.1
        S.itemPad_ws (stops_printItems xs r) (by omega)
      have hrest := parseItems_print xs fuel r hxs.2 (by omega)
      rw [parseItems, printItems, List.cons_append, skipWs_cons rfl]
      simp only [List.append_assoc, hfirst, Option.bind_some, hrest, Option.map_some]

theorem parseMembers_print : ∀ (kvs : List (String × Value ν)) (fuel : ℕ) (r : List Char),
    Value.ForallMembers N.Readable kvs → (printMembers S N kvs).length ≤ fuel →
      parseMembers N fuel (printMembers S N kvs ++ r) = some (kvs, r)
  | kvs, 0, r, _, hfuel => by
      cases kvs <;> simp [printMembers] at hfuel
  | [], fuel + 1, r, _, _ => rfl
  | (k, v) :: kvs, fuel + 1, r, hkvs, hfuel => by
      have hkey := parseKey_print (S := S) k S.itemPad
        (S.keyPad ++ (print S N v ++ (printMembers S N kvs ++ r))) S.itemPad_ws
      simp only [printMembers, List.length_cons, List.length_append] at hfuel
      have hfirst := parseValue_print v fuel S.keyPad (printMembers S N kvs ++ r) hkvs.1
        S.keyPad_ws (stops_printMembers kvs r) (by omega)
      have hrest := parseMembers_print kvs fuel r hkvs.2 (by omega)
      rw [parseMembers, printMembers, List.cons_append, skipWs_cons rfl]
      simp only [List.append_assoc, List.cons_append, hkey, Option.bind_some, hfirst, hrest,
        Option.map_some]
end

/-- **Round trip.** A printed text is read as the value it was printed from. -/
theorem parse_print {v : Value ν} (hv : v.Forall N.Readable) : parse N (print S N v) = some v := by
  have h := parseValue_print (S := S) v ((print S N v).length + 1) [] [] hv (by simp)
    (by simp [Stops]) (Nat.le_succ _)
  rw [List.nil_append, List.append_nil] at h
  rw [parse, h]
  rfl

end

/-! ### Reading does not depend on how numbers are written -/

section
variable {ν : Type} {N M : NumSyntax ν}

theorem parse_steps_congr (h : N.read = M.read) (fuel : ℕ) :
    parseValue N fuel = parseValue M fuel ∧ parseItems N fuel = parseItems M fuel ∧
      parseMembers N fuel = parseMembers M fuel := by
  have hword : parseWord N = parseWord M := by
    funext cs
    rw [parseWord, parseWord, h]
  induction fuel with
  | zero =>
      refine ⟨?_, ?_, ?_⟩
      · funext cs
        rw [parseValue, parseValue]
      · funext cs
        rw [parseItems, parseItems]
      · funext cs
        rw [parseMembers, parseMembers]
  | succ fuel ih =>
      obtain ⟨hvalue, hitems, hmembers⟩ := ih
      refine ⟨?_, ?_, ?_⟩
      · funext cs
        simp only [parseValue, hword, hvalue, hitems, hmembers]
      · funext cs
        simp only [parseItems, hvalue, hitems]
      · funext cs
        simp only [parseMembers, hvalue, hmembers]

theorem parse_congr (h : N.read = M.read) : parse N = parse M := by
  funext cs
  rw [parse, parse, (parse_steps_congr h _).1]

end

end AiTrader.Json
