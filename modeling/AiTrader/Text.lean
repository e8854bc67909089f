import Mathlib.Data.List.Infix
import Mathlib.Data.List.TakeWhile
import Mathlib.Data.String.Basic

/-! # Text operations of the two languages

Python and Rust trim different sets of characters (`\x1c` … `\x1f` are blank for Python
only) and map case differently (`str.upper` follows the full Unicode mapping, the server uses
the ASCII one), so each operation is a definition of its own.

The Unicode case mapping is data of the Unicode standard, not of the program: `Casing` is a
table of it, of which only the ASCII rows are prescribed. -/

namespace AiTrader.Text

/-- `str.isspace` of one character. -/
def isSpace (c : Char) : Bool :=
  let n := c.toNat
  (9 ≤ n && n ≤ 13) || (28 ≤ n && n ≤ 32) || n == 0x85 || n == 0xA0 || n == 0x1680 ||
    (0x2000 ≤ n && n ≤ 0x200A) || n == 0x2028 || n == 0x2029 || n == 0x202F || n == 0x205F ||
    n == 0x3000

/-- `char::is_whitespace`. -/
def isWhitespace (c : Char) : Bool :=
  let n := c.toNat
  (9 ≤ n && n ≤ 13) || n == 32 || n == 0x85 || n == 0xA0 || n == 0x1680 ||
    (0x2000 ≤ n && n ≤ 0x200A) || n == 0x2028 || n == 0x2029 || n == 0x202F || n == 0x205F ||
    n == 0x3000

/-- Drop what `p` accepts at both ends. -/
def trimBoth (p : Char → Bool) (cs : List Char) : List Char :=
  ((cs.dropWhile p).reverse.dropWhile p).reverse

/-- Python's `str.strip()`. -/
def strip (s : String) : String := String.ofList (trimBoth isSpace s.toList)

/-- Rust's `str::trim`. -/
def trim (s : String) : String := String.ofList (trimBoth isWhitespace s.toList)

/-- `char::to_ascii_uppercase`. -/
def asciiUpperChar (c : Char) : Char :=
  if 97 ≤ c.toNat ∧ c.toNat ≤ 122 then Char.ofNat (c.toNat - 32) else c

/-- `char::to_ascii_lowercase`. -/
def asciiLowerChar (c : Char) : Char :=
  if 65 ≤ c.toNat ∧ c.toNat ≤ 90 then Char.ofNat (c.toNat + 32) else c

/-- Rust's `str::to_ascii_uppercase`. -/
def toAsciiUppercase (s : String) : String := String.ofList (s.toList.map asciiUpperChar)

/-- Rust's `str::to_ascii_lowercase`. -/
def toAsciiLowercase (s : String) : String := String.ofList (s.toList.map asciiLowerChar)

/-- Rust's `str::eq_ignore_ascii_case`. -/
def eqIgnoreAsciiCase (s t : String) : Bool := toAsciiLowercase s == toAsciiLowercase t

/-- A full case mapping.  A character may map to several. -/
structure Casing where
  upperChar : Char → List Char
  lowerChar : Char → List Char
  upper_ascii : ∀ c, c.toNat < 128 → upperChar c = [asciiUpperChar c]
  lower_ascii : ∀ c, c.toNat < 128 → lowerChar c = [asciiLowerChar c]

namespace Casing

/-- Python's `str.upper()`. -/
def upper (C : Casing) (s : String) : String := String.ofList (s.toList.flatMap C.upperChar)

/-- Python's `str.lower()`. -/
def lower (C : Casing) (s : String) : String := String.ofList (s.toList.flatMap C.lowerChar)

variable (C : Casing) {s : String}

theorem flatMap_ascii {f : Char → List Char} {g : Char → Char}
    (hf : ∀ c, c.toNat < 128 → f c = [g c]) {cs : List Char}
    (h : cs.all (fun c => decide (c.toNat < 128)) = true) : cs.flatMap f = cs.map g := by
  induction cs with
  | nil => rfl
  | cons c cs ih =>
      simp only [List.all_cons, Bool.and_eq_true, decide_eq_true_eq] at h
      rw [List.flatMap_cons, hf c h.1, ih h.2]
      rfl

/-- On ASCII text every full mapping is the ASCII one. -/
theorem lower_of_ascii (h : s.toList.all (fun c => decide (c.toNat < 128)) = true) :
    C.lower s = toAsciiLowercase s := by
  rw [lower, flatMap_ascii C.lower_ascii h, toAsciiLowercase]

theorem upper_of_ascii (h : s.toList.all (fun c => decide (c.toNat < 128)) = true) :
    C.upper s = toAsciiUppercase s := by
  rw [upper, flatMap_ascii C.upper_ascii h, toAsciiUppercase]

/-- The mapping that changes ASCII letters only. -/
def ascii : Casing where
  upperChar c := [asciiUpperChar c]
  lowerChar c := [asciiLowerChar c]
  upper_ascii _ _ := rfl
  lower_ascii _ _ := rfl

end Casing

/-! ### The two ways of trimming -/

section
variable {p : Char → Bool} {l t r cs : List Char} {s : String}

theorem trimBoth_append (hl : ∀ c ∈ l, p c = true) (hr : ∀ c ∈ r, p c = true)
    (ht : ∀ c ∈ t, p c = false) : trimBoth p (l ++ t ++ r) = t := by
  have hdrop : ∀ {xs ys : List Char}, (∀ c ∈ xs, p c = false) → (∀ c ∈ ys, p c = true) →
      ((xs ++ ys).reverse.dropWhile p).reverse = xs := by
    intro xs ys hxs hys
    rw [List.reverse_append, List.dropWhile_append_of_pos (by simpa using hys)]
    cases hrev : xs.reverse with
    | nil => simpa using hrev.symm
    | cons x xs' =>
        have hx : p x = false := hxs x (by
          rw [← List.mem_reverse, hrev]
          exact List.mem_cons_self)
        rw [List.dropWhile_cons_of_neg (by simp [hx]), ← hrev, List.reverse_reverse]
  rw [trimBoth, List.append_assoc, List.dropWhile_append_of_pos hl]
  cases t with
  | nil =>
      have hnil : r.dropWhile p = [] := by simpa [List.dropWhile_eq_nil_iff] using hr
      simp [hnil]
  | cons c t =>
      have hc : p c = false := ht c List.mem_cons_self
      rw [List.cons_append, List.dropWhile_cons_of_neg (by simp [hc]), ← List.cons_append]
      exact hdrop ht hr

theorem trimBoth_split (p : Char → Bool) (cs : List Char) :
    ∃ l r, cs = l ++ trimBoth p cs ++ r ∧ (∀ c ∈ l, p c = true) ∧ ∀ c ∈ r, p c = true := by
  set rest := cs.dropWhile p with hrest
  refine ⟨cs.takeWhile p, (rest.reverse.takeWhile p).reverse, ?_, ?_, ?_⟩
  · have hback : (rest.reverse.dropWhile p).reverse ++ (rest.reverse.takeWhile p).reverse = rest := by
      rw [← List.reverse_append, List.takeWhile_append_dropWhile, List.reverse_reverse]
    rw [List.append_assoc, trimBoth, ← hrest, hback, hrest, List.takeWhile_append_dropWhile]
  · intro c hc
    exact List.mem_takeWhile_imp hc
  · intro c hc
    exact List.mem_takeWhile_imp (List.mem_reverse.mp hc)

theorem trimBoth_eq_self (hl : ∀ c ∈ cs.head?, p c = false) (hr : ∀ c ∈ cs.getLast?, p c = false) :
    trimBoth p cs = cs := by
  have hkeep : ∀ {xs : List Char}, (∀ c ∈ xs.head?, p c = false) → xs.dropWhile p = xs := by
    intro xs hxs
    cases xs with
    | nil => rfl
    | cons x xs => exact List.dropWhile_cons_of_neg (by simp [hxs x rfl])
  rw [trimBoth, hkeep hl, hkeep (by rwa [List.head?_reverse]), List.reverse_reverse]

theorem head_dropWhile {p : Char → Bool} {cs : List Char} :
    ∀ c ∈ (cs.dropWhile p).head?, p c = false := by
  intro c hc
  have hnot := List.head?_dropWhile_not p cs
  rw [Option.mem_def.mp hc] at hnot
  simpa using hnot

theorem trimBoth_trimBoth (p : Char → Bool) (cs : List Char) :
    trimBoth p (trimBoth p cs) = trimBoth p cs := by
  refine trimBoth_eq_self (fun c hc => ?_) fun c hc => ?_
  · have hpre : trimBoth p cs <+: cs.dropWhile p := by
      rw [trimBoth, ← List.reverse_suffix, List.reverse_reverse]
      exact List.dropWhile_suffix p
    obtain ⟨t, ht⟩ := hpre
    refine head_dropWhile c (show c ∈ (cs.dropWhile p).head? from ?_)
    rw [← ht, List.head?_append, Option.mem_def.mp hc]
    rfl
  · rw [trimBoth, List.getLast?_reverse] at hc
    exact head_dropWhile c hc

theorem strip_strip (s : String) : strip (strip s) = strip s := by
  rw [strip, strip, String.toList_ofList, trimBoth_trimBoth]

/-! ### Plain words -/

/-- A lower-case ASCII letter, a hyphen or an underscore. -/
def isPlainChar (c : Char) : Bool := (97 ≤ c.toNat && c.toNat ≤ 122) || c == '-' || c == '_'

theorem isPlainChar_iff {c : Char} : isPlainChar c = true ↔
    97 ≤ c.toNat ∧ c.toNat ≤ 122 ∨ c = '-' ∨ c = '_' := by
  simp [isPlainChar, or_assoc]

theorem not_space_of_plainChar {c : Char} (hc : isPlainChar c = true) : isSpace c = false := by
  obtain hc | rfl | rfl := isPlainChar_iff.mp hc
  · simp only [isSpace, Bool.or_eq_false_iff, Bool.and_eq_false_iff, decide_eq_false_iff_not,
      beq_eq_false_iff_ne]
    omega
  · decide
  · decide

theorem lower_of_plainChar {c : Char} (hc : isPlainChar c = true) :
    c.toNat < 128 ∧ asciiLowerChar c = c := by
  obtain hc | rfl | rfl := isPlainChar_iff.mp hc
  · exact ⟨by omega, if_neg (by omega)⟩
  · decide
  · decide

theorem notMem_of_word {c : Char} (hcs : cs.all isPlainChar = true) (hc : isPlainChar c = false) :
    c ∉ cs := by
  intro hmem
  rw [List.all_eq_true.mp hcs c hmem] at hc
  cases hc

theorem strip_word (hs : s.toList.all isPlainChar = true) : strip s = s := by
  have hword : ∀ c ∈ s.toList, isSpace c = false := fun c hc =>
    not_space_of_plainChar (List.all_eq_true.mp hs c hc)
  rw [strip, trimBoth_eq_self (fun c hc => hword c (List.mem_of_mem_head? hc))
    fun c hc => hword c (List.mem_of_mem_getLast? hc), String.ofList_toList]

theorem Casing.lower_word (C : Casing) (hs : s.toList.all isPlainChar = true) : C.lower s = s := by
  have hascii : s.toList.all (fun c => decide (c.toNat < 128)) = true :=
    List.all_eq_true.mpr fun c hc =>
      decide_eq_true (lower_of_plainChar (List.all_eq_true.mp hs c hc)).1
  have hmap : s.toList.map asciiLowerChar = s.toList := by
    conv_rhs => rw [← List.map_id s.toList]
    exact List.map_congr_left fun c hc => (lower_of_plainChar (List.all_eq_true.mp hs c hc)).2
  rw [C.lower_of_ascii hascii, toAsciiLowercase, hmap, String.ofList_toList]

theorem isSpace_of_isWhitespace {c : Char} (h : isWhitespace c = true) : isSpace c = true := by
  simp only [isWhitespace, isSpace, Bool.or_eq_true, Bool.and_eq_true, decide_eq_true_eq,
    beq_iff_eq] at h ⊢
  omega

/-- Python strips at least what Rust trims. -/
theorem strip_of_trim (h : ∀ c ∈ (trim s).toList, isSpace c = false) : strip s = trim s := by
  obtain ⟨l, r, hsplit, hl, hr⟩ := trimBoth_split isWhitespace s.toList
  have htrim : (trim s).toList = trimBoth isWhitespace s.toList := by simp [trim]
  rw [htrim] at h
  have hstrip := trimBoth_append (fun c hc => isSpace_of_isWhitespace (hl c hc))
    (fun c hc => isSpace_of_isWhitespace (hr c hc)) h
  rw [← hsplit] at hstrip
  rw [strip, hstrip, trim]

/-- A character that becomes an upper-case letter is an ASCII letter. -/
theorem letter_of_upper {c : Char} (h : 65 ≤ (asciiUpperChar c).toNat)
    (h' : (asciiUpperChar c).toNat ≤ 90) : c.toNat < 128 ∧ isSpace c = false := by
  have hc : 65 ≤ c.toNat ∧ c.toNat ≤ 122 := by
    unfold asciiUpperChar at h h'
    split at h
    · omega
    · rename_i hlower
      rw [if_neg hlower] at h'
      omega
  refine ⟨by omega, ?_⟩
  simp only [isSpace, Bool.or_eq_false_iff, Bool.and_eq_false_iff, decide_eq_false_iff_not,
    beq_eq_false_iff_ne]
  omega

/-- What Rust reads as an upper-case word, Python reads as that word too. -/
theorem upper_strip_of_trim (C : Casing) {w : String} (h : toAsciiUppercase (trim s) = w)
    (hw : w.toList.all (fun c => decide (65 ≤ c.toNat ∧ c.toNat ≤ 90)) = true) :
    C.upper (strip s) = w := by
  have hletters : ∀ c ∈ (trim s).toList, c.toNat < 128 ∧ isSpace c = false := by
    intro c hc
    have hmem : asciiUpperChar c ∈ w.toList := by
      rw [← h, toAsciiUppercase, String.toList_ofList]
      exact List.mem_map_of_mem hc
    have hrange := of_decide_eq_true (List.all_eq_true.mp hw _ hmem)
    exact letter_of_upper hrange.1 hrange.2
  rw [strip_of_trim fun c hc => (hletters c hc).2, C.upper_of_ascii, h]
  simpa [List.all_eq_true] using fun c hc => (hletters c hc).1

end

/-- `s.startswith(pre)`. -/
def startsWith (s pre : String) : Bool := pre.toList.isPrefixOf s.toList

/-- Python's `needle in hay`. -/
def contains (hay needle : String) : Bool :=
  hay.toList.tails.any (fun t => needle.toList.isPrefixOf t)

theorem contains_of_append (pre needle post : String) :
    contains (pre ++ needle ++ post) needle = true := by
  simp only [contains, List.any_eq_true, List.mem_tails]
  refine ⟨needle.toList ++ post.toList, ?_, ?_⟩
  · simp [String.toList_append]
  · simp

end AiTrader.Text
