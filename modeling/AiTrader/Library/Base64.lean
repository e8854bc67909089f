import Mathlib.Data.List.DropRight
import Mathlib.Data.List.TakeWhile
import Mathlib.Tactic.SplitIfs

/-! # Base64

Three bytes are four digits of six bits; two or one left over are three or two digits.  The
digits' characters are a parameter (`Alphabet`): a reader may accept several for one digit.
Padding fills the last four up with `=`.

* `decode_encode`: the round trip.
* `rstrip_encodePadded`, `decodePadded_padded`: padding is taken off and put on again.
* `length_encode`: the length of the text. -/

namespace AiTrader.Base64

/-- The characters of the digits. -/
structure Alphabet where
  char : ℕ → Char
  value : Char → Option ℕ
  value_char : ∀ d, d < 64 → value (char d) = some d
  char_ne_pad : ∀ d, d < 64 → char d ≠ '='

section
variable (A : Alphabet)

def encode : List UInt8 → List Char
  | [] => []
  | [a] => [A.char (a.toNat / 4), A.char (a.toNat % 4 * 16)]
  | [a, b] =>
      [A.char (a.toNat / 4), A.char (a.toNat % 4 * 16 + b.toNat / 16), A.char (b.toNat % 16 * 4)]
  | a :: b :: c :: r =>
      A.char (a.toNat / 4) :: A.char (a.toNat % 4 * 16 + b.toNat / 16) ::
        A.char (b.toNat % 16 * 4 + c.toNat / 64) :: A.char (c.toNat % 64) :: encode r

/-- Bits left over in the last digit are dropped; one digit alone is no byte. -/
def decode : List Char → Option (List UInt8)
  | [] => some []
  | [_] => none
  | [a, b] => do
      let a ← A.value a
      let b ← A.value b
      return [UInt8.ofNat (a * 4 + b / 16)]
  | [a, b, c] => do
      let a ← A.value a
      let b ← A.value b
      let c ← A.value c
      return [UInt8.ofNat (a * 4 + b / 16), UInt8.ofNat (b % 16 * 16 + c / 4)]
  | a :: b :: c :: d :: r => do
      let a ← A.value a
      let b ← A.value b
      let c ← A.value c
      let d ← A.value d
      let bytes ← decode r
      return UInt8.ofNat (a * 4 + b / 16) :: UInt8.ofNat (b % 16 * 16 + c / 4) ::
        UInt8.ofNat (c % 4 * 64 + d) :: bytes

/-- What fills `n` digits up to a multiple of four. -/
def padding (n : ℕ) : List Char := List.replicate ((4 - n % 4) % 4) '='

def encodePadded (bs : List UInt8) : List Char :=
  encode A bs ++ padding (encode A bs).length

/-- The text must be padded, and padded only at its end. -/
def decodePadded (cs : List Char) : Option (List UInt8) :=
  let digits := cs.takeWhile (· ≠ '=')
  if cs.dropWhile (· ≠ '=') = padding digits.length then decode A digits else none

end

section
variable {A : Alphabet} {bs : List UInt8} {c : Char}

theorem mem_encode (h : c ∈ encode A bs) : ∃ d, d < 64 ∧ c = A.char d := by
  induction bs using encode.induct with
  | case1 => cases h
  | case2 a =>
      have ha := a.toNat_lt
      simp only [encode, List.mem_cons, List.not_mem_nil, or_false] at h
      rcases h with rfl | rfl
      · exact ⟨_, by omega, rfl⟩
      · exact ⟨_, by omega, rfl⟩
  | case3 a b =>
      have ha := a.toNat_lt
      have hb := b.toNat_lt
      simp only [encode, List.mem_cons, List.not_mem_nil, or_false] at h
      rcases h with rfl | rfl | rfl
      · exact ⟨_, by omega, rfl⟩
      · exact ⟨_, by omega, rfl⟩
      · exact ⟨_, by omega, rfl⟩
  | case4 a b d r ih =>
      have ha := a.toNat_lt
      have hb := b.toNat_lt
      have hd := d.toNat_lt
      simp only [encode, List.mem_cons] at h
      rcases h with rfl | rfl | rfl | rfl | h
      · exact ⟨_, by omega, rfl⟩
      · exact ⟨_, by omega, rfl⟩
      · exact ⟨_, by omega, rfl⟩
      · exact ⟨_, by omega, rfl⟩
      · exact ih h

theorem pad_notMem_encode : '=' ∉ encode A bs := by
  intro hpad
  obtain ⟨d, hd, heq⟩ := mem_encode hpad
  exact A.char_ne_pad d hd heq.symm

theorem length_encode : (encode A bs).length = (4 * bs.length + 2) / 3 := by
  induction bs using encode.induct with
  | case1 => rfl
  | case2 a => simp [encode]
  | case3 a b => simp [encode]
  | case4 a b d r ih =>
      simp only [encode, List.length_cons, ih]
      omega

theorem encode_ne_nil (h : bs ≠ []) : encode A bs ≠ [] := by
  intro hnil
  have hlength : (encode A bs).length = (4 * bs.length + 2) / 3 := length_encode
  have hpos := List.length_pos_of_ne_nil h
  rw [hnil, List.length_nil] at hlength
  omega

theorem ofNat_eq {n : ℕ} {a : UInt8} (h : n = a.toNat) : UInt8.ofNat n = a := by
  rw [h, UInt8.ofNat_toNat]

/-- **Round trip.** -/
theorem decode_encode : decode A (encode A bs) = some bs := by
  induction bs using encode.induct with
  | case1 => rfl
  | case2 a =>
      have ha := a.toNat_lt
      have hfirst : UInt8.ofNat (a.toNat / 4 * 4 + a.toNat % 4 * 16 / 16) = a :=
        ofNat_eq (by omega)
      simp only [encode, decode, A.value_char (a.toNat / 4) (by omega),
        A.value_char (a.toNat % 4 * 16) (by omega)]
      show some [UInt8.ofNat _] = _
      rw [hfirst]
  | case3 a b =>
      have ha := a.toNat_lt
      have hb := b.toNat_lt
      have hfirst : UInt8.ofNat (a.toNat / 4 * 4 + (a.toNat % 4 * 16 + b.toNat / 16) / 16) = a :=
        ofNat_eq (by omega)
      have hsecond : UInt8.ofNat ((a.toNat % 4 * 16 + b.toNat / 16) % 16 * 16 +
          b.toNat % 16 * 4 / 4) = b := ofNat_eq (by omega)
      simp only [encode, decode, A.value_char (a.toNat / 4) (by omega),
        A.value_char (a.toNat % 4 * 16 + b.toNat / 16) (by omega),
        A.value_char (b.toNat % 16 * 4) (by omega)]
      show some [UInt8.ofNat _, UInt8.ofNat _] = _
      rw [hfirst, hsecond]
  | case4 a b d r ih =>
      have ha := a.toNat_lt
      have hb := b.toNat_lt
      have hd := d.toNat_lt
      have hfirst : UInt8.ofNat (a.toNat / 4 * 4 + (a.toNat % 4 * 16 + b.toNat / 16) / 16) = a :=
        ofNat_eq (by omega)
      have hsecond : UInt8.ofNat ((a.toNat % 4 * 16 + b.toNat / 16) % 16 * 16 +
          (b.toNat % 16 * 4 + d.toNat / 64) / 4) = b := ofNat_eq (by omega)
      have hthird : UInt8.ofNat ((b.toNat % 16 * 4 + d.toNat / 64) % 4 * 64 + d.toNat % 64) = d :=
        ofNat_eq (by omega)
      simp only [encode, decode, A.value_char (a.toNat / 4) (by omega),
        A.value_char (a.toNat % 4 * 16 + b.toNat / 16) (by omega),
        A.value_char (b.toNat % 16 * 4 + d.toNat / 64) (by omega),
        A.value_char (d.toNat % 64) (by omega), ih]
      show some (UInt8.ofNat _ :: UInt8.ofNat _ :: UInt8.ofNat _ :: r) = _
      rw [hfirst, hsecond, hthird]

/-! ### Padding -/

theorem eq_pad_of_mem_padding {n : ℕ} (h : c ∈ padding n) : c = '=' := List.eq_of_mem_replicate h

theorem rstrip_encodePadded : (encodePadded A bs).rdropWhile (· = '=') = encode A bs := by
  have hpad : ∀ c ∈ (padding (encode A bs).length).reverse, decide (c = '=') = true := by
    intro c hc
    exact decide_eq_true (eq_pad_of_mem_padding (List.mem_reverse.mp hc))
  have hdigits : ∀ c ∈ (encode A bs).reverse.head?, decide (c = '=') = false := by
    intro c hc
    apply decide_eq_false
    rintro rfl
    exact pad_notMem_encode (List.mem_reverse.mp (List.mem_of_mem_head? hc))
  rw [List.rdropWhile, encodePadded, List.reverse_append, List.dropWhile_append_of_pos hpad]
  cases hrev : (encode A bs).reverse with
  | nil => simpa using hrev.symm
  | cons c r =>
      rw [List.dropWhile_cons_of_neg (by simp [hdigits c (by rw [hrev]; rfl)]), ← hrev,
        List.reverse_reverse]

/-- Digits that were padded are read as the digits. -/
theorem decodePadded_padded {cs : List Char} (h : '=' ∉ cs) :
    decodePadded A (cs ++ padding cs.length) = decode A cs := by
  have hdigits : ∀ c ∈ cs, decide (c ≠ '=') = true := by
    intro c hc
    apply decide_eq_true
    rintro rfl
    exact h hc
  have htake : (padding cs.length).takeWhile (· ≠ '=') = [] := by
    unfold padding
    cases (4 - cs.length % 4) % 4 <;> rfl
  have hdrop : (padding cs.length).dropWhile (· ≠ '=') = padding cs.length := by
    unfold padding
    cases (4 - cs.length % 4) % 4 <;> rfl
  unfold decodePadded
  rw [List.takeWhile_append_of_pos hdigits, List.dropWhile_append_of_pos hdigits, htake, hdrop,
    List.append_nil, if_pos rfl]

end

/-! ### The URL-safe alphabet -/

/-- The URL-safe characters; the two of the standard alphabet are read as well. -/
def urlSafe : Alphabet where
  char d :=
    if d < 26 then Char.ofNat (65 + d)
    else if d < 52 then Char.ofNat (97 + (d - 26))
    else if d < 62 then Char.ofNat (48 + (d - 52))
    else if d = 62 then '-' else '_'
  value c :=
    if 65 ≤ c.toNat ∧ c.toNat ≤ 90 then some (c.toNat - 65)
    else if 97 ≤ c.toNat ∧ c.toNat ≤ 122 then some (c.toNat - 97 + 26)
    else if 48 ≤ c.toNat ∧ c.toNat ≤ 57 then some (c.toNat - 48 + 52)
    else if c = '-' ∨ c = '+' then some 62
    else if c = '_' ∨ c = '/' then some 63
    else none
  value_char := by decide
  char_ne_pad := by decide

end AiTrader.Base64
