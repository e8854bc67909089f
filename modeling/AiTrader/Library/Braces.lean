import AiTrader.Library.Json

/-! # Matching braces

`matchBraces` reads a text up to the brace that closes its first one.  It knows strings, so a brace
inside a string literal counts for nothing.

* `Passes`: a text over which the matcher runs without a trace, at any depth inside an object.
* `inString_unescape`: the matcher takes a character of a string literal for what the parser takes
  it for, however it is written.
* `matchBraces_print`: of a printed object and whatever follows it the matcher gives the object. -/

namespace AiTrader.Json

/-- The text up to the brace that closes depth one; `none` when the text ends before. -/
def matchBraces : ℕ → Bool → Bool → List Char → Option (List Char)
  | _, _, _, [] => none
  | depth, inString, escaped, ch :: r =>
      if inString then
        if escaped then (matchBraces depth true false r).map (ch :: ·)
        else if ch = '\\' then (matchBraces depth true true r).map (ch :: ·)
        else if ch = '"' then (matchBraces depth false false r).map (ch :: ·)
        else (matchBraces depth true false r).map (ch :: ·)
      else if ch = '"' then (matchBraces depth true escaped r).map (ch :: ·)
      else if ch = '\x7b' then (matchBraces (depth + 1) false escaped r).map (ch :: ·)
      else if ch = '\x7d' then
        if depth - 1 = 0 then some [ch]
        else (matchBraces (depth - 1) false escaped r).map (ch :: ·)
      else (matchBraces depth false escaped r).map (ch :: ·)

theorem matchBraces_begins {depth : ℕ} {inString escaped : Bool} {cs w : List Char}
    (h : matchBraces depth inString escaped cs = some w) : w ≠ [] ∧ w <+: cs := by
  induction cs generalizing depth inString escaped w with
  | nil => cases h
  | cons ch cs ih =>
      have hcons : ∀ {depth inString escaped},
          (matchBraces depth inString escaped cs).map (ch :: ·) = some w →
            w ≠ [] ∧ w <+: ch :: cs := by
        intro depth inString escaped hmap
        obtain ⟨u, hu, rfl⟩ := Option.map_eq_some_iff.mp hmap
        exact ⟨by simp, List.cons_prefix_cons.mpr ⟨rfl, (ih hu).2⟩⟩
      rw [matchBraces] at h
      split at h
      · split at h
        · exact hcons h
        · split at h
          · exact hcons h
          · split at h <;> exact hcons h
      · split at h
        · exact hcons h
        · split at h
          · exact hcons h
          · split at h
            · split at h
              · obtain rfl := Option.some.inj h
                simp
              · exact hcons h
            · exact hcons h

/-! ### Inside a string -/

/-- A part of a string literal: the matcher stays inside the string. -/
def InString (w : List Char) : Prop := ∀ depth r,
  matchBraces depth true false (w ++ r) = (matchBraces depth true false r).map (w ++ ·)

theorem inString_nil : InString [] := by
  intro depth r
  simp

theorem InString.append {v w : List Char} (hv : InString v) (hw : InString w) :
    InString (v ++ w) := by
  intro depth r
  rw [List.append_assoc, hv, hw, Option.map_map]
  congr 1
  funext u
  simp

theorem inString_singleton {c : Char} (hquote : c ≠ '"') (hslash : c ≠ '\\') : InString [c] := by
  intro depth r
  simp [matchBraces, hquote, hslash]

theorem inString_escape (e : Char) : InString ['\\', e] := by
  intro depth r
  simp [matchBraces, Option.map_map, Function.comp_def]

theorem inString_of_forall {w : List Char} (h : ∀ c ∈ w, c ≠ '"' ∧ c ≠ '\\') : InString w := by
  induction w with
  | nil => exact inString_nil
  | cons c w ih =>
      have hc := h c (by simp)
      exact (inString_singleton hc.1 hc.2).append (ih fun d hd => h d (by simp [hd]))

theorem hexVal_inString {c : Char} {n : ℕ} (h : hexVal c = some n) : c ≠ '"' ∧ c ≠ '\\' := by
  constructor <;> rintro rfl <;> simp [hexVal] at h

theorem hex4_inString {cs r : List Char} {n : ℕ} (h : hex4 cs = some (n, r)) :
    ∃ w, cs = w ++ r ∧ InString w := by
  unfold hex4 at h
  split at h
  · rename_i a b c d rest
    simp only [Option.bind_eq_bind, Option.bind_eq_some_iff] at h
    obtain ⟨_, ha, _, hb, _, hc, _, hd, hn⟩ := h
    obtain ⟨-, rfl⟩ := Prod.mk.inj (Option.some.inj hn)
    refine ⟨[a, b, c, d], rfl, inString_of_forall fun x hx => ?_⟩
    simp only [List.mem_cons, List.not_mem_nil, or_false] at hx
    rcases hx with rfl | rfl | rfl | rfl
    · exact hexVal_inString ha
    · exact hexVal_inString hb
    · exact hexVal_inString hc
    · exact hexVal_inString hd
  · cases h

theorem unescapeUnicode_inString {cs r : List Char} {c : Char}
    (h : unescapeUnicode cs = some (c, r)) : ∃ w, cs = w ++ r ∧ InString w := by
  unfold unescapeUnicode at h
  obtain ⟨⟨n, rest⟩, hfirst, hunit⟩ := Option.bind_eq_some_iff.mp h
  obtain ⟨w, rfl, hw⟩ := hex4_inString hfirst
  dsimp only at hunit
  split at hunit
  · -- a surrogate pair
    split at hunit
    · obtain ⟨⟨n', rest'⟩, hsecond, hpair⟩ := Option.bind_eq_some_iff.mp hunit
      obtain ⟨w', rfl, hw'⟩ := hex4_inString hsecond
      dsimp only at hpair
      split at hpair
      · obtain ⟨-, rfl⟩ := Prod.mk.inj (Option.some.inj hpair)
        exact ⟨w ++ (['\\', 'u'] ++ w'), by simp, hw.append ((inString_escape 'u').append hw')⟩
      · cases hpair
    · cases hunit
  · split at hunit
    · cases hunit
    · obtain ⟨-, rfl⟩ := Prod.mk.inj (Option.some.inj hunit)
      exact ⟨w, rfl, hw⟩

/-- What the parser reads as one character of a string keeps the matcher inside the string. -/
theorem inString_unescape {cs r : List Char} {c : Char} (h : unescape cs = some (c, r)) :
    ∃ w, cs = w ++ r ∧ InString w := by
  unfold unescape at h
  split at h
  · cases h
  · rename_i d rest
    split at h
    · rename_i hslash
      subst hslash
      split at h
      · cases h
      · rename_i e rest
        split at h
        · rename_i hu
          subst hu
          obtain ⟨w, rfl, hw⟩ := unescapeUnicode_inString h
          exact ⟨['\\', 'u'] ++ w, rfl, (inString_escape 'u').append hw⟩
        · obtain ⟨_, -, heq⟩ := Option.map_eq_some_iff.mp h
          obtain ⟨-, rfl⟩ := Prod.mk.inj heq
          exact ⟨['\\', e], rfl, inString_escape e⟩
    · rename_i hslash
      split at h
      · cases h
      · rename_i hplain
        obtain ⟨-, rfl⟩ := Prod.mk.inj (Option.some.inj h)
        exact ⟨[d], rfl, inString_singleton (fun hd => hplain (.inl hd)) hslash⟩

theorem Style.inString_escape (S : Style) (c : Char) : InString (S.escape c) := by
  obtain ⟨w, hw, hin⟩ := inString_unescape (S.unescape_escape c [])
  rw [List.append_nil, List.append_nil] at hw
  rwa [hw]

theorem Style.inString_flatMap (S : Style) (cs : List Char) : InString (cs.flatMap S.escape) := by
  induction cs with
  | nil => exact inString_nil
  | cons c cs ih => exact (S.inString_escape c).append ih

/-! ### Inside an object -/

/-- The matcher runs over the text and is as before, inside an object. -/
def Passes (w : List Char) : Prop := ∀ depth r,
  matchBraces (depth + 1) false false (w ++ r) =
    (matchBraces (depth + 1) false false r).map (w ++ ·)

theorem passes_nil : Passes [] := by
  intro depth r
  simp

theorem Passes.append {v w : List Char} (hv : Passes v) (hw : Passes w) : Passes (v ++ w) := by
  intro depth r
  rw [List.append_assoc, hv, hw, Option.map_map]
  congr 1
  funext u
  simp

theorem passes_of_forall {w : List Char} (h : ∀ c ∈ w, c ≠ '"' ∧ c ≠ '\x7b' ∧ c ≠ '\x7d') :
    Passes w := by
  induction w with
  | nil => exact passes_nil
  | cons c w ih =>
      intro depth r
      obtain ⟨hquote, hopen, hclose⟩ := h c (by simp)
      rw [List.cons_append, matchBraces]
      simp only [hquote, hopen, hclose, Bool.false_eq_true, if_false]
      rw [ih fun d hd => h d (by simp [hd]), Option.map_map]
      rfl

theorem Passes.object {w : List Char} (hw : Passes w) : Passes ('\x7b' :: (w ++ ['\x7d'])) := by
  intro depth r
  rw [List.cons_append, matchBraces]
  simp only [Bool.false_eq_true, if_false, if_true, show ('\x7b' = '"') = False by decide]
  rw [List.append_assoc, hw]
  simp [matchBraces, Option.map_map, Function.comp_def]

theorem Passes.matchBraces {w : List Char} (hw : Passes w) (r : List Char) :
    matchBraces 0 false false ('\x7b' :: (w ++ '\x7d' :: r)) = some ('\x7b' :: (w ++ ['\x7d'])) := by
  rw [Json.matchBraces]
  simp only [Bool.false_eq_true, if_false, if_true, show ('\x7b' = '"') = False by decide]
  rw [hw]
  simp [Json.matchBraces]

theorem Style.passes_string (S : Style) (s : String) : Passes (S.string s) := by
  intro depth r
  unfold Style.string
  rw [List.cons_append, Json.matchBraces]
  simp only [Bool.false_eq_true, if_false, if_true]
  rw [List.append_assoc, S.inString_flatMap]
  simp [Json.matchBraces, Option.map_map, Function.comp_def]

/-! ### Printed values -/

section
variable {ν : Type} {S : Style} {N : NumSyntax ν}

theorem isWordChar_passes {c : Char} (h : isWordChar c = true) :
    c ≠ '"' ∧ c ≠ '\x7b' ∧ c ≠ '\x7d' := by
  refine ⟨?_, ?_, ?_⟩ <;> rintro rfl <;> revert h <;> decide

theorem isWs_passes {c : Char} (h : isWs c = true) : c ≠ '"' ∧ c ≠ '\x7b' ∧ c ≠ '\x7d' := by
  refine ⟨?_, ?_, ?_⟩ <;> rintro rfl <;> revert h <;> decide

theorem passes_singleton {c : Char} (h : c ≠ '"' ∧ c ≠ '\x7b' ∧ c ≠ '\x7d') : Passes [c] :=
  passes_of_forall fun d hd => by rwa [List.mem_singleton.mp hd]

theorem passes_itemPad (S : Style) : Passes S.itemPad :=
  passes_of_forall fun c hc => isWs_passes (S.itemPad_ws c hc)

theorem passes_keyPad (S : Style) : Passes S.keyPad :=
  passes_of_forall fun c hc => isWs_passes (S.keyPad_ws c hc)

theorem passes_member (S : Style) (k : String) {v rest : List Char} (hv : Passes v)
    (hrest : Passes rest) : Passes (S.string k ++ ':' :: (S.keyPad ++ (v ++ rest))) :=
  (S.passes_string k).append ((passes_singleton (c := ':') (by decide)).append
    ((passes_keyPad S).append (hv.append hrest)))

mutual
theorem passes_print (S : Style) : ∀ v : Value ν, v.Forall N.Readable → Passes (print S N v)
  | .null, _ => show Passes ['n', 'u', 'l', 'l'] from passes_of_forall (by simp)
  | .bool true, _ => show Passes ['t', 'r', 'u', 'e'] from passes_of_forall (by simp)
  | .bool false, _ => show Passes ['f', 'a', 'l', 's', 'e'] from passes_of_forall (by simp)
  | .num _, hn => passes_of_forall fun c hc => isWordChar_passes (hn.word c hc)
  | .str s, _ => S.passes_string s
  | .arr [], _ => show Passes ['[', ']'] from passes_of_forall (by simp)
  | .arr (x :: xs), ⟨hx, hxs⟩ =>
      (passes_singleton (c := '[') (by decide)).append
        ((passes_print S x hx).append (passes_printItems S xs hxs))
  | .obj [], _ => passes_nil.object
  | .obj ((k, v) :: kvs), ⟨hv, hkvs⟩ => by
      obtain ⟨body, hbody, hpass⟩ := passes_printMembers S kvs hkvs
      rw [print, hbody]
      simpa using (passes_member S k (passes_print S v hv) hpass).object

theorem passes_printItems (S : Style) : ∀ xs : List (Value ν),
    Value.ForallItems N.Readable xs → Passes (printItems S N xs)
  | [], _ => show Passes [']'] from passes_of_forall (by simp)
  | x :: xs, ⟨hx, hxs⟩ =>
      (passes_singleton (c := ',') (by decide)).append ((passes_itemPad S).append
        ((passes_print S x hx).append (passes_printItems S xs hxs)))

theorem passes_printMembers (S : Style) : ∀ kvs : List (String × Value ν),
    Value.ForallMembers N.Readable kvs →
      ∃ body, printMembers S N kvs = body ++ ['}'] ∧ Passes body
  | [], _ => ⟨[], rfl, passes_nil⟩
  | (k, v) :: kvs, ⟨hv, hkvs⟩ => by
      obtain ⟨body, hbody, hpass⟩ := passes_printMembers S kvs hkvs
      refine ⟨_, ?_, (passes_singleton (c := ',') (by decide)).append ((passes_itemPad S).append
        (passes_member S k (passes_print S v hv) hpass))⟩
      rw [printMembers, hbody]
      simp
end

/-- The matcher finds exactly the object that is printed. -/
theorem matchBraces_print (S : Style) {kvs : List (String × Value ν)}
    (h : (Value.obj kvs).Forall N.Readable) (r : List Char) :
    matchBraces 0 false false (print S N (.obj kvs) ++ r) = some (print S N (.obj kvs)) := by
  cases kvs with
  | nil => exact passes_nil.matchBraces r
  | cons kv kvs =>
      obtain ⟨k, v⟩ := kv
      obtain ⟨hv, hkvs⟩ := h
      obtain ⟨body, hbody, hpass⟩ := passes_printMembers S kvs hkvs
      rw [print, hbody]
      simpa using (passes_member S k (passes_print S v hv) hpass).matchBraces r

end

end AiTrader.Json
