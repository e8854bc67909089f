import AiTrader.Library.Scan

/-! # Cutting words out of a text

`remove` cuts every match of a pattern, from the left and once.  Where the pattern is a set of
words, each of them recognised by a first character that stands nowhere else in it (`Marks`), what
is left may hold a word again: its characters stood apart, with whole words between them.

* `exists_infix_scrub_iff`: what is left holds a word exactly if one was interrupted by others.
* `scrub_eq_self`: a text without words stays as it is.
* `OnePass`, `Repeated`: what is left of a text, by what stands in it, when passages are cut from
  the left in one pass, and when the search starts again after every cut.
* `Unbroken`: no word is begun and broken off by the beginning of another.  No cut of passages that
  begin like words changes that, and no word is interrupted in such a text. -/

namespace AiTrader.Scan

variable {α β : Type*}

/-- `re.sub` with nothing; the first `skip` characters belong to the match before. -/
def remove (m : Pattern α β) : ℕ → List α → List α
  | _, [] => []
  | skip + 1, _ :: cs => remove m skip cs
  | 0, c :: cs =>
      match m (c :: cs) with
      | some (_, len) => remove m (len - 1) cs
      | none => c :: remove m 0 cs

section
variable {m : Pattern α β} {v : β} {len : ℕ} {c : α} {cs : List α}

theorem remove_skip (skip : ℕ) (cs : List α) : remove m skip cs = remove m 0 (cs.drop skip) := by
  induction cs generalizing skip with
  | nil => cases skip <;> rfl
  | cons c cs ih =>
      cases skip with
      | zero => rfl
      | succ skip => exact ih skip

theorem remove_match (h : m cs = some (v, len)) (hlen : 0 < len) (hcs : cs ≠ []) :
    remove m 0 cs = remove m 0 (cs.drop len) := by
  obtain ⟨c, cs, rfl⟩ := List.exists_cons_of_ne_nil hcs
  obtain ⟨n, rfl⟩ := Nat.exists_eq_add_of_lt hlen
  rw [remove, h]
  simp only [Nat.zero_add, Nat.add_sub_cancel, List.drop_succ_cons]
  exact remove_skip n cs

theorem remove_cons (h : m (c :: cs) = none) : remove m 0 (c :: cs) = c :: remove m 0 cs := by
  rw [remove, h]

theorem remove_append {b r : List α} (h : ∀ s, s <:+ b → s ≠ [] → m (s ++ r) = none) :
    remove m 0 (b ++ r) = b ++ remove m 0 r := by
  induction b with
  | nil => rfl
  | cons c b ih =>
      have hnone : m (c :: (b ++ r)) = none := h (c :: b) List.suffix_rfl (by simp)
      rw [List.cons_append, remove_cons hnone, ih fun s hs => h s (hs.trans (List.suffix_cons c b)),
        List.cons_append]

/-- A pattern that begins with characters that do not stand in the text takes nothing. -/
theorem remove_eq_self {pat : List α} (hm : StartsWith pat m) (h : ¬ pat <:+: cs) :
    remove m 0 cs = cs := by
  induction cs with
  | nil => rfl
  | cons c cs ih =>
      rw [remove_cons (hm _ fun hpre => h hpre.isInfix),
        ih fun hin => h (hin.trans (List.suffix_cons c cs).isInfix)]

end

/-! ### What is left, by what stands in the text -/

section
variable (passage : List α → List α → Prop)

/-- No passage begins in `b`, where the text goes on with `r`. -/
def NoneIn (b r : List α) : Prop := ∀ s post, s <:+ b → s ≠ [] → ¬ passage (s ++ r) post

/-- The first passage is cut, then the first one after it.  `passage s post`: a passage stands at
the head of `s`, and `post` after it. -/
inductive OnePass : List α → List α → Prop where
  | none {text : List α} (h : NoneIn passage text []) : OnePass text text
  | cut {pre s post rest : List α} (hfirst : NoneIn passage pre s) (h : passage s post)
      (hrest : OnePass post rest) : OnePass (pre ++ s) (pre ++ rest)

/-- The first passage is cut, then the first one of what is left, closed up. -/
inductive Repeated : List α → List α → Prop where
  | none {text : List α} (h : NoneIn passage text []) : Repeated text text
  | cut {pre s post rest : List α} (hfirst : NoneIn passage pre s) (h : passage s post)
      (hrest : Repeated (pre ++ post) rest) : Repeated (pre ++ s) rest

end

section
variable {passage : List α → List α → Prop} {m : Pattern α β} {pre s post text rest : List α}

/-- The pattern matches where a passage stands. -/
def Finds (m : Pattern α β) (passage : List α → List α → Prop) : Prop :=
  ∀ s, (∃ post, passage s post) ↔ ∃ v len, m s = some (v, len)

/-- It matches the whole passage. -/
def Takes (m : Pattern α β) (passage : List α → List α → Prop) : Prop :=
  ∀ s post, passage s post ↔ ∃ v len, m s = some (v, len) ∧ post = s.drop len

theorem Takes.finds (hm : Takes m passage) : Finds m passage := by
  intro s
  constructor
  · rintro ⟨post, h⟩
    obtain ⟨v, len, hsome, -⟩ := (hm s post).mp h
    exact ⟨v, len, hsome⟩
  · rintro ⟨v, len, hsome⟩
    exact ⟨_, (hm s _).mpr ⟨v, len, hsome, rfl⟩⟩

theorem Finds.noneIn_iff (hm : Finds m passage) :
    NoneIn passage pre s ↔ ∀ t, t <:+ pre → t ≠ [] → m (t ++ s) = none := by
  constructor
  · intro h t ht hne
    rw [Option.eq_none_iff_forall_ne_some]
    intro v hv
    obtain ⟨post, hpost⟩ := (hm _).mpr ⟨v.1, v.2, hv⟩
    exact h t post ht hne hpost
  · intro h t post ht hne hpassage
    obtain ⟨v, len, hsome⟩ := (hm _).mp ⟨post, hpassage⟩
    rw [h t ht hne] at hsome
    cases hsome

theorem OnePass.eq_remove (hm : Takes m passage) (hproper : Proper m)
    (h : OnePass passage text rest) : rest = remove m 0 text := by
  induction h with
  | @none text hnone =>
      have hself := remove_append (hm.finds.noneIn_iff.mp hnone)
      simpa [remove] using hself.symm
  | @cut pre s post rest hfirst hpassage _ ih =>
      obtain ⟨v, len, hsome, rfl⟩ := (hm _ _).mp hpassage
      have hlen := hproper _ _ _ hsome
      have hs : s ≠ [] := by
        rintro rfl
        have hle := hlen.2
        simp at hle
        omega
      rw [remove_append (hm.finds.noneIn_iff.mp hfirst), remove_match hsome hlen.1 hs, ih]

theorem onePass_remove (hm : Takes m passage) (hproper : Proper m) (text : List α) :
    OnePass passage text (remove m 0 text) := by
  induction hlen : text.length using Nat.strong_induction_on generalizing text with
  | _ n ih =>
      rcases exists_first m text with hnone | ⟨pre, s, v, len, rfl, hne, hsome, hfirst⟩
      · have hnone' : ∀ s, s <:+ text → s ≠ [] → m (s ++ []) = none := by
          simpa using hnone
        have hself := remove_append hnone'
        simp only [List.append_nil, remove] at hself
        rw [hself]
        exact .none (hm.finds.noneIn_iff.mpr hnone')
      · have hpos := hproper _ _ _ hsome
        rw [remove_append hfirst, remove_match hsome hpos.1 hne]
        refine .cut (hm.finds.noneIn_iff.mpr hfirst) ((hm _ _).mpr ⟨v, len, hsome, rfl⟩) (ih _ ?_ _ rfl)
        rw [← hlen, List.length_drop, List.length_append]
        omega

theorem onePass_iff (hm : Takes m passage) (hproper : Proper m) :
    OnePass passage text rest ↔ rest = remove m 0 text := by
  constructor
  · exact fun h => h.eq_remove hm hproper
  · rintro rfl
    exact onePass_remove hm hproper text

end

section
variable [BEq α]

/-- The first of the words that stands at the head. -/
def anyOf (words : List (List α)) : Pattern α Unit := fun cs =>
  (words.find? fun w => w.isPrefixOf cs).map fun w => ((), w.length)

def scrub (words : List (List α)) (cs : List α) : List α := remove (anyOf words) 0 cs

end

/-- Words that begin with `a`, do not go on with it, and are no beginnings of one another. -/
structure Marks (a : α) (words : List (List α)) : Prop where
  head : ∀ w ∈ words, w.head? = some a
  once : ∀ w ∈ words, a ∉ w.tail
  apart : ∀ w ∈ words, ∀ w' ∈ words, w <+: w' → w = w'

/-- The characters of `w`, with whole words before some of them. -/
inductive Woven (words : List (List α)) : List α → List α → Prop where
  | nil : Woven words [] []
  | cons {w b : List α} (c : α) (gap : List (List α)) (hgap : ∀ x ∈ gap, x ∈ words)
      (h : Woven words w b) : Woven words (c :: w) (gap.flatten ++ c :: b)

/-- A word stands in the text with whole words between its characters. -/
def Interrupted (words : List (List α)) (cs : List α) : Prop :=
  ∃ c w pre b post, c :: w ∈ words ∧ cs = pre ++ c :: b ++ post ∧ Woven words w b ∧ b ≠ w

/-- No word is begun and broken off by `a`. -/
def Unbroken (a : α) (words : List (List α)) (cs : List α) : Prop :=
  ∀ u v, u ++ v ∈ words → u ≠ [] → v ≠ [] → ¬ u ++ [a] <:+: cs

section
variable [BEq α] [LawfulBEq α] {a : α} {words : List (List α)} {w r cs : List α} {c : α}

/-! ### One word, one character -/

omit [BEq α] [LawfulBEq α] in
theorem Marks.eq_cons (hw : Marks a words) (h : w ∈ words) : w = a :: w.tail := by
  have := hw.head w h
  cases w with
  | nil => cases this
  | cons c w => simpa using this

theorem anyOf_eq_none (h : ∀ w ∈ words, ¬ w <+: cs) : anyOf words cs = none := by
  rw [anyOf, Option.map_eq_none_iff, List.find?_eq_none]
  intro w hw
  rw [List.isPrefixOf_iff_prefix]
  exact h w hw

theorem Marks.anyOf_eq (hm : Marks a words) (hw : w ∈ words) (r : List α) :
    anyOf words (w ++ r) = some ((), w.length) := by
  cases hfind : words.find? fun x => x.isPrefixOf (w ++ r) with
  | none =>
      have := List.find?_eq_none.mp hfind w hw
      rw [List.isPrefixOf_iff_prefix] at this
      exact absurd (List.prefix_append w r) this
  | some x =>
      have hx := List.mem_of_find?_eq_some hfind
      have hstands : x.isPrefixOf (w ++ r) = true := by
        simpa using List.find?_some hfind
      have hpre := List.isPrefixOf_iff_prefix.mp hstands
      have heq : x = w := by
        rcases List.prefix_or_prefix_of_prefix hpre (List.prefix_append w r) with h | h
        · exact hm.apart x hx w hw h
        · exact (hm.apart w hw x hx h).symm
      rw [anyOf, hfind, heq]
      rfl

theorem Marks.scrub_mark (hm : Marks a words) (hw : w ∈ words) (r : List α) :
    scrub words (w ++ r) = scrub words r := by
  have hcons := hm.eq_cons hw
  rw [scrub, remove_match (hm.anyOf_eq hw r) (by rw [hcons]; exact Nat.succ_pos _)
    (by rw [hcons]; simp), List.drop_left, scrub]

theorem scrub_char (h : ∀ w ∈ words, ¬ w <+: c :: r) : scrub words (c :: r) = c :: scrub words r :=
  remove_cons (anyOf_eq_none h)

theorem scrub_eq_self (h : ∀ w ∈ words, ¬ w <:+: cs) : scrub words cs = cs := by
  induction cs with
  | nil => rfl
  | cons c cs ih =>
      rw [scrub_char fun w hw hpre => h w hw hpre.isInfix,
        ih fun w hw hin => h w hw (hin.trans (List.suffix_cons c cs).isInfix)]

omit [BEq α] [LawfulBEq α] in
/-- A text is read word by word and, where no word stands, character by character. -/
theorem Marks.induction (hm : Marks a words) {P : List α → Prop} (nil : P [])
    (mark : ∀ w ∈ words, ∀ r, P r → P (w ++ r))
    (char : ∀ c r, (∀ w ∈ words, ¬ w <+: c :: r) → P r → P (c :: r)) (cs : List α) : P cs := by
  induction hlen : cs.length using Nat.strong_induction_on generalizing cs with
  | _ n ih =>
      cases cs with
      | nil => exact nil
      | cons c r =>
          by_cases hstands : ∃ w ∈ words, w <+: c :: r
          · obtain ⟨w, hw, rest, hrest⟩ := hstands
            rw [← hrest]
            refine mark w hw rest (ih rest.length ?_ rest rfl)
            have hpos : 0 < w.length := by
              rw [hm.eq_cons hw]
              exact Nat.succ_pos _
            rw [← hlen, ← hrest, List.length_append]
            omega
          · refine char c r (fun w hw hpre => hstands ⟨w, hw, hpre⟩) (ih r.length ?_ r rfl)
            rw [← hlen]
            simp

/-! ### What is left -/

theorem Marks.exists_of_scrub (hm : Marks a words) {p q : List α}
    (h : scrub words cs = p ++ c :: q) :
    ∃ pre r, cs = pre ++ c :: r ∧ scrub words r = q ∧ ∀ w ∈ words, ¬ w <+: c :: r := by
  induction cs using hm.induction generalizing p with
  | nil => simp [scrub, remove] at h
  | mark w hw r ih =>
      rw [hm.scrub_mark hw] at h
      obtain ⟨pre, r', rfl, hq, hnone⟩ := ih h
      exact ⟨w ++ pre, r', by simp, hq, hnone⟩
  | char d r hnone ih =>
      rw [scrub_char hnone] at h
      cases p with
      | nil =>
          obtain ⟨rfl, hq⟩ := List.cons.inj h
          exact ⟨[], r, rfl, hq, hnone⟩
      | cons x p =>
          obtain ⟨rfl, hrest⟩ := List.cons.inj h
          obtain ⟨pre, r', rfl, hq, hnone⟩ := ih hrest
          exact ⟨d :: pre, r', rfl, hq, hnone⟩

/-- What is left at the head stood there, woven with words. -/
theorem Marks.woven_of_scrub (hm : Marks a words) {u q : List α} (h : scrub words cs = u ++ q) :
    ∃ b post, cs = b ++ post ∧ Woven words u b := by
  induction cs using hm.induction generalizing u with
  | nil =>
      obtain ⟨rfl, -⟩ := List.append_eq_nil_iff.mp h.symm
      exact ⟨[], [], rfl, .nil⟩
  | mark w hw r ih =>
      rw [hm.scrub_mark hw] at h
      obtain ⟨b, post, rfl, hwoven⟩ := ih h
      cases hwoven with
      | nil => exact ⟨[], w ++ ([] ++ post), rfl, .nil⟩
      | cons c gap hgap hrest =>
          refine ⟨w ++ (gap.flatten ++ c :: _), post, (List.append_assoc _ _ _).symm, ?_⟩
          rw [← List.append_assoc, ← List.flatten_cons]
          refine .cons c (w :: gap) (fun x hx => ?_) hrest
          rcases List.mem_cons.mp hx with rfl | hx
          · exact hw
          · exact hgap x hx
  | char d r hnone ih =>
      cases u with
      | nil => exact ⟨[], d :: r, rfl, .nil⟩
      | cons x u =>
          rw [scrub_char hnone, List.cons_append] at h
          obtain ⟨rfl, hrest⟩ := List.cons.inj h
          obtain ⟨b, post, rfl, hwoven⟩ := ih hrest
          exact ⟨d :: b, post, rfl, .cons d [] (by simp) hwoven⟩

theorem Marks.interrupted_of_infix (hm : Marks a words) (hw : w ∈ words)
    (h : w <:+: scrub words cs) : Interrupted words cs := by
  obtain ⟨p, q, hpq⟩ := h
  have hcons := hm.eq_cons hw
  rw [List.append_assoc, hcons, List.cons_append] at hpq
  obtain ⟨pre, r, rfl, hr, hnone⟩ := hm.exists_of_scrub hpq.symm
  obtain ⟨b, post, rfl, hwoven⟩ := hm.woven_of_scrub hr
  refine ⟨a, w.tail, pre, b, post, hcons ▸ hw, by simp, hwoven, ?_⟩
  rintro rfl
  refine hnone w hw ?_
  conv_lhs => rw [hcons]
  exact List.cons_prefix_cons.mpr ⟨rfl, List.prefix_append _ _⟩

/-! ### What was interrupted -/

/-- Text before the first character of a word is cut as if it stood alone. -/
theorem Marks.scrub_append (hm : Marks a words) (pre r : List α) :
    scrub words (pre ++ a :: r) = scrub words pre ++ scrub words (a :: r) := by
  induction pre using hm.induction with
  | nil => rfl
  | mark w hw pre ih => rw [List.append_assoc, hm.scrub_mark hw, hm.scrub_mark hw, ih]
  | char c pre hnone ih =>
      have hnone' : ∀ w ∈ words, ¬ w <+: c :: (pre ++ a :: r) := fun w hw hpre =>
        hnone w hw (prefix_of_prefix_append_cons (b := c :: pre) (hm.once w hw) (by simp) hpre)
      rw [List.cons_append, scrub_char hnone', scrub_char hnone, ih, List.cons_append]

theorem Marks.scrub_flatten (hm : Marks a words) {gap : List (List α)}
    (hgap : ∀ x ∈ gap, x ∈ words) (r : List α) :
    scrub words (gap.flatten ++ r) = scrub words r := by
  induction gap with
  | nil => rfl
  | cons x gap ih =>
      rw [List.flatten_cons, List.append_assoc, hm.scrub_mark (hgap x List.mem_cons_self),
        ih fun y hy => hgap y (List.mem_cons_of_mem x hy)]

theorem Marks.scrub_woven (hm : Marks a words) {b : List α} (h : Woven words w b) (hw : a ∉ w)
    (post : List α) : scrub words (b ++ post) = w ++ scrub words post := by
  induction h with
  | nil => rfl
  | @cons w b c gap hgap _ ih =>
      have hc : ∀ x ∈ words, ¬ x <+: c :: (b ++ post) := by
        intro x hx hpre
        rw [hm.eq_cons hx, List.cons_prefix_cons] at hpre
        exact hw (hpre.1 ▸ List.mem_cons_self)
      rw [List.append_assoc, hm.scrub_flatten hgap, List.cons_append, scrub_char hc,
        ih fun hin => hw (List.mem_cons_of_mem c hin), List.cons_append]

omit [BEq α] [LawfulBEq α] in
/-- Where characters are interrupted, a word begins after some of them. -/
theorem Marks.exists_gap (hm : Marks a words) {b : List α} (h : Woven words w b) (hne : b ≠ w) :
    ∃ u v rest, w = u ++ v ∧ v ≠ [] ∧ b = u ++ a :: rest := by
  induction h with
  | nil => exact absurd rfl hne
  | @cons w b c gap hgap _ ih =>
      cases gap with
      | nil =>
          obtain ⟨u, v, rest, rfl, hv, rfl⟩ := ih fun h => hne (by rw [h]; rfl)
          exact ⟨c :: u, v, rest, rfl, hv, rfl⟩
      | cons x gap =>
          refine ⟨[], c :: w, x.tail ++ gap.flatten ++ c :: b, rfl, by simp, ?_⟩
          conv_lhs => rw [List.flatten_cons, hm.eq_cons (hgap x List.mem_cons_self)]
          simp

theorem Marks.infix_of_interrupted (hm : Marks a words) (h : Interrupted words cs) :
    ∃ w ∈ words, w <:+: scrub words cs := by
  obtain ⟨c, w, pre, b, post, hmem, rfl, hwoven, hne⟩ := h
  obtain rfl : c = a := by simpa using hm.head _ hmem
  have hw : c ∉ w := hm.once _ hmem
  obtain ⟨u, v, rest, hwuv, hv, hb⟩ := hm.exists_gap hwoven hne
  have hnone : ∀ x ∈ words, ¬ x <+: c :: (b ++ post) := by
    intro x hx hpre
    have hpre' : x <+: c :: u ++ c :: (rest ++ post) := by
      simpa [hb] using hpre
    have hshort : x <+: c :: u :=
      prefix_of_prefix_append_cons (hm.once x hx) (by simp) hpre'
    have hlong : c :: u <+: c :: w := by
      rw [hwuv, ← List.cons_append]
      exact List.prefix_append _ v
    obtain rfl := hm.apart x hx _ hmem (hshort.trans hlong)
    have hlen := hshort.length_le
    rw [hwuv] at hlen
    simp only [List.length_cons, List.length_append] at hlen
    exact hv (List.length_eq_zero_iff.mp (by omega))
  refine ⟨c :: w, hmem, scrub words pre, scrub words post, ?_⟩
  have hmiddle : scrub words (c :: (b ++ post)) = c :: (w ++ scrub words post) := by
    rw [scrub_char hnone, hm.scrub_woven hwoven hw]
  rw [List.append_assoc pre, List.cons_append, hm.scrub_append, hmiddle, List.append_assoc,
    List.cons_append]

/-- **What is left.**  A text without some of its words holds a word exactly if one was
interrupted. -/
theorem Marks.exists_infix_scrub_iff (hm : Marks a words) :
    (∃ w ∈ words, w <:+: scrub words cs) ↔ Interrupted words cs := by
  constructor
  · rintro ⟨w, hw, hin⟩
    exact hm.interrupted_of_infix hw hin
  · exact hm.infix_of_interrupted

/-! ### Where nothing is broken off -/

section
omit [BEq α] [LawfulBEq α]
variable {passage : List α → List α → Prop} {pre post rest : List α}

theorem Unbroken.mono (h : Unbroken a words cs) (hr : r <:+: cs) : Unbroken a words r :=
  fun u v hmem hu hv hin => h u v hmem hu hv (hin.trans hr)

/-- What closes up where a passage was cut is no broken word either. -/
theorem Unbroken.append (hpre : Unbroken a words (pre ++ a :: r)) (hrest : Unbroken a words rest) :
    Unbroken a words (pre ++ rest) := by
  rintro u v hmem hu hv ⟨p, q, hpq⟩
  rcases List.append_eq_append_iff.mp hpq with ⟨d, rfl, -⟩ | ⟨d, hd, rfl⟩
  · exact hpre u v hmem hu hv ⟨p, d ++ a :: r, by simp⟩
  rcases List.append_eq_append_iff.mp hd with ⟨e, rfl, he⟩ | ⟨e, rfl, rfl⟩
  · -- the cut lies between `e` and `d`
    rcases List.eq_nil_or_concat' d with rfl | ⟨d, x, rfl⟩
    · rw [List.append_nil] at he
      exact hpre u v hmem hu hv ⟨p, a :: r, by rw [he]⟩
    · rw [← List.append_assoc] at he
      obtain ⟨rfl, hx⟩ := List.append_inj' he rfl
      obtain rfl : a = x := by simpa using hx
      rcases List.eq_nil_or_concat' e with rfl | ⟨e, y, rfl⟩
      · exact hrest _ v hmem hu hv ⟨[], q, by simp⟩
      · exact hpre (e ++ [y]) (d ++ v) (by simpa using hmem) (by simp) (by simp [hv])
          ⟨p, r, by simp⟩
  · exact hrest u v hmem hu hv ⟨e, q, by simp⟩

theorem Marks.not_interrupted (hm : Marks a words) (h : Unbroken a words cs) :
    ¬ Interrupted words cs := by
  rintro ⟨c, w, pre, b, post, hmem, rfl, hwoven, hne⟩
  obtain rfl : c = a := by simpa using hm.head _ hmem
  obtain ⟨u, v, rest, rfl, hv, rfl⟩ := hm.exists_gap hwoven hne
  exact h (c :: u) v hmem (by simp) hv ⟨pre, rest ++ post, by simp⟩

/-- Every passage begins with `a`. -/
def BeginsWith (a : α) (passage : List α → List α → Prop) : Prop :=
  ∀ s post, passage s post → ∃ w, s = a :: w ++ post

theorem Unbroken.onePass (hp : BeginsWith a passage) (hcs : Unbroken a words cs)
    (h : OnePass passage cs rest) : Unbroken a words rest := by
  induction h with
  | none => exact hcs
  | @cut pre s post rest hfirst hpassage _ ih =>
      obtain ⟨w, rfl⟩ := hp _ _ hpassage
      exact hcs.append (ih (hcs.mono ⟨pre ++ a :: w, [], by simp⟩))

theorem Unbroken.repeated (hp : BeginsWith a passage) (hcs : Unbroken a words cs)
    (h : Repeated passage cs rest) : Unbroken a words rest := by
  induction h with
  | none => exact hcs
  | @cut pre s post rest hfirst hpassage _ ih =>
      obtain ⟨w, rfl⟩ := hp _ _ hpassage
      exact ih (hcs.append (hcs.mono ⟨pre ++ a :: w, [], by simp⟩))

end

end

end AiTrader.Scan
