import Mathlib.Data.List.Basic
import Mathlib.Data.List.Infix

/-! # Searching a text

A pattern says whether it matches at the head of a text, what it reads there and how many
characters it takes.  `findIter` finds its matches from the left, none of them overlapping.

* `findIter_match`, `findIter_append`: a match at the head, and a part of the text without one.
* `findIter_startsWith`: a part of the text in which the first characters of the pattern do not
  occur.
* `mem_findIter`, `findIter_ordered`, `exists_mem_findIter`: what is found is a match, in order, and
  no match is missed but for one that overlaps another. -/

namespace AiTrader.Scan

variable {α β : Type*}

/-- What a pattern reads at the head of a text, and over how many characters. -/
abbrev Pattern (α β : Type*) := List α → Option (β × ℕ)

structure Match (β : Type*) where
  start : ℕ
  value : β
  stop : ℕ
deriving DecidableEq, Repr

/-- The matches from position `pos` on; the first `skip` characters belong to the match before. -/
def findIter (m : Pattern α β) : ℕ → ℕ → List α → List (Match β)
  | _, _, [] => []
  | skip + 1, pos, _ :: cs => findIter m skip (pos + 1) cs
  | 0, pos, c :: cs =>
      match m (c :: cs) with
      | some (v, len) => ⟨pos, v, pos + len⟩ :: findIter m (len - 1) (pos + 1) cs
      | none => findIter m 0 (pos + 1) cs

/-- A text as it is. -/
def literal [BEq α] (pat : List α) : Pattern α Unit := fun cs =>
  if pat.isPrefixOf cs then some ((), pat.length) else none

/-- The pattern begins with the characters `pat`. -/
def StartsWith (pat : List α) (m : Pattern α β) : Prop := ∀ cs, ¬ pat <+: cs → m cs = none

/-- The pattern takes at least a character, and no more than there are. -/
def Proper (m : Pattern α β) : Prop := ∀ cs v len, m cs = some (v, len) → 0 < len ∧ len ≤ cs.length

section
variable {m : Pattern α β} {pos len : ℕ} {v : β} {b cs : List α}

/-! ### One part of the text after the other -/

theorem findIter_skip (skip : ℕ) :
    findIter m skip pos cs = findIter m 0 (pos + skip) (cs.drop skip) := by
  induction cs generalizing skip pos with
  | nil => cases skip <;> simp [findIter]
  | cons c cs ih =>
      cases skip with
      | zero => rfl
      | succ skip =>
          rw [findIter, ih, List.drop_succ_cons]
          congr 1
          omega

/-- The first match is at the head. -/
theorem findIter_match (h : m cs = some (v, len)) (hlen : 0 < len) (hcs : cs ≠ []) :
    findIter m 0 pos cs = ⟨pos, v, pos + len⟩ :: findIter m 0 (pos + len) (cs.drop len) := by
  obtain ⟨c, cs, rfl⟩ := List.exists_cons_of_ne_nil hcs
  obtain ⟨n, rfl⟩ := Nat.exists_eq_add_of_lt hlen
  rw [findIter, h]
  simp only [Nat.zero_add, Nat.add_sub_cancel, List.drop_succ_cons]
  rw [findIter_skip]
  congr 2
  omega

/-- Nothing matches in a part of the text. -/
theorem findIter_append (r : List α) (h : ∀ s, s <:+ b → s ≠ [] → m (s ++ r) = none) :
    findIter m 0 pos (b ++ r) = findIter m 0 (pos + b.length) r := by
  induction b generalizing pos with
  | nil => rfl
  | cons c b ih =>
      rw [List.cons_append, findIter, ← List.cons_append, h _ List.suffix_rfl (by simp)]
      dsimp only
      rw [ih fun s hs => h s (hs.trans (List.suffix_cons c b)), List.length_cons]
      congr 1
      omega

/-! ### Where a pattern cannot begin -/

theorem prefix_of_prefix_append_cons {pat r : List α} {s : α} (hs : s ∉ pat.tail) (hb : b ≠ [])
    (h : pat <+: b ++ s :: r) : pat <+: b := by
  rcases List.prefix_or_prefix_of_prefix h (List.prefix_append b (s :: r)) with hpre | ⟨q, rfl⟩
  · exact hpre
  · obtain ⟨c, b, rfl⟩ := List.exists_cons_of_ne_nil hb
    cases q with
    | nil => simp
    | cons x q =>
        rw [List.prefix_append_right_inj, List.cons_prefix_cons] at h
        simp [h.1] at hs

theorem infix_append_cons {pat r : List α} {s : α} (hs : s ∉ pat.tail)
    (h : pat <:+: b ++ s :: r) : pat <:+: b ∨ pat <:+: s :: r := by
  induction b with
  | nil => exact .inr h
  | cons c b ih =>
      rcases List.infix_cons_iff.mp h with hpre | hin
      · exact .inl (prefix_of_prefix_append_cons hs (by simp) hpre).isInfix
      · exact (ih hin).imp_left fun hin => hin.trans (List.infix_cons List.infix_rfl)

theorem infix_of_infix_append {pat r : List α} {p : α} (hp : pat.head? = some p) (hb : p ∉ b)
    (h : pat <:+: b ++ r) : pat <:+: r := by
  induction b with
  | nil => exact h
  | cons c b ih =>
      rcases List.infix_cons_iff.mp h with hpre | hin
      · obtain ⟨q, hq⟩ := hpre
        cases pat with
        | nil => cases hp
        | cons x pat =>
            obtain rfl : x = p := by simpa using hp
            simp [(List.cons.inj hq).1] at hb
      · exact ih (fun hin => hb (List.mem_cons_of_mem _ hin)) hin

/-- Where the first characters of the pattern do not occur there is no match. -/
theorem findIter_startsWith {pat r : List α} (hm : StartsWith pat m) (hb : ¬ pat <:+: b)
    (hr : ∀ s ∈ r.head?, s ∉ pat.tail) :
    findIter m 0 pos (b ++ r) = findIter m 0 (pos + b.length) r := by
  apply findIter_append
  intro s hs hne
  apply hm
  intro hpre
  apply hb
  refine List.IsInfix.trans ?_ hs.isInfix
  cases r with
  | nil => simpa using hpre.isInfix
  | cons x r => exact (prefix_of_prefix_append_cons (hr x (by simp)) hne hpre).isInfix

/-! ### What is found -/

theorem mem_findIter_skip {skip : ℕ} {x : Match β} (h : x ∈ findIter m skip pos cs) :
    ∃ pre suf len, cs = pre ++ suf ∧ m suf = some (x.value, len) ∧ x.start = pos + pre.length ∧
      x.stop = pos + pre.length + len ∧ skip ≤ pre.length := by
  induction cs generalizing skip pos with
  | nil => cases skip <;> cases h
  | cons c cs ih =>
      have hcons : ∀ skip, x ∈ findIter m skip (pos + 1) cs → ∃ pre suf len,
          c :: cs = pre ++ suf ∧ m suf = some (x.value, len) ∧ x.start = pos + pre.length ∧
            x.stop = pos + pre.length + len ∧ skip + 1 ≤ pre.length := by
        intro skip h
        obtain ⟨pre, suf, len, rfl, hm, hstart, hstop, hskip⟩ := ih h
        refine ⟨c :: pre, suf, len, rfl, hm, ?_, ?_, ?_⟩ <;> simp only [List.length_cons] <;> omega
      cases skip with
      | succ skip => exact hcons skip h
      | zero =>
          rw [findIter] at h
          cases hm : m (c :: cs) with
          | none =>
              rw [hm] at h
              obtain ⟨pre, suf, len, hcs, hsuf, hstart, hstop, -⟩ := hcons 0 h
              exact ⟨pre, suf, len, hcs, hsuf, hstart, hstop, Nat.zero_le _⟩
          | some w =>
              obtain ⟨v, len⟩ := w
              rw [hm] at h
              rcases List.mem_cons.mp h with rfl | h
              · exact ⟨[], c :: cs, len, rfl, hm, rfl, rfl, Nat.zero_le _⟩
              · obtain ⟨pre, suf, len, hcs, hsuf, hstart, hstop, -⟩ := hcons _ h
                exact ⟨pre, suf, len, hcs, hsuf, hstart, hstop, Nat.zero_le _⟩

/-- What is found is a match in its place. -/
theorem mem_findIter {x : Match β} (h : x ∈ findIter m 0 pos cs) : ∃ pre suf len,
    cs = pre ++ suf ∧ m suf = some (x.value, len) ∧ x.start = pos + pre.length ∧
      x.stop = pos + pre.length + len := by
  obtain ⟨pre, suf, len, hcs, hm, hstart, hstop, -⟩ := mem_findIter_skip h
  exact ⟨pre, suf, len, hcs, hm, hstart, hstop⟩

/-- Nothing matches, or there is a first match. -/
theorem exists_first (m : Pattern α β) (text : List α) :
    (∀ s, s <:+ text → s ≠ [] → m s = none) ∨ ∃ pre s v len, text = pre ++ s ∧ s ≠ [] ∧
      m s = some (v, len) ∧ ∀ t, t <:+ pre → t ≠ [] → m (t ++ s) = none := by
  induction text with
  | nil =>
      left
      intro s hs hne
      exact absurd (List.suffix_nil.mp hs) hne
  | cons c text ih =>
      cases hc : m (c :: text) with
      | some w => exact .inr ⟨[], c :: text, w.1, w.2, rfl, by simp, hc, by simp⟩
      | none =>
          rcases ih with hnone | ⟨pre, s, v, len, rfl, hne, hsome, hfirst⟩
          · left
            intro s hs hne
            rcases List.suffix_cons_iff.mp hs with rfl | hs
            · exact hc
            · exact hnone s hs hne
          · refine .inr ⟨c :: pre, s, v, len, rfl, hne, hsome, ?_⟩
            intro t ht hne
            rcases List.suffix_cons_iff.mp ht with rfl | ht
            · exact hc
            · exact hfirst t ht hne

/-- A match starts where the one before it has ended, or later. -/
theorem findIter_ordered (hm : Proper m) (skip : ℕ) :
    (findIter m skip pos cs).Pairwise fun x y => x.stop ≤ y.start := by
  induction cs generalizing skip pos with
  | nil => cases skip <;> exact .nil
  | cons c cs ih =>
      cases skip with
      | succ skip => exact ih skip
      | zero =>
          rw [findIter]
          cases hw : m (c :: cs) with
          | none => exact ih 0
          | some w =>
              obtain ⟨v, len⟩ := w
              refine List.pairwise_cons.mpr ⟨fun y hy => ?_, ih _⟩
              obtain ⟨pre, suf, n, -, -, hstart, -, hskip⟩ := mem_findIter_skip hy
              have := (hm _ _ _ hw).1
              dsimp only
              omega

/-- Where the pattern matches a match is found, or one that begins before and overlaps. -/
theorem exists_mem_findIter (hm : Proper m) {pre suf : List α} {skip : ℕ}
    (hcs : cs = pre ++ suf) (h : m suf = some (v, len)) (hskip : skip ≤ pre.length) :
    ∃ x ∈ findIter m skip pos cs, x.start ≤ pos + pre.length ∧ pos + pre.length < x.stop := by
  have hlen := hm _ _ _ h
  induction cs generalizing skip pos pre with
  | nil =>
      obtain ⟨-, rfl⟩ := List.append_eq_nil_iff.mp hcs.symm
      simp at hlen
      omega
  | cons c cs ih =>
      cases pre with
      | nil =>
          obtain rfl : skip = 0 := by simpa using hskip
          rw [findIter, hcs, List.nil_append, h]
          exact ⟨_, List.mem_cons_self, by simp, by simpa using hlen.1⟩
      | cons d pre =>
          obtain ⟨-, hcs⟩ := List.cons.inj hcs
          have htail : ∀ skip, skip ≤ pre.length → ∃ x ∈ findIter m skip (pos + 1) cs,
              x.start ≤ pos + (d :: pre).length ∧ pos + (d :: pre).length < x.stop := by
            intro skip hskip
            have hfind : ∃ x ∈ findIter m skip (pos + 1) cs,
                x.start ≤ pos + 1 + pre.length ∧ pos + 1 + pre.length < x.stop := ih hcs hskip
            obtain ⟨x, hx, hstart, hstop⟩ := hfind
            refine ⟨x, hx, ?_, ?_⟩ <;> simp only [List.length_cons] <;> omega
          cases skip with
          | succ skip => exact htail skip (by simpa using hskip)
          | zero =>
              rw [findIter]
              cases hw : m (c :: cs) with
              | none => exact htail 0 (Nat.zero_le _)
              | some w =>
                  obtain ⟨v', n⟩ := w
                  have hn := (hm _ _ _ hw).1
                  dsimp only
                  by_cases hcover : (d :: pre).length < n
                  · exact ⟨_, List.mem_cons_self, by simp, by dsimp only; omega⟩
                  · obtain ⟨x, hx, hbounds⟩ := htail (n - 1) (by simp at hcover; omega)
                    exact ⟨x, List.mem_cons_of_mem _ hx, hbounds⟩

/-! ### Literals -/

section
variable {pat : List α}

/-- The text stands at the position. -/
def OccursAt (pat cs : List α) (i : ℕ) : Prop := pat <+: cs.drop i

theorem OccursAt.drop {i : ℕ} (h : OccursAt pat cs i) (k : ℕ) :
    OccursAt (pat.drop k) cs (i + k) := by
  obtain ⟨r, hr⟩ := h
  unfold OccursAt
  rw [← List.drop_drop, ← hr, List.drop_append]
  exact List.prefix_append _ _

theorem OccursAt.prefix_of_le {pat' : List α} {i : ℕ} (h : OccursAt pat cs i)
    (h' : OccursAt pat' cs i) (hle : pat.length ≤ pat'.length) : pat <+: pat' :=
  List.prefix_of_prefix_length_le h h' hle

theorem OccursAt.infix_of_inside {pat' : List α} {i j : ℕ} (h : OccursAt pat cs i)
    (h' : OccursAt pat' cs j) (hij : i ≤ j) (hstop : j + pat'.length ≤ i + pat.length) :
    pat' <:+: pat := by
  have hdrop := h.drop (j - i)
  rw [Nat.add_sub_cancel' hij] at hdrop
  have hpre := h'.prefix_of_le hdrop (by rw [List.length_drop]; omega)
  exact hpre.isInfix.trans (List.drop_suffix _ _).isInfix

/-- A text that runs past the end of another begins with what is left of it. -/
theorem OccursAt.prefix_of_overlap {pat' : List α} {i j : ℕ} (h : OccursAt pat cs i)
    (h' : OccursAt pat' cs j) (hij : i ≤ j) (hstop : i + pat.length ≤ j + pat'.length) :
    pat.drop (j - i) <+: pat' := by
  have hdrop := h.drop (j - i)
  rw [Nat.add_sub_cancel' hij] at hdrop
  exact hdrop.prefix_of_le h' (by rw [List.length_drop]; omega)

end

section
variable [BEq α] [LawfulBEq α] {pat : List α}

theorem literal_eq_some {n : ℕ} {u : Unit} :
    literal pat cs = some (u, n) ↔ pat <+: cs ∧ n = pat.length := by
  unfold literal
  rw [← List.isPrefixOf_iff_prefix]
  split
  · rename_i h
    simp [h, eq_comm]
  · rename_i h
    simp [h]

theorem literal_startsWith (pat : List α) : StartsWith pat (literal pat) := by
  intro cs h
  unfold literal
  rw [← List.isPrefixOf_iff_prefix] at h
  exact if_neg h

theorem literal_proper (h : pat ≠ []) : Proper (literal pat) := by
  intro cs u n hlit
  obtain ⟨hpre, rfl⟩ := literal_eq_some.mp hlit
  exact ⟨List.length_pos_iff.mpr h, hpre.length_le⟩

theorem mem_findIter_literal {x : Match Unit} (h : x ∈ findIter (literal pat) 0 0 cs) :
    OccursAt pat cs x.start ∧ x.stop = x.start + pat.length := by
  obtain ⟨pre, suf, len, rfl, hm, hstart, hstop⟩ := mem_findIter h
  obtain ⟨hpre, rfl⟩ := literal_eq_some.mp hm
  rw [Nat.zero_add] at hstart hstop
  refine ⟨?_, by omega⟩
  unfold OccursAt
  rwa [hstart, List.drop_left]

theorem exists_first_infix (hpat : pat ≠ []) (h : pat <:+: cs) :
    ∃ pre post, cs = pre ++ (pat ++ post) ∧ ¬ pat <:+: pre := by
  rcases exists_first (literal pat) cs with hnone | ⟨pre, s, u, n, rfl, -, hsome, hfirst⟩
  · obtain ⟨p, q, rfl⟩ := h
    have hlit : literal pat (pat ++ q) = some ((), pat.length) :=
      literal_eq_some.mpr ⟨List.prefix_append _ _, rfl⟩
    rw [hnone (pat ++ q) ⟨p, (List.append_assoc _ _ _).symm⟩ (by simp [hpat])] at hlit
    cases hlit
  · obtain ⟨⟨post, rfl⟩, -⟩ := literal_eq_some.mp hsome
    refine ⟨pre, post, rfl, ?_⟩
    rintro ⟨p, q, rfl⟩
    have hlit : literal pat (pat ++ q ++ (pat ++ post)) = some ((), pat.length) :=
      literal_eq_some.mpr ⟨by simp, rfl⟩
    rw [hfirst (pat ++ q) ⟨p, (List.append_assoc _ _ _).symm⟩ (by simp [hpat])] at hlit
    cases hlit

/-- Where a text stands it is found, or it is found before and overlaps. -/
theorem exists_findIter_literal (hpat : pat ≠ []) {i : ℕ} (h : OccursAt pat cs i) :
    ∃ x ∈ findIter (literal pat) 0 0 cs, x.start ≤ i ∧ i < x.start + pat.length := by
  have hle : i ≤ cs.length := by
    by_contra hlt
    unfold OccursAt at h
    rw [List.drop_eq_nil_of_le (by omega)] at h
    exact hpat (List.prefix_nil.mp h)
  have hmatch : literal pat (cs.drop i) = some ((), pat.length) :=
    literal_eq_some.mpr ⟨h, rfl⟩
  have hfind : ∃ x ∈ findIter (literal pat) 0 0 cs,
      x.start ≤ 0 + (cs.take i).length ∧ 0 + (cs.take i).length < x.stop :=
    exists_mem_findIter (literal_proper hpat) (List.take_append_drop i cs).symm hmatch
      (Nat.zero_le _)
  obtain ⟨x, hx, hstart, hstop⟩ := hfind
  rw [List.length_take_of_le hle, Nat.zero_add] at hstart hstop
  rw [(mem_findIter_literal hx).2] at hstop
  exact ⟨x, hx, hstart, hstop⟩

end

end

end AiTrader.Scan
