import AiTrader.Agent.TextCallRecovery
import Mathlib.Data.List.Pairwise

/-! # Calls found in plain text

Without tokens every occurrence of a registered name takes the first object after it, so two names
before one object share it.  The calls that are executed are separate, and each is the name nearest
before its object, exactly when no further name stands between a name and the object it takes, or
takes an object inside that one (`okCalls_separate_iff`). -/

namespace AiTrader.Agent

open Text Scan PyJson Json

/-! ### Objects and names -/

/-- The position of the first opening brace. -/
def nextOpen (text : List Char) (start : ℕ) : ℕ :=
  start + ((text.drop start).takeWhile fun c => c ≠ '\x7b').length

section
variable (N : NumSyntax PyNum)

/-- The first brace opens a balanced text, and it is a JSON object. -/
def ObjectAt (content : List Char) (start : ℕ) (raw : List Char) : Prop :=
  extractBalancedJson content start = some raw ∧
    (parseArgsFragment N (String.ofList raw)).isSome = true

/-- A registered name, as the scan finds it. -/
def NameFound (content : List Char) (name : String) (i : ℕ) : Prop :=
  name ∈ registeredToolNames ∧ ∃ m ∈ findIter (literal name.toList) 0 0 content, m.start = i

/-- Behind a name that is followed by an object no name stands before that object, and none takes
an object inside it. -/
def Undisturbed (content : List Char) : Prop :=
  ∀ name i raw, NameFound content name i → ObjectAt N content (i + name.toList.length) raw →
    ∀ name' j, NameFound content name' j → i < j →
      nextOpen content (i + name.toList.length) < j + name'.toList.length ∧
        ∀ raw', ObjectAt N content (j + name'.toList.length) raw' →
          nextOpen content (i + name.toList.length) + raw.length ≤
            nextOpen content (j + name'.toList.length)

/-! ### Calls that are executed -/

/-- Where the name ends. -/
def PlainCall.stop (c : PlainCall) : ℕ := c.start + c.name.toList.length

/-- Where the object of the call begins. -/
def PlainCall.objectStart (content : List Char) (c : PlainCall) : ℕ := nextOpen content c.stop

/-- Where the object of the call ends. -/
def PlainCall.objectStop (content : List Char) (c : PlainCall) : ℕ :=
  c.objectStart content + c.rawArgs.length

/-- The calls whose arguments are an object. -/
def okCalls (order : List String) (content : List Char) : List PlainCall :=
  (plainCalls order content).filter fun c =>
    (parseArgsFragment N (String.ofList c.rawArgs)).isSome

/-- Of all registered names that end before the position this one ends last. -/
def NearestName (content : List Char) (name : String) (position : ℕ) : Prop :=
  ∃ i, OccursAt name.toList content i ∧ i + name.toList.length ≤ position ∧
    ∀ name' ∈ registeredToolNames, ∀ j, OccursAt name'.toList content j →
      j + name'.toList.length ≤ position → j + name'.toList.length ≤ i + name.toList.length

/-- The objects of the calls do not overlap in the text. -/
def SeparateObjects (content : List Char) (c d : PlainCall) : Prop :=
  c.objectStop content ≤ d.objectStart content ∨ d.objectStop content ≤ c.objectStart content

instance (content : List Char) : Std.Symm (SeparateObjects content) where
  symm _ _ h := h.symm

/-- One written call gives one executed call. -/
structure OneCallEach (order : List String) (content : List Char) : Prop where
  disjoint : (okCalls N order content).Pairwise (SeparateObjects content)
  nearest : ∀ c ∈ okCalls N order content, NearestName content c.name (c.objectStart content)

end

section
variable {N : NumSyntax PyNum} {order : List String} {content : List Char} {s t i j : ℕ}
  {name name' : String} {c d : PlainCall}

/-! ### The first brace -/

theorem le_nextOpen : s ≤ nextOpen content s := Nat.le_add_right ..

/-- From any place before the first brace it is the first. -/
theorem nextOpen_eq (h : s ≤ t) (h' : t ≤ nextOpen content s) :
    nextOpen content t = nextOpen content s := by
  unfold nextOpen at h' ⊢
  obtain ⟨k, rfl⟩ := Nat.exists_eq_add_of_le h
  have hsplit : content.drop (s + k) =
      ((content.drop s).takeWhile fun c => c ≠ '\x7b').drop k ++
        (content.drop s).dropWhile fun c => c ≠ '\x7b' := by
    rw [← List.drop_drop]
    nth_rewrite 1 [← List.takeWhile_append_dropWhile (p := fun c => c ≠ '\x7b')
      (l := content.drop s)]
    rw [List.drop_append_of_le_length (by omega)]
  have hplain : ∀ c ∈ ((content.drop s).takeWhile fun c => c ≠ '\x7b').drop k,
      decide (c ≠ '\x7b') = true := by
    intro c hc
    exact List.mem_takeWhile_imp (p := fun c => decide (c ≠ '\x7b')) (List.mem_of_mem_drop hc)
  have hrest : ((content.drop s).dropWhile fun c => c ≠ '\x7b').takeWhile
      (fun c => c ≠ '\x7b') = [] := by
    cases hdrop : (content.drop s).dropWhile fun c => c ≠ '\x7b' with
    | nil => rfl
    | cons x xs =>
        have hx := List.head?_dropWhile_not (fun c => decide (c ≠ '\x7b')) (content.drop s)
        rw [hdrop] at hx
        rw [List.takeWhile_cons_of_neg (by simpa using hx)]
  rw [hsplit, List.takeWhile_append_of_pos hplain, hrest, List.append_nil, List.length_drop]
  omega

theorem extractBalancedJson_eq (content : List Char) (start : ℕ) :
    extractBalancedJson content start =
      matchBraces 0 false false (content.drop (nextOpen content start)) := by
  have hdrop : ∀ l : List Char, (l.dropWhile fun c => c ≠ '\x7b') =
      l.drop (l.takeWhile fun c => c ≠ '\x7b').length := by
    intro l
    nth_rewrite 3 [← List.takeWhile_append_dropWhile (p := fun c => c ≠ '\x7b') (l := l)]
    rw [List.drop_left]
  unfold extractBalancedJson nextOpen
  rw [← List.drop_drop, hdrop]

theorem extractBalancedJson_begins {raw : List Char}
    (h : extractBalancedJson content s = some raw) :
    raw ≠ [] ∧ raw <+: content.drop (nextOpen content s) := by
  rw [extractBalancedJson_eq] at h
  exact matchBraces_begins h

/-- Names before one brace share its object. -/
theorem ObjectAt.shared {raw : List Char} (h : ObjectAt N content s raw) (hle : s ≤ t)
    (hopen : t ≤ nextOpen content s) : ObjectAt N content t raw := by
  unfold ObjectAt at h ⊢
  rwa [extractBalancedJson_eq, nextOpen_eq hle hopen, ← extractBalancedJson_eq]

/-! ### The registered names -/

/-- The registered names, letter by letter. -/
def registeredChars : List (List Char) :=
  [['d', 'e', 'c', 'l', 'a', 'r', 'e', '_', 't', 'r', 'a', 'd', 'e'],
    ['g', 'e', 't', '_', 'c', 'a', 'n', 'd', 'l', 'e', 's'],
    ['g', 'e', 't', '_', 'c', 'h', 'a', 'r', 't', '_', 'p', 'a', 't', 't', 'e', 'r', 'n', 's'],
    ['g', 'e', 't', '_', 'c', 'o', 'n', 's', 'e', 'n', 's', 'u', 's', '_', 'r', 'e', 'p', 'o', 'r',
      't'],
    ['g', 'e', 't', '_', 'e', 'v', 'e', 'n', 't', '_', 'r', 'i', 's', 'k'],
    ['g', 'e', 't', '_', 'f', 'o', 'r', 'e', 'c', 'a', 's', 't'],
    ['g', 'e', 't', '_', 'm', 'a', 'r', 'k', 'e', 't', '_', 'r', 'e', 'g', 'i', 'm', 'e'],
    ['g', 'e', 't', '_', 'm', 'u', 'l', 't', 'i', '_', 't', 'f', '_', 't', 'r', 'e', 'n', 'd'],
    ['g', 'e', 't', '_', 'n', 'e', 'w', 's', '_', 'c', 'o', 'n', 't', 'e', 'x', 't'],
    ['g', 'e', 't', '_', 'o', 'p', 't', 'i', 'o', 'n', 's', '_', 'a', 'n', 'a', 'l', 'y', 't', 'i',
      'c', 's'],
    ['g', 'e', 't', '_', 'o', 'r', 'd', 'e', 'r', '_', 'f', 'l', 'o', 'w'],
    ['g', 'e', 't', '_', 'p', 'r', 'e', 'd', 'i', 'c', 't', 'i', 'o', 'n'],
    ['g', 'e', 't', '_', 'r', 'e', 'l', 'a', 't', 'i', 'v', 'e', '_', 's', 't', 'r', 'e', 'n', 'g',
      't', 'h'],
    ['g', 'e', 't', '_', 's', 'e', 's', 's', 'i', 'o', 'n', '_', 'c', 'o', 'n', 't', 'e', 'x', 't'],
    ['g', 'e', 't', '_', 's', 'u', 'p', 'p', 'o', 'r', 't', '_', 'r', 'e', 's', 'i', 's', 't', 'a',
      'n', 'c', 'e'],
    ['g', 'e', 't', '_', 't', 'r', 'a', 'd', 'e', '_', 'p', 'e', 'r', 'f', 'o', 'r', 'm', 'a', 'n',
      'c', 'e'],
    ['g', 'e', 't', '_', 'v', 'o', 'l', 'u', 'm', 'e', '_', 'p', 'r', 'o', 'f', 'i', 'l', 'e'],
    ['w', 'a', 't', 'c', 'h', '_', 'p', 'r', 'i', 'c', 'e', '_', 'c', 'o', 'n', 'd', 'i', 't', 'i',
      'o', 'n']]

/-- What a registered name begins with. -/
def registeredHeads : List (List Char) := [['d', 'e', 'c'], ['g', 'e', 't', '_'], ['w', 'a', 't']]

theorem registeredToolNames_eq : registeredToolNames = registeredChars.map String.ofList := rfl

theorem toList_mem_registeredChars (h : name ∈ registeredToolNames) :
    name.toList ∈ registeredChars := by
  rw [registeredToolNames_eq] at h
  obtain ⟨cs, hcs, rfl⟩ := List.mem_map.mp h
  rwa [String.toList_ofList]

/-- How names can overlap in a text.  None begins inside another; one ends as it begins, and no name
begins between its two beginnings there and runs past its end. -/
structure KeepApart (names heads : List (List Char)) (name : List Char) (shift : ℕ) : Prop where
  nodup : names.Nodup
  ne_nil : ∀ cs ∈ names, cs ≠ []
  head : ∀ cs ∈ names, ∃ h ∈ heads, h <+: cs
  tail : ∀ cs ∈ names, ∀ h ∈ heads, ¬ h <:+: cs.tail
  prefixes : ∀ cs ∈ names, ∀ cs' ∈ names, cs <+: cs' → cs = cs'
  border : ∀ cs ∈ names, ∀ l < cs.length, 0 < l → cs.drop l <+: cs → cs = name ∧ l = shift
  overlap : ∀ k < shift, 0 < k → ∀ cs ∈ names, ¬ name.drop k <+: cs

theorem registeredChars_keepApart :
    KeepApart registeredChars registeredHeads
      ['d', 'e', 'c', 'l', 'a', 'r', 'e', '_', 't', 'r', 'a', 'd', 'e'] 11 where
  nodup := by decide +kernel
  ne_nil := by decide
  head := by decide +kernel
  tail := by decide +kernel
  prefixes := by decide +kernel
  border := by decide +kernel
  overlap := by decide +kernel

theorem registeredToolNames_nodup : registeredToolNames.Nodup := by
  rw [registeredToolNames_eq]
  exact registeredChars_keepApart.nodup.map fun _ _ h => String.ofList_injective h

theorem registered_ne_nil (hname : name ∈ registeredToolNames) : name.toList ≠ [] :=
  registeredChars_keepApart.ne_nil _ (toList_mem_registeredChars hname)

/-- No registered name is part of another: the beginnings of the names are nowhere inside them. -/
theorem registered_inside (hname : name ∈ registeredToolNames)
    (hname' : name' ∈ registeredToolNames) (h : name.toList <:+: name'.toList) : name = name' := by
  have hmem := toList_mem_registeredChars hname
  have hmem' := toList_mem_registeredChars hname'
  obtain ⟨front, rest, hcut⟩ := h
  cases front with
  | nil =>
      rw [List.nil_append] at hcut
      exact String.toList_inj.mp (registeredChars_keepApart.prefixes _ hmem _ hmem' ⟨rest, hcut⟩)
  | cons d front =>
      obtain ⟨head, hhead, hpre⟩ := registeredChars_keepApart.head _ hmem
      have htail : name.toList <:+: name'.toList.tail := by
        rw [← hcut]
        exact ⟨front, rest, rfl⟩
      exact absurd (hpre.isInfix.trans htail) (registeredChars_keepApart.tail _ hmem' head hhead)

theorem stop_lt_stop (hname : name ∈ registeredToolNames) (hname' : name' ∈ registeredToolNames)
    (h : OccursAt name.toList content i) (h' : OccursAt name'.toList content j) (hlt : i < j) :
    i + name.toList.length < j + name'.toList.length := by
  by_contra hle
  have heq := registered_inside hname' hname (h.infix_of_inside h' hlt.le (by omega))
  subst heq
  omega

theorem eq_of_occursAt (hname : name ∈ registeredToolNames) (hname' : name' ∈ registeredToolNames)
    (h : OccursAt name.toList content i) (h' : OccursAt name'.toList content i) : name = name' := by
  rcases le_total name.toList.length name'.toList.length with hle | hle
  · exact registered_inside hname hname' (h.prefix_of_le h' hle).isInfix
  · exact (registered_inside hname' hname (h'.prefix_of_le h hle).isInfix).symm

theorem NameFound.occursAt (h : NameFound content name i) : OccursAt name.toList content i := by
  obtain ⟨-, m, hm, rfl⟩ := h
  exact (mem_findIter_literal hm).1

/-- A name in the text is found, or it overlaps itself. -/
theorem exists_nameFound (hname : name ∈ registeredToolNames)
    (h : OccursAt name.toList content j) :
    ∃ i, NameFound content name i ∧ i ≤ j ∧ j < i + name.toList.length := by
  obtain ⟨m, hm, hstart, hstop⟩ := exists_findIter_literal (registered_ne_nil hname) h
  exact ⟨m.start, ⟨hname, m, hm, rfl⟩, hstart, hstop⟩

/-! ### The calls of the scan -/

theorem mem_positionedCalls : c ∈ positionedCalls order content ↔ c.name ∈ order ∧
    (∃ m ∈ findIter (literal c.name.toList) 0 0 content, m.start = c.start) ∧
      extractBalancedJson content c.stop = some c.rawArgs := by
  unfold positionedCalls
  simp only [List.mem_flatMap, List.mem_filterMap, Option.map_eq_some_iff]
  constructor
  · rintro ⟨name, hname, m, hm, raw, hraw, rfl⟩
    refine ⟨hname, ⟨m, hm, rfl⟩, ?_⟩
    rwa [(mem_findIter_literal hm).2] at hraw
  · rintro ⟨hname, ⟨m, hm, hstart⟩, hraw⟩
    refine ⟨c.name, hname, m, hm, c.rawArgs, ?_, by rw [hstart]⟩
    rwa [(mem_findIter_literal hm).2, hstart]

theorem mem_okCalls (horder : order.Perm registeredToolNames) : c ∈ okCalls N order content ↔
    NameFound content c.name c.start ∧ ObjectAt N content c.stop c.rawArgs := by
  unfold okCalls plainCalls NameFound ObjectAt
  rw [List.mem_filter, (List.perm_insertionSort _ _).mem_iff, mem_positionedCalls, horder.mem_iff]
  simp only [and_assoc]

theorem okCalls_starts (horder : order.Perm registeredToolNames) :
    (okCalls N order content).Pairwise fun c d => c.start ≠ d.start := by
  have hpositioned : (positionedCalls order content).Pairwise fun c d => c.start ≠ d.start := by
    unfold positionedCalls
    rw [List.pairwise_flatMap]
    constructor
    · intro name hname
      have hne := registered_ne_nil (horder.mem_iff.mp hname)
      rw [List.pairwise_filterMap]
      refine (findIter_ordered (literal_proper hne) 0).imp_of_mem fun {m m'} hm _ hle => ?_
      intro c hc d hd
      obtain ⟨_, _, rfl⟩ := Option.map_eq_some_iff.mp hc
      obtain ⟨_, _, rfl⟩ := Option.map_eq_some_iff.mp hd
      have hstop := (mem_findIter_literal hm).2
      have := List.length_pos_iff.mpr hne
      dsimp only
      omega
    · have hnodup : order.Nodup := horder.nodup_iff.mpr registeredToolNames_nodup
      refine hnodup.imp_of_mem fun {name name'} hname hname' hne c hc d hd heq => hne ?_
      obtain ⟨m, hm, hc⟩ := List.mem_filterMap.mp hc
      obtain ⟨m', hm', hd⟩ := List.mem_filterMap.mp hd
      obtain ⟨_, _, rfl⟩ := Option.map_eq_some_iff.mp hc
      obtain ⟨_, _, rfl⟩ := Option.map_eq_some_iff.mp hd
      have hoccurs' := (mem_findIter_literal hm').1
      rw [← show m.start = m'.start from heq] at hoccurs'
      exact eq_of_occursAt (horder.mem_iff.mp hname) (horder.mem_iff.mp hname')
        (mem_findIter_literal hm).1 hoccurs'
  unfold okCalls plainCalls
  refine List.Pairwise.filter _ ?_
  exact ((List.perm_insertionSort _ _).pairwise_iff fun h => h.symm).mpr hpositioned

/-! ### When calls are separate -/

theorem Undisturbed.of_oneCallEach (horder : order.Perm registeredToolNames)
    (h : OneCallEach N order content) : Undisturbed N content := by
  intro name i raw hfound hobject name' j hfound' hlt
  have hc : (⟨i, name, raw⟩ : PlainCall) ∈ okCalls N order content :=
    (mem_okCalls horder).mpr ⟨hfound, hobject⟩
  have hseparate : ∀ raw', ObjectAt N content (j + name'.toList.length) raw' →
      nextOpen content (i + name.toList.length) + raw.length ≤
          nextOpen content (j + name'.toList.length) ∨
        nextOpen content (j + name'.toList.length) + raw'.length ≤
          nextOpen content (i + name.toList.length) := by
    intro raw' hobject'
    have hd : (⟨j, name', raw'⟩ : PlainCall) ∈ okCalls N order content :=
      (mem_okCalls horder).mpr ⟨hfound', hobject'⟩
    have hne : (⟨i, name, raw⟩ : PlainCall) ≠ ⟨j, name', raw'⟩ := by
      intro heq
      exact hlt.ne (congrArg PlainCall.start heq)
    exact h.disjoint.forall hc hd hne
  have hstop := stop_lt_stop hfound.1 hfound'.1 hfound.occursAt hfound'.occursAt hlt
  have hbefore : nextOpen content (i + name.toList.length) < j + name'.toList.length := by
    -- a name before the object would take it too
    by_contra hle
    have hopen : j + name'.toList.length ≤ nextOpen content (i + name.toList.length) := by omega
    have hshared := hseparate raw (hobject.shared hstop.le hopen)
    rw [nextOpen_eq hstop.le hopen] at hshared
    have := List.length_pos_iff.mpr (extractBalancedJson_begins hobject.1).1
    omega
  refine ⟨hbefore, fun raw' hobject' => ?_⟩
  have hle : j + name'.toList.length ≤ nextOpen content (j + name'.toList.length) := le_nextOpen
  have := hseparate raw' hobject'
  omega

/-- A name that ends between a call's name and its object is the call's own. -/
theorem Undisturbed.name_eq (h : Undisturbed N content) (hfound : NameFound content c.name c.start)
    (hobject : ObjectAt N content c.stop c.rawArgs) (hname : name ∈ registeredToolNames)
    (hoccurs : OccursAt name.toList content j) (hafter : c.stop < j + name.toList.length)
    (hbefore : j + name.toList.length ≤ c.objectStart content) : name = c.name := by
  have hstart : c.start < j := by
    by_contra hle
    rcases Nat.lt_or_eq_of_le (not_lt.mp hle) with hlt | heq
    · have := stop_lt_stop hname hfound.1 hoccurs hfound.occursAt hlt
      unfold PlainCall.stop at hafter
      omega
    · rw [heq] at hoccurs hafter
      have := eq_of_occursAt hname hfound.1 hoccurs hfound.occursAt
      subst this
      exact absurd hafter (lt_irrefl _)
  obtain ⟨i, hfound', hle, hcover⟩ := exists_nameFound hname hoccurs
  rcases lt_trichotomy i c.start with hlt | heq | hgt
  · -- the name overlaps itself around the call's name
    exfalso
    have hborder := hfound'.occursAt.prefix_of_overlap hoccurs hle (by omega)
    obtain ⟨hchars, hl⟩ := registeredChars_keepApart.border _ (toList_mem_registeredChars hname)
      (j - i) (by omega) (by omega) hborder
    have hstop := stop_lt_stop hname hfound.1 hfound'.occursAt hfound.occursAt hlt
    have hover := hfound'.occursAt.prefix_of_overlap hfound.occursAt hlt.le hstop.le
    rw [hchars] at hover
    exact registeredChars_keepApart.overlap (c.start - i) (by omega) (by omega) _
      (toList_mem_registeredChars hfound.1) hover
  · rw [heq] at hfound'
    exact eq_of_occursAt hname hfound.1 hfound'.occursAt hfound.occursAt
  · have := (h c.name c.start c.rawArgs hfound hobject name i hfound' hgt).1
    unfold PlainCall.objectStart PlainCall.stop at hbefore
    omega

theorem Undisturbed.nearest (h : Undisturbed N content)
    (hfound : NameFound content c.name c.start) (hobject : ObjectAt N content c.stop c.rawArgs) :
    NearestName content c.name (c.objectStart content) := by
  classical
  -- the last occurrence of the call's name before its object
  let P : ℕ → Prop := fun i =>
    OccursAt c.name.toList content i ∧ i + c.name.toList.length ≤ c.objectStart content
  have hopen : c.stop ≤ c.objectStart content := le_nextOpen
  have hbound : ∀ i, P i → i ≤ c.objectStart content := fun i hi => by
    have := hi.2
    omega
  have hcall : P c.start := ⟨hfound.occursAt, hopen⟩
  have hspec : P (Nat.findGreatest P (c.objectStart content)) :=
    Nat.findGreatest_spec (hbound _ hcall) hcall
  refine ⟨_, hspec.1, hspec.2, fun name hname j hoccurs hj => ?_⟩
  have hstart := Nat.le_findGreatest (hbound _ hcall) hcall
  by_cases hafter : c.stop < j + name.toList.length
  · obtain rfl := h.name_eq hfound hobject hname hoccurs hafter hj
    have := Nat.le_findGreatest (hbound j ⟨hoccurs, hj⟩) (show P j from ⟨hoccurs, hj⟩)
    omega
  · unfold PlainCall.stop at hafter
    omega

theorem oneCallEach_iff (horder : order.Perm registeredToolNames) :
    OneCallEach N order content ↔ Undisturbed N content := by
  refine ⟨.of_oneCallEach horder, fun h => ⟨?_, fun c hc => ?_⟩⟩
  · refine (okCalls_starts horder).imp_of_mem fun {c d} hc hd hne => ?_
    obtain ⟨hfound, hobject⟩ := (mem_okCalls horder).mp hc
    obtain ⟨hfound', hobject'⟩ := (mem_okCalls horder).mp hd
    rcases Nat.lt_or_gt_of_ne hne with hlt | hgt
    · exact .inl ((h _ _ _ hfound hobject _ _ hfound' hlt).2 _ hobject')
    · exact .inr ((h _ _ _ hfound' hobject' _ _ hfound hgt).2 _ hobject)
  · obtain ⟨hfound, hobject⟩ := (mem_okCalls horder).mp hc
    exact h.nearest hfound hobject

/-! ### The calls returned -/

theorem filter_map_mapIdx {α β γ : Type*} {l : List α} {f : ℕ → α → β} {p : β → Bool}
    {q : α → Bool} {g : β → γ} {g' : α → γ} (hp : ∀ idx, ∀ a ∈ l, p (f idx a) = q a)
    (hg : ∀ idx a, g (f idx a) = g' a) :
    ((l.mapIdx f).filter p).map g = (l.filter q).map g' := by
  induction l generalizing f with
  | nil => rfl
  | cons a l ih =>
      have htail := ih (fun idx b hb => hp (idx + 1) b (List.mem_cons_of_mem a hb))
        fun idx b => hg (idx + 1) b
      rw [List.mapIdx_cons, List.filter_cons, List.filter_cons, hp 0 a List.mem_cons_self]
      split
      · rw [List.map_cons, List.map_cons, hg, htail]
      · exact htail

theorem textCall_ok (idx : ℕ) {found : String × List Char}
    (h : found.1 ∈ registeredToolNames) :
    decide ((textCall N idx found).status = .ok) =
      (parseArgsFragment N (String.ofList found.2)).isSome := by
  unfold textCall
  dsimp only
  rw [if_pos h]
  split <;> simp [*]

theorem extractToolCalls_plain (S : Style) (horder : order.Perm registeredToolNames)
    {text : String} (hfree : TokenFree text.toList) :
    (((extractToolCalls S N order ⟨[], text⟩).calls.filter fun c => c.status = .ok).map
        fun c => (c.name, c.rawArgs)) =
      (okCalls N order text.toList).map fun c => (c.name, String.ofList c.rawArgs) := by
  unfold extractToolCalls okCalls
  rw [if_neg (by simp)]
  dsimp only
  rw [scanCustomTokenCalls_plain order hfree]
  have hnames : ∀ found ∈ (plainCalls order text.toList).map fun c => (c.name, c.rawArgs),
      found.1 ∈ registeredToolNames := by
    intro found hfound
    obtain ⟨c, hc, rfl⟩ := List.mem_map.mp hfound
    have hmem := (List.perm_insertionSort _ _).mem_iff.mp hc
    exact horder.mem_iff.mp (mem_positionedCalls.mp hmem).1
  rw [filter_map_mapIdx (fun idx found hfound => textCall_ok idx (hnames found hfound))
    fun idx found => textCall_text idx found, List.filter_map, List.map_map]
  rfl

/-- The calls returned as executable take parts of the text; they are separate, each of the name
nearest before it, exactly when no name disturbs another. -/
theorem okCalls_separate_iff (S : Style) (horder : order.Perm registeredToolNames)
    {text : String} (hfree : TokenFree text.toList) :
    (((extractToolCalls S N order ⟨[], text⟩).calls.filter fun c => c.status = .ok).map
        fun c => (c.name, c.rawArgs)) =
      ((okCalls N order text.toList).map fun c => (c.name, String.ofList c.rawArgs)) ∧
    (∀ c ∈ okCalls N order text.toList,
      c.rawArgs <+: text.toList.drop (c.objectStart text.toList)) ∧
    (OneCallEach N order text.toList ↔ Undisturbed N text.toList) := by
  refine ⟨extractToolCalls_plain S horder hfree, fun c hc => ?_, oneCallEach_iff horder⟩
  exact (extractBalancedJson_begins ((mem_okCalls horder).mp hc).2.1).2

end

/-! ### Several names -/

/-- The calls returned as executable for a text. -/
def executableCalls (text : String) : List (String × String) :=
  ((extractToolCalls .asciiSpaced sampleNumbers registeredToolNames ⟨[], text⟩).calls.filter
    fun c => c.status = .ok).map fun c => (c.name, c.rawArgs)

theorem positionedCalls_registered (content : List Char) :
    positionedCalls registeredToolNames content = registeredChars.flatMap fun cs =>
      (findIter (literal cs) 0 0 content).filterMap fun m =>
        (extractBalancedJson content m.stop).map fun raw => ⟨m.start, String.ofList cs, raw⟩ := by
  unfold positionedCalls
  rw [registeredToolNames_eq, List.flatMap_map]
  simp only [String.toList_ofList]

/-- Three names, each with its own object. -/
def severalCalls : String :=
  "get_candles \x7b\"n\": 5\x7d, get_forecast \x7b\x7d, declare_trade \x7b\"w\": \x7b\x7d\x7d"

def severalFound : List PlainCall :=
  [⟨0, "get_candles", "\x7b\"n\": 5\x7d".toList⟩, ⟨22, "get_forecast", "\x7b\x7d".toList⟩,
    ⟨39, "declare_trade", "\x7b\"w\": \x7b\x7d\x7d".toList⟩]

theorem okCalls_several :
    okCalls sampleNumbers registeredToolNames severalCalls.toList = severalFound := by
  have hplain : plainCalls registeredToolNames severalCalls.toList = severalFound := by
    unfold plainCalls
    rw [positionedCalls_registered]
    rfl
  have hobjects : ∀ c ∈ severalFound,
      (parseArgsFragment sampleNumbers (String.ofList c.rawArgs)).isSome = true := by
    decide +kernel
  unfold okCalls
  rw [hplain]
  exact List.filter_eq_self.mpr hobjects

theorem okCalls_separate_iff_several :
    executableCalls severalCalls =
      [("get_candles", "\x7b\"n\": 5\x7d"), ("get_forecast", "\x7b\x7d"),
        ("declare_trade", "\x7b\"w\": \x7b\x7d\x7d")] ∧
    (∀ c ∈ okCalls sampleNumbers registeredToolNames severalCalls.toList,
      c.rawArgs <+: severalCalls.toList.drop (c.objectStart severalCalls.toList)) ∧
    (OneCallEach sampleNumbers registeredToolNames severalCalls.toList ↔
      Undisturbed sampleNumbers severalCalls.toList) := by
  have hfree : TokenFree severalCalls.toList := tokenFree_of_notMem (by decide)
  obtain ⟨hcalls, hparts, hiff⟩ := okCalls_separate_iff .asciiSpaced (.refl _) hfree
  refine ⟨?_, hparts, hiff⟩
  rw [okCalls_several] at hcalls
  exact hcalls

theorem okCalls_mentioned : okCalls sampleNumbers registeredToolNames
    "declare_trade or get_candles \x7b\x7d".toList =
      [⟨0, "declare_trade", ['\x7b', '\x7d']⟩, ⟨17, "get_candles", ['\x7b', '\x7d']⟩] := by
  have hobject :
      (parseArgsFragment sampleNumbers (String.ofList ['\x7b', '\x7d'])).isSome = true := by
    decide +kernel
  have hplain : plainCalls registeredToolNames "declare_trade or get_candles \x7b\x7d".toList =
      [⟨0, "declare_trade", ['\x7b', '\x7d']⟩, ⟨17, "get_candles", ['\x7b', '\x7d']⟩] := by
    unfold plainCalls
    rw [positionedCalls_registered]
    rfl
  unfold okCalls
  rw [hplain]
  simp [hobject]

/-- A tool that is only mentioned is called with the arguments of the next. -/
theorem mentioned_tool_is_called :
    TokenFree "declare_trade or get_candles \x7b\x7d".toList ∧
    executableCalls "declare_trade or get_candles \x7b\x7d" =
      [("declare_trade", "\x7b\x7d"), ("get_candles", "\x7b\x7d")] ∧
    ¬ OneCallEach sampleNumbers registeredToolNames
      "declare_trade or get_candles \x7b\x7d".toList := by
  have hfree : TokenFree "declare_trade or get_candles \x7b\x7d".toList :=
    tokenFree_of_notMem (by decide)
  refine ⟨hfree, ?_, fun h => ?_⟩
  · unfold executableCalls
    rw [extractToolCalls_plain .asciiSpaced (.refl _) hfree, okCalls_mentioned]
    rfl
  · have hseparate := h.disjoint
    rw [okCalls_mentioned] at hseparate
    have hpair := (List.pairwise_cons.mp hseparate).1 _ List.mem_cons_self
    revert hpair
    unfold SeparateObjects
    decide +kernel

end AiTrader.Agent
