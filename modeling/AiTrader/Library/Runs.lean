import Mathlib.Data.List.Forall2
import Mathlib.Data.List.SplitBy

/-! # One element for every run

`collapse` reads a list from the left and keeps one element of every run of elements of one kind:
an element takes the place of the last one kept if it is of its kind and better, and is kept beside
it if it is of another kind.

* `collapse_sublist`, `kinds_collapse`: what is kept stands in its old order, and kinds alternate.
* `collapse_stable`: of what is kept, more elements to come change at most the last one.
* `collapse_best`: what is kept is the best of each run, the first of equals. -/

namespace AiTrader.Runs

/-- A list that is never empty, with its last element at hand. -/
structure Kept (α : Type*) where
  earlier : List α
  last : α

def Kept.toList {α : Type*} (s : Kept α) : List α := s.earlier ++ [s.last]

section
variable {α κ : Type*} [DecidableEq κ] (kind : α → κ) (better : α → α → Bool)

def extend (s : Kept α) (x : α) : Kept α :=
  if kind x = kind s.last then
    if better x s.last then { s with last := x } else s
  else ⟨s.earlier ++ [s.last], x⟩

def collapse : List α → List α
  | [] => []
  | x :: xs => (xs.foldl (extend kind better) ⟨[], x⟩).toList

end

section
variable {α κ : Type*} [DecidableEq κ] {kind : α → κ} {better : α → α → Bool} {s : Kept α} {x : α}
  {ys run : List α}

variable (kind better) in
theorem extend_cases (s : Kept α) (x : α) :
    (kind x = kind s.last ∧ better x s.last = true ∧
      extend kind better s x = { s with last := x }) ∨
    (kind x = kind s.last ∧ better x s.last = false ∧ extend kind better s x = s) ∨
    (kind x ≠ kind s.last ∧ extend kind better s x = ⟨s.earlier ++ [s.last], x⟩) := by
  by_cases hkind : kind x = kind s.last
  · cases hbetter : better x s.last with
    | true => exact .inl ⟨hkind, rfl, by simp [extend, hkind, hbetter]⟩
    | false => exact .inr (.inl ⟨hkind, rfl, by simp [extend, hkind, hbetter]⟩)
  · exact .inr (.inr ⟨hkind, by simp [extend, hkind]⟩)

/-! ### What is kept -/

theorem foldl_extend_sublist (xs : List α) (hs : s.toList.Sublist ys) :
    (xs.foldl (extend kind better) s).toList.Sublist (ys ++ xs) := by
  induction xs generalizing s ys with
  | nil => simpa using hs
  | cons x xs ih =>
      have hstep : (extend kind better s x).toList.Sublist (ys ++ [x]) := by
        obtain ⟨-, -, heq⟩ | ⟨-, -, heq⟩ | ⟨-, heq⟩ := extend_cases kind better s x
        · rw [heq]
          exact ((List.sublist_append_left _ _).trans hs).append (List.Sublist.refl [x])
        · rw [heq]
          exact hs.trans (List.sublist_append_left ys [x])
        · rw [heq]
          exact hs.append (List.Sublist.refl [x])
      simpa using ih hstep

theorem collapse_sublist (xs : List α) : (collapse kind better xs).Sublist xs := by
  cases xs with
  | nil => exact List.Sublist.refl []
  | cons x xs => exact foldl_extend_sublist (s := ⟨[], x⟩) xs (List.Sublist.refl [x])

theorem kinds_foldl_extend (xs : List α) (hs : (s.toList.map kind).IsChain (· ≠ ·)) :
    ((xs.foldl (extend kind better) s).toList.map kind).IsChain (· ≠ ·) := by
  induction xs generalizing s with
  | nil => exact hs
  | cons x xs ih =>
      apply ih
      obtain ⟨hkind, -, heq⟩ | ⟨-, -, heq⟩ | ⟨hkind, heq⟩ := extend_cases kind better s x
      · rw [heq]
        simpa [Kept.toList, hkind] using hs
      · rw [heq]
        exact hs
      · rw [heq]
        simp only [Kept.toList, List.map_append, List.map_cons, List.map_nil] at hs ⊢
        refine List.isChain_append.mpr ⟨hs, List.isChain_singleton _, ?_⟩
        intro a ha b hb
        rw [List.getLast?_concat, Option.mem_some_iff] at ha
        rw [List.head?_cons, Option.mem_some_iff] at hb
        subst ha
        subst hb
        exact fun h => hkind h.symm

theorem kinds_collapse (xs : List α) : ((collapse kind better xs).map kind).IsChain (· ≠ ·) := by
  cases xs with
  | nil => exact List.isChain_nil
  | cons x xs => exact kinds_foldl_extend xs (List.isChain_singleton _)

/-! ### More elements to come -/

theorem foldl_extend_stable
    (htrans : ∀ x y z, kind x = kind y → kind y = kind z → better x y = true → better y z = true →
      better x z = true)
    (xs : List α) (s : Kept α) :
    ∃ last' tail, (xs.foldl (extend kind better) s).toList = s.earlier ++ last' :: tail ∧
      kind last' = kind s.last ∧
        (last' = s.last ∨ last' ∈ xs ∧ better last' s.last = true) := by
  induction xs generalizing s with
  | nil => exact ⟨s.last, [], rfl, rfl, .inl rfl⟩
  | cons x xs ih =>
      rw [List.foldl_cons]
      obtain ⟨last', tail, hlist, hlast, hfrom⟩ := ih (extend kind better s x)
      obtain ⟨hkind, hbetter, heq⟩ | ⟨-, -, heq⟩ | ⟨-, heq⟩ := extend_cases kind better s x
      · rw [heq] at hlist hlast hfrom ⊢
        refine ⟨last', tail, hlist, hlast.trans hkind, .inr ?_⟩
        obtain rfl | ⟨hmem, hlater⟩ := hfrom
        · exact ⟨List.mem_cons_self, hbetter⟩
        · exact ⟨List.mem_cons_of_mem x hmem, htrans _ _ _ hlast hkind hlater hbetter⟩
      · rw [heq] at hlist hlast hfrom ⊢
        refine ⟨last', tail, hlist, hlast, hfrom.imp_right fun h => ?_⟩
        exact ⟨List.mem_cons_of_mem x h.1, h.2⟩
      · rw [heq] at hlist ⊢
        exact ⟨s.last, last' :: tail, by rw [hlist, List.append_assoc]; rfl, rfl, .inl rfl⟩

/-- Of what is kept, more elements change at most the last one, and only for a better one. -/
theorem collapse_stable
    (htrans : ∀ x y z, kind x = kind y → kind y = kind z → better x y = true → better y z = true →
      better x z = true)
    (xs ys : List α) (hne : xs ≠ []) :
    ∃ earlier last last' tail, collapse kind better xs = earlier ++ [last] ∧
      collapse kind better (xs ++ ys) = earlier ++ last' :: tail ∧ kind last' = kind last ∧
        (last' = last ∨ last' ∈ ys ∧ better last' last = true) := by
  cases xs with
  | nil => exact absurd rfl hne
  | cons x xs =>
      obtain ⟨last', tail, hlist, hlast, hfrom⟩ :=
        foldl_extend_stable htrans ys (xs.foldl (extend kind better) ⟨[], x⟩)
      refine ⟨_, _, last', tail, rfl, ?_, hlast, hfrom⟩
      rw [← hlist, ← List.foldl_append]
      rfl

/-! ### The best of each run -/

/-- `e` is the best of the run, the first of equals. -/
def Best (better : α → α → Bool) (run : List α) (e : α) : Prop :=
  ∃ before after, run = before ++ e :: after ∧ (∀ x ∈ before, better e x = true) ∧
    ∀ x ∈ after, better x e = false

theorem Best.mem {e : α} (h : Best better run e) : e ∈ run := by
  obtain ⟨before, after, rfl, -, -⟩ := h
  exact List.mem_append_right _ List.mem_cons_self

theorem Best.singleton (x : α) : Best better [x] x := ⟨[], [], rfl, by simp, by simp⟩

theorem Best.keep {e : α} (h : Best better run e) (hx : better x e = false) :
    Best better (run ++ [x]) e := by
  obtain ⟨before, after, rfl, hbefore, hafter⟩ := h
  refine ⟨before, after ++ [x], by simp, hbefore, fun y hy => ?_⟩
  rcases List.mem_append.mp hy with hy | hy
  · exact hafter y hy
  · rw [List.mem_singleton.mp hy]
    exact hx

theorem Best.replace {e : α} (h : Best better run e) (hx : better x e = true)
    (hweak : ∀ y ∈ run, better y e = false → better x y = true)
    (htrans : ∀ y ∈ run, better e y = true → better x y = true) :
    Best better (run ++ [x]) x := by
  refine ⟨run, [], rfl, fun y hy => ?_, by simp⟩
  obtain ⟨before, after, rfl, hbefore, hafter⟩ := h
  rcases List.mem_append.mp hy with hmem | hmem
  · exact htrans y hy (hbefore y hmem)
  · rcases List.mem_cons.mp hmem with rfl | hmem
    · exact hx
    · exact hweak y hy (hafter y hmem)

/-- The elements on which `better` is a strict order of each kind, equals apart. -/
structure Comparable (kind : α → κ) (better : α → α → Bool) (p : α → Prop) : Prop where
  trans : ∀ x y z, p x → p y → p z → kind x = kind y → kind y = kind z →
    better x y = true → better y z = true → better x z = true
  weak : ∀ x y z, p x → p y → p z → kind x = kind y → kind z = kind y →
    better x y = true → better z y = false → better x z = true

theorem isChain_of_kind {k : κ} (h : ∀ x ∈ run, kind x = k) :
    run.IsChain fun x y => decide (kind x = kind y) = true :=
  (List.pairwise_of_forall_mem_list fun x hx y hy =>
    decide_eq_true ((h x hx).trans (h y hy).symm)).isChain

theorem foldl_extend_best {p : α → Prop} (hc : Comparable kind better p) (run xs : List α)
    (s : Kept α) (hp : ∀ x ∈ run ++ xs, p x) (hkind : ∀ y ∈ run, kind y = kind s.last)
    (hbest : Best better run s.last) :
    ∃ kept, (xs.foldl (extend kind better) s).toList = s.earlier ++ kept ∧
      List.Forall₂ (Best better) ((run ++ xs).splitBy fun x y => decide (kind x = kind y)) kept := by
  induction xs generalizing s run with
  | nil =>
      refine ⟨[s.last], rfl, ?_⟩
      rw [List.append_nil, List.splitBy_of_isChain (List.ne_nil_of_mem hbest.mem)
        (isChain_of_kind hkind)]
      exact .cons hbest .nil
  | cons x xs ih =>
      have hrun : ∀ y ∈ run, p y := fun y hy => hp y (List.mem_append_left _ hy)
      have hx : p x := hp x (List.mem_append_right _ List.mem_cons_self)
      have hlast := hrun _ hbest.mem
      rw [List.foldl_cons]
      obtain ⟨hsame, hbetter, heq⟩ | ⟨hsame, hbetter, heq⟩ | ⟨hother, heq⟩ :=
        extend_cases kind better s x
      · rw [heq, List.append_cons]
        refine ih (run ++ [x]) { s with last := x } (by simpa using hp) ?_ ?_
        · intro y hy
          rcases List.mem_append.mp hy with hy | hy
          · exact (hkind y hy).trans hsame.symm
          · rw [List.mem_singleton.mp hy]
        · refine hbest.replace hbetter (fun y hy hle => ?_) fun y hy hlt => ?_
          · exact hc.weak x s.last y hx hlast (hrun y hy) hsame (hkind y hy) hbetter hle
          · exact hc.trans x s.last y hx hlast (hrun y hy) hsame (hkind y hy).symm hbetter hlt
      · rw [heq, List.append_cons]
        refine ih (run ++ [x]) s (by simpa using hp) ?_ (hbest.keep hbetter)
        intro y hy
        rcases List.mem_append.mp hy with hy | hy
        · exact hkind y hy
        · rw [List.mem_singleton.mp hy, hsame]
      · rw [heq]
        obtain ⟨kept, hlist, hkept⟩ := ih [x] ⟨s.earlier ++ [s.last], x⟩
          (fun y hy => hp y (List.mem_append_right _ hy))
          (fun y hy => by rw [List.mem_singleton.mp hy]) (Best.singleton x)
        refine ⟨s.last :: kept, by rw [hlist, List.append_assoc]; rfl, ?_⟩
        rw [List.splitBy_append_cons xs ?_,
          List.splitBy_of_isChain (List.ne_nil_of_mem hbest.mem) (isChain_of_kind hkind)]
        · exact .cons hbest hkept
        · intro y hy
          have hmem : y ∈ run := List.mem_of_getLast? hy
          exact decide_eq_false fun h => hother (h ▸ hkind y hmem)

/-- What is kept is the best of each run of elements of one kind. -/
theorem collapse_best {p : α → Prop} {xs : List α} (hc : Comparable kind better p)
    (hp : ∀ x ∈ xs, p x) :
    List.Forall₂ (Best better) (xs.splitBy fun x y => decide (kind x = kind y))
      (collapse kind better xs) := by
  cases xs with
  | nil => exact .nil
  | cons x xs =>
      obtain ⟨kept, hlist, hkept⟩ := foldl_extend_best hc [x] xs ⟨[], x⟩ hp
        (fun y hy => by rw [List.mem_singleton.mp hy]) (Best.singleton x)
      rw [collapse, hlist]
      exact hkept

end

end AiTrader.Runs
