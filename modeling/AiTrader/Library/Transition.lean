import Mathlib.Data.List.Induction
import Mathlib.Logic.Relation

/-! # Guarded transition systems

A system is a partial step function `step : σ → α → Option σ`: `α` is the type of what the
environment chooses (a response, a schedule, a clock reading), `none` means that the step
cannot be taken.  A *guard* `ok : σ → α → Prop` singles out the steps an environment
restricts itself to.

* `Reaches step ok s t`: some run from `s` to `t` takes guarded steps only.
* `Reaches.invariant`: what one guarded step preserves, a whole run preserves.
* `runOk`, `Reaches.of_runOk`: the executable form, for runs written down as a list.
* `Path step s tr t`: a run with its trace, the list of states left and choices taken.
* `Since p q l`: some element of a history meets `p` and all later ones meet `q`.
* `Path.forall_iff`: where one step keeps `I` exactly when it meets `ok`, a run keeps `I`
  throughout exactly when all its steps meet `ok`.
* `forall_prefix_iff`, `last_iff_forall`: the same for what is said of a run's inputs.
* `Path.dichotomy`: where a step that does not meet `ok` spoils the state for good, a run ends
  well exactly when all its steps meet `ok`. -/

namespace AiTrader.Transition

variable {σ α : Type*}

/-- `t` is reached from `s` by steps that all meet the guard. -/
inductive Reaches (step : σ → α → Option σ) (ok : σ → α → Prop) (s : σ) : σ → Prop
  | refl : Reaches step ok s s
  | tail {t u : σ} {a : α} :
      Reaches step ok s t → ok t a → step t a = some u → Reaches step ok s u

section
variable {step : σ → α → Option σ} {ok ok' : σ → α → Prop} {s t u : σ}

theorem Reaches.single {a : α} (hok : ok s a) (hs : step s a = some t) : Reaches step ok s t :=
  .tail .refl hok hs

theorem Reaches.trans (h₁ : Reaches step ok s t) (h₂ : Reaches step ok t u) :
    Reaches step ok s u := by
  induction h₂ with
  | refl => exact h₁
  | tail _ hok hs ih => exact .tail ih hok hs

/-- **Invariant rule.** What holds initially and is preserved by every guarded step holds in
every state reached. -/
theorem Reaches.invariant {I : σ → Prop}
    (hstep : ∀ x a y, I x → ok x a → step x a = some y → I y)
    (h : Reaches step ok s t) (h0 : I s) : I t := by
  induction h with
  | refl => exact h0
  | tail _ hok hs ih => exact hstep _ _ _ ih hok hs

/-- The invariant rule relative to one already established. -/
theorem Reaches.invariant_of {I J : σ → Prop}
    (hJ : ∀ x a y, J x → ok x a → step x a = some y → J y)
    (hstep : ∀ x a y, J x → I x → ok x a → step x a = some y → I y)
    (h : Reaches step ok s t) (hJ0 : J s) (h0 : I s) : J t ∧ I t :=
  h.invariant (I := fun x => J x ∧ I x)
    (fun x a y hx hok hs => ⟨hJ x a y hx.1 hok hs, hstep x a y hx.1 hx.2 hok hs⟩) ⟨hJ0, h0⟩

end

/-! ### Runs given as a list of choices -/

section
variable (step : σ → α → Option σ) (ok : σ → α → Prop) [∀ s a, Decidable (ok s a)]

/-- The state after the listed choices, if every step is guarded and can be taken. -/
def runOk : σ → List α → Option σ
  | s, [] => some s
  | s, a :: as => if ok s a then (step s a).bind (fun t => runOk t as) else none

variable {step ok}

theorem Reaches.of_runOk {s t : σ} {as : List α} (h : runOk step ok s as = some t) :
    Reaches step ok s t := by
  induction as generalizing s with
  | nil =>
      simp only [runOk, Option.some.injEq] at h
      exact h ▸ .refl
  | cons a as ih =>
      simp only [runOk] at h
      split at h
      · rename_i hok
        obtain ⟨x, hx, hr⟩ := Option.bind_eq_some_iff.mp h
        exact (Reaches.single hok hx).trans (ih hr)
      · cases h

end

/-! ### Runs with their trace -/

/-- A run from `s` with the states it left and the choices it took there. -/
inductive Path (step : σ → α → Option σ) (s : σ) : List (σ × α) → σ → Prop
  | nil : Path step s [] s
  | snoc {tr : List (σ × α)} {t u : σ} {a : α} :
      Path step s tr t → step t a = some u → Path step s (tr ++ [(t, a)]) u

/-- The trace of the listed choices. -/
def trace (step : σ → α → Option σ) : σ → List α → Option (List (σ × α) × σ)
  | s, [] => some ([], s)
  | s, a :: as =>
      (step s a).bind fun t => (trace step t as).map fun r => ((s, a) :: r.1, r.2)

section
variable {step : σ → α → Option σ} {ok : σ → α → Prop} {s t u : σ} {tr tr' : List (σ × α)}

theorem Path.trans (h₁ : Path step s tr t) (h₂ : Path step t tr' u) :
    Path step s (tr ++ tr') u := by
  induction h₂ with
  | nil => simpa using h₁
  | snoc _ hs ih =>
      rw [← List.append_assoc]
      exact .snoc ih hs

theorem Path.of_trace {as : List α} (h : trace step s as = some (tr, t)) : Path step s tr t := by
  induction as generalizing s tr with
  | nil =>
      cases h
      exact .nil
  | cons a as ih =>
      obtain ⟨x, hx, hr⟩ := Option.bind_eq_some_iff.mp h
      obtain ⟨⟨tr', t'⟩, ht, heq⟩ := Option.map_eq_some_iff.mp hr
      cases heq
      exact (Path.snoc .nil hx).trans (ih ht)

theorem Path.invariant {I : σ → Prop} (h : Path step s tr t)
    (hstep : ∀ x a y, (x, a) ∈ tr → I x → step x a = some y → I y) (h0 : I s) :
    (∀ x ∈ tr, I x.1) ∧ I t := by
  induction h with
  | nil => exact ⟨by simp, h0⟩
  | snoc _ hs ih =>
      obtain ⟨hall, hlast⟩ := ih fun x a y hx => hstep x a y (List.mem_append_left _ hx)
      refine ⟨fun x hx => ?_, hstep _ _ _ (List.mem_append_right _ List.mem_cons_self) hlast hs⟩
      rcases List.mem_append.mp hx with hx | hx
      · exact hall x hx
      · rw [List.mem_singleton.mp hx]
        exact hlast

theorem Path.of_concat {a : α} (h : Path step s (tr ++ [(u, a)]) t) :
    Path step s tr u ∧ step u a = some t := by
  generalize htr : tr ++ [(u, a)] = full at h
  cases h with
  | nil => simp at htr
  | snoc hp hs =>
      obtain ⟨rfl, hlast⟩ := List.append_inj' htr rfl
      cases hlast
      exact ⟨hp, hs⟩

theorem Path.split {a : α} (h : Path step s (tr ++ (u, a) :: tr') t) :
    Path step s tr u ∧ ∃ v, step u a = some v ∧ Path step v tr' t := by
  induction tr' using List.reverseRecOn generalizing t with
  | nil =>
      obtain ⟨hp, hs⟩ := h.of_concat
      exact ⟨hp, t, hs, .nil⟩
  | append_singleton tr' x ih =>
      obtain ⟨w, b⟩ := x
      rw [← List.cons_append, ← List.append_assoc] at h
      obtain ⟨hp, hs⟩ := h.of_concat
      obtain ⟨hu, v, hv, hrest⟩ := ih hp
      exact ⟨hu, v, hv, .snoc hrest hs⟩

/-- What every step relates to its outcome is related, from each state of a run, to its end. -/
theorem Path.rel_last {I : σ → Prop} {R : σ → σ → Prop}
    (htrans : ∀ x y z, R x y → R y z → R x z)
    (hI : ∀ x a y, I x → step x a = some y → I y)
    (hR : ∀ x a y, I x → step x a = some y → R x y)
    (h : Path step s tr t) (h0 : I s) : (∀ x ∈ tr, R x.1 t) ∧ I t := by
  induction h with
  | nil => exact ⟨by simp, h0⟩
  | snoc _ hs ih =>
      have hlast := hR _ _ _ ih.2 hs
      refine ⟨fun x hx => ?_, hI _ _ _ ih.2 hs⟩
      rcases List.mem_append.mp hx with hx | hx
      · exact htrans _ _ _ (ih.1 x hx) hlast
      · rw [List.mem_singleton.mp hx]
        exact hlast

/-- **Exact invariant rule.** If a step leads to a state with `I` exactly when it meets `ok`,
then `I` holds throughout a run exactly when all its steps meet `ok`. -/
theorem Path.forall_iff {I : σ → Prop} {J : σ → α → Prop}
    (hstep : ∀ x a y, step x a = some y → (I y ↔ J x a)) (h : Path step s tr t) (h0 : I s) :
    ((∀ x ∈ tr, I x.1) ∧ I t) ↔ ∀ x ∈ tr, J x.1 x.2 := by
  induction h with
  | nil => simp [h0]
  | @snoc tr t u a _ hs ih =>
      have hlast := hstep _ _ _ hs
      simp only [List.forall_mem_append, List.forall_mem_singleton] at ih ⊢
      rw [hlast, ih]

/-- **Spoiling rule.** A step that meets `J` keeps `I`, one that does not leads to `B`, and `B`
stays: a run ends in `I` with all its steps meeting `J`, or in `B` with some step that does
not. -/
theorem Path.dichotomy {I B : σ → Prop} {J : σ → α → Prop}
    (hgood : ∀ x a y, I x → step x a = some y → J x a → I y)
    (hbad : ∀ x a y, I x → step x a = some y → ¬ J x a → B y)
    (hstay : ∀ x a y, B x → step x a = some y → B y)
    (h : Path step s tr t) (h0 : I s) :
    (I t ∧ ∀ x ∈ tr, J x.1 x.2) ∨ (B t ∧ ¬ ∀ x ∈ tr, J x.1 x.2) := by
  induction h with
  | nil => exact .inl ⟨h0, by simp⟩
  | @snoc tr t u a _ hs ih =>
      simp only [List.forall_mem_append, List.forall_mem_singleton]
      rcases ih with ⟨hI, hJ⟩ | ⟨hB, hJ⟩
      · by_cases hja : J t a
        · exact .inl ⟨hgood _ _ _ hI hs hja, hJ, hja⟩
        · exact .inr ⟨hbad _ _ _ hI hs hja, fun hall => hja hall.2⟩
      · exact .inr ⟨hstay _ _ _ hB hs, fun hall => hJ hall.1⟩

end

/-! ### Histories -/

section
variable {β : Type*} {p q : β → Prop} {l : List β} {x : β}

/-- Some element meets `p`, and all that come after it meet `q`. -/
def Since (p q : β → Prop) (l : List β) : Prop :=
  ∃ l₁ x l₂, l = l₁ ++ x :: l₂ ∧ p x ∧ ∀ y ∈ l₂, q y

theorem not_since_nil : ¬ Since p q [] := by
  rintro ⟨l₁, x, l₂, h, -⟩
  simp at h

theorem since_concat : Since p q (l ++ [x]) ↔ p x ∨ (Since p q l ∧ q x) := by
  constructor
  · rintro ⟨l₁, y, l₂, h, hy, hl⟩
    rcases List.eq_nil_or_concat l₂ with rfl | ⟨l₂, z, rfl⟩
    · obtain ⟨-, hlast⟩ := List.append_inj' h rfl
      cases hlast
      exact .inl hy
    · rw [List.concat_eq_append, ← List.cons_append, ← List.append_assoc] at h
      obtain ⟨rfl, hlast⟩ := List.append_inj' h rfl
      cases hlast
      rw [List.concat_eq_append] at hl
      exact .inr ⟨⟨l₁, y, l₂, rfl, hy, fun w hw => hl w (List.mem_append_left _ hw)⟩,
        hl x (List.mem_append_right _ List.mem_cons_self)⟩
  · rintro (hx | ⟨⟨l₁, y, l₂, rfl, hy, hl⟩, hx⟩)
    · exact ⟨l, x, [], rfl, hx, by simp⟩
    · refine ⟨l₁, y, l₂ ++ [x], by simp, hy, fun w hw => ?_⟩
      rcases List.mem_append.mp hw with hw | hw
      · exact hl w hw
      · exact List.mem_singleton.mp hw ▸ hx

theorem since_last (hx : x ∈ l) (hp : p x) : Since p (fun y => ¬ p y) l := by
  induction l using List.reverseRecOn with
  | nil => cases hx
  | append_singleton l y ih =>
      rw [since_concat]
      by_cases hy : p y
      · exact .inl hy
      · refine .inr ⟨ih ?_, hy⟩
        rcases List.mem_append.mp hx with hx | hx
        · exact hx
        · exact absurd (List.mem_singleton.mp hx ▸ hp) hy

/-- **Exact invariant rule for inputs.** If one more input keeps `P` exactly when it meets `J`,
then `P` holds of every prefix exactly when every input meets `J` after those before it. -/
theorem forall_prefix_iff {P : List β → Prop} {J : List β → β → Prop} (h0 : P [])
    (hstep : ∀ l' x, l' ++ [x] <+: l → P l' → (P (l' ++ [x]) ↔ J l' x)) :
    (∀ l', l' <+: l → P l') ↔ ∀ l' x, l' ++ [x] <+: l → J l' x := by
  constructor
  · intro hP l' x hx
    have hl' : l' <+: l := (List.prefix_append l' [x]).trans hx
    exact (hstep l' x hx (hP l' hl')).mp (hP _ hx)
  · intro hJ l' hl'
    induction l' using List.reverseRecOn with
    | nil => exact h0
    | append_singleton l' x ih =>
        have hP := ih ((List.prefix_append l' [x]).trans hl')
        exact (hstep l' x hl' hP).mpr (hJ l' x hl')

/-- The same where what is spoiled stays spoiled: then the last state tells. -/
theorem last_iff_forall {P : List β → Prop} {J : List β → β → Prop} (h0 : P [])
    (hstep : ∀ l' x, l' ++ [x] <+: l → (P (l' ++ [x]) ↔ P l' ∧ J l' x)) :
    P l ↔ ∀ l' x, l' ++ [x] <+: l → J l' x := by
  induction l using List.reverseRecOn with
  | nil => simp [h0]
  | append_singleton l y ih =>
      rw [hstep l y (List.prefix_refl _),
        ih fun l' x h => hstep l' x (h.trans (List.prefix_append l [y]))]
      constructor
      · rintro ⟨hall, hlast⟩ l' x h
        rcases List.prefix_concat_iff.mp h with h | h
        · obtain ⟨rfl, hx⟩ := List.append_inj' h rfl
          cases hx
          exact hlast
        · exact hall l' x h
      · intro hall
        exact ⟨fun l' x h => hall l' x (h.trans (List.prefix_append l [y])),
          hall l y (List.prefix_refl _)⟩

end

end AiTrader.Transition
