import Mathlib.Data.List.Basic

/-! # Calls that may raise

Inversion of the combinators of `Except`: what a computation that did not raise was made of, and
what one that raised may have raised (`RaisesOnly`).  A loop none of whose calls raises is the
plain loop (`mapM_eq_pure`, `foldlM_eq_pure`). -/

namespace AiTrader.Fallible

variable {ε ε' α β : Type*}

@[simp] theorem ok_bind (a : α) (f : α → Except ε β) : (Except.ok a : Except ε α).bind f = f a := rfl

@[simp] theorem error_bind (e : ε) (f : α → Except ε β) :
    (Except.error e : Except ε α).bind f = .error e := rfl

theorem bind_eq_ok {α β : Type _} {x : Except ε α} {f : α → Except ε β} {b : β} :
    x >>= f = .ok b ↔ ∃ a, x = .ok a ∧ f a = .ok b := by
  cases x with
  | error e => exact iff_of_false nofun nofun
  | ok a =>
      constructor
      · exact fun h => ⟨a, rfl, h⟩
      · rintro ⟨a', h, hf⟩
        cases h
        exact hf

theorem mapError_eq_ok {x : Except ε α} {f : ε → ε'} {a : α} :
    x.mapError f = .ok a ↔ x = .ok a := by
  cases x with
  | error e => exact iff_of_false nofun nofun
  | ok a' => simp [Except.mapError]

theorem bind_congr_ok {α β : Type _} {x : Except ε α} {f g : α → Except ε β}
    (h : ∀ a, x = .ok a → f a = g a) : x >>= f = x >>= g := by
  cases x with
  | error e => rfl
  | ok a => exact h a rfl

theorem mem_of_mapM_eq_ok {α β : Type _} {f : α → Except ε β} {xs : List α} {ys : List β}
    (h : xs.mapM f = .ok ys) : ∀ y ∈ ys, ∃ x ∈ xs, f x = .ok y := by
  induction xs generalizing ys with
  | nil =>
      cases h
      simp
  | cons x xs ih =>
      rw [List.mapM_cons] at h
      obtain ⟨y, hy, h⟩ := bind_eq_ok.mp h
      obtain ⟨ys, hys, h⟩ := bind_eq_ok.mp h
      cases h
      intro z hz
      rcases List.mem_cons.mp hz with rfl | hz
      · exact ⟨x, List.mem_cons_self, hy⟩
      · obtain ⟨w, hw, hfw⟩ := ih hys z hz
        exact ⟨w, List.mem_cons_of_mem x hw, hfw⟩

theorem forall₂_of_mapM_eq_some {α β : Type _} {f : α → Option β} {xs : List α} {ys : List β}
    (h : xs.mapM f = some ys) : List.Forall₂ (fun x y => f x = some y) xs ys := by
  induction xs generalizing ys with
  | nil =>
      cases h
      exact .nil
  | cons x xs ih =>
      rw [List.mapM_cons] at h
      obtain ⟨y, hy, h⟩ := Option.bind_eq_some_iff.mp h
      obtain ⟨ys, hys, h⟩ := Option.bind_eq_some_iff.mp h
      cases h
      exact .cons hy (ih hys)

section
variable {m : Type _ → Type _} [Monad m] [LawfulMonad m] {γ : Type*} {α β : Type _} {xs : List γ}

theorem mapM_eq_pure {f : γ → m β} {g : γ → β} (h : ∀ x ∈ xs, f x = pure (g x)) :
    xs.mapM f = pure (xs.map g) := by
  induction xs with
  | nil => rfl
  | cons x xs ih =>
      rw [List.mapM_cons, h x List.mem_cons_self, pure_bind,
        ih fun y hy => h y (List.mem_cons_of_mem x hy), pure_bind, List.map_cons]

theorem foldlM_eq_pure {f : β → γ → m β} {g : β → γ → β}
    (h : ∀ b, ∀ x ∈ xs, f b x = pure (g b x)) (b : β) :
    xs.foldlM f b = pure (xs.foldl g b) := by
  induction xs generalizing b with
  | nil => rfl
  | cons x xs ih =>
      rw [List.foldlM_cons, h b x List.mem_cons_self, pure_bind,
        ih fun b y hy => h b y (List.mem_cons_of_mem x hy), List.foldl_cons]

end

/-- Whatever the call raises meets `P`. -/
def RaisesOnly (P : ε → Prop) (x : Except ε α) : Prop := ∀ e, x = .error e → P e

section
variable {P : ε → Prop}

theorem raisesOnly_ok (P : ε → Prop) (a : α) : RaisesOnly P (.ok a) := nofun

theorem raisesOnly_error {e : ε} : RaisesOnly P (.error e : Except ε α) ↔ P e := by
  constructor
  · exact fun h => h e rfl
  · rintro h e' he
    cases he
    exact h

theorem raisesOnly_bind {α β : Type _} {x : Except ε α} {f : α → Except ε β} :
    RaisesOnly P (x >>= f) ↔ RaisesOnly P x ∧ ∀ a, x = .ok a → RaisesOnly P (f a) := by
  cases x with
  | error e =>
      constructor
      · exact fun h => ⟨raisesOnly_error.mpr (h e rfl), nofun⟩
      · exact fun h => raisesOnly_error.mpr (h.1 e rfl)
  | ok a =>
      constructor
      · rintro h
        refine ⟨raisesOnly_ok P a, fun a' ha => ?_⟩
        cases ha
        exact h
      · exact fun h => h.2 a rfl

end

end AiTrader.Fallible
