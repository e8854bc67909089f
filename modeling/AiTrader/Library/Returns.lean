import Mathlib.Data.List.Basic

/-! # Computations that return

`Returns x P`: the partial computation `x` has a value, and it meets `P`.  There is one rule for
each way in which such computations are put together. -/

namespace AiTrader

/-- `x` has a value, with the property `P`. -/
def Returns {α : Type*} (x : Option α) (P : α → Prop) : Prop := ∃ a, x = some a ∧ P a

namespace Returns

variable {α β : Type*} {P Q : α → Prop} {x y : Option α} {a : α}

theorem some (h : P a) : Returns (some a) P := ⟨a, rfl, h⟩

theorem of_eq (h : x = Option.some a) : Returns x (· = a) := ⟨a, h, rfl⟩

theorem mono (h : Returns x P) (himp : ∀ a, P a → Q a) : Returns x Q := by
  obtain ⟨a, ha, hP⟩ := h
  exact ⟨a, ha, himp a hP⟩

theorem bind {α β : Type _} {x : Option α} {f : α → Option β} {Q : α → Prop} {P : β → Prop}
    (hx : Returns x Q) (hf : ∀ a, Q a → Returns (f a) P) : Returns (x >>= f) P := by
  obtain ⟨a, rfl, ha⟩ := hx
  exact hf a ha

theorem map {f : α → β} {P : β → Prop} (h : Returns x fun a => P (f a)) : Returns (x.map f) P := by
  obtain ⟨a, rfl, ha⟩ := h
  exact ⟨f a, rfl, ha⟩

theorem ite {c : Prop} [Decidable c] (hpos : c → Returns x P) (hneg : ¬ c → Returns y P) :
    Returns (if c then x else y) P := by
  by_cases h : c
  · rw [if_pos h]
    exact hpos h
  · rw [if_neg h]
    exact hneg h

theorem guard {c : Prop} [Decidable c] (ha : P a) (h : ¬ c → Returns x P) :
    Returns (if c then Option.some a else x) P :=
  ite (fun _ => some ha) h

theorem mapM {α β : Type _} {f : α → Option β} {P : β → Prop} {xs : List α}
    (h : ∀ x ∈ xs, Returns (f x) P) : Returns (xs.mapM f) fun ys => ∀ y ∈ ys, P y := by
  induction xs with
  | nil => exact some (List.forall_mem_nil _)
  | cons x xs ih =>
      obtain ⟨hx, hxs⟩ := List.forall_mem_cons.mp h
      rw [List.mapM_cons]
      refine bind hx fun y hy => bind (ih hxs) fun ys hys => ?_
      exact some (List.forall_mem_cons.mpr ⟨hy, hys⟩)

theorem getElem? {xs : List α} {i : ℕ} (h : i < xs.length) :
    Returns xs[i]? fun a => xs[i]? = Option.some a :=
  ⟨xs[i], List.getElem?_eq_getElem h, List.getElem?_eq_getElem h⟩

end Returns

end AiTrader
