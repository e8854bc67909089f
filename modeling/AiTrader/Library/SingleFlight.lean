import Mathlib.Data.Nat.Notation
import Mathlib.Data.Option.Basic

/-! # Single flight

Parties that want something from a shared state take a lock, look once more, and only then do the
expensive work: a *flight*.  What makes the state *good* enough stays.  A *setback* is anything that
stops a party from seeing or from reaching a good state.

* `Step`: what a party may do.
* `Sound`: a flight is under way only under the lock, and every flight but one is paid for by a
  setback.
* `Sound.step`: every step keeps it. -/

namespace AiTrader

/-- The shared state, the holder of the lock, and what has happened so far. -/
structure SingleFlight (ι σ : Type*) where
  shared : σ
  holder : Option ι
  flying : Bool
  flights : ℕ
  setbacks : ℕ

namespace SingleFlight

variable {ι σ : Type*} (good : σ → Prop)

/-- A step of some party, or of nobody. -/
inductive Step : SingleFlight ι σ → SingleFlight ι σ → Prop
  | stay (f : SingleFlight ι σ) : Step f f
  | grow (f : SingleFlight ι σ) (shared : σ) (h : good f.shared → good shared) :
      Step f { f with shared }
  | acquire (f : SingleFlight ι σ) (i : ι) (h : f.holder = none) : Step f { f with holder := some i }
  | launch (f : SingleFlight ι σ) (setback : ℕ) (hholder : f.holder.isSome)
      (hgrounded : f.flying = false) (h : good f.shared → 0 < setback) :
      Step f { f with
        flying := true, flights := f.flights + 1, setbacks := f.setbacks + setback }
  | release (f : SingleFlight ι σ) (setback : ℕ)
      (h : f.flying = true → good f.shared ∨ 0 < setback) :
      Step f { f with holder := none, flying := false, setbacks := f.setbacks + setback }

/-- Every flight but the last one ended in a setback. -/
structure Sound (f : SingleFlight ι σ) : Prop where
  held : f.flying = true → f.holder.isSome
  bound : f.flights ≤ f.setbacks + 1
  last : f.setbacks < f.flights → f.flying = true ∨ good f.shared

variable {good} {f g : SingleFlight ι σ}

theorem Sound.init (s : σ) : Sound good (⟨s, none, false, 0, 0⟩ : SingleFlight ι σ) where
  held h := by cases h
  bound := Nat.zero_le _
  last h := absurd h (Nat.lt_irrefl 0)

theorem Sound.step (hf : Sound good f) (h : Step good f g) : Sound good g := by
  cases h with
  | stay => exact hf
  | grow shared h => exact ⟨hf.held, hf.bound, fun hlt => (hf.last hlt).imp id h⟩
  | acquire i h => exact ⟨fun _ => rfl, hf.bound, hf.last⟩
  | launch setback hholder hgrounded h =>
      refine ⟨fun _ => hholder, ?_, fun _ => Or.inl rfl⟩
      have hbound := hf.bound
      dsimp only
      rcases Nat.lt_or_ge f.setbacks f.flights with hlt | hge
      · rcases hf.last hlt with hflying | hgood
        · rw [hgrounded] at hflying
          cases hflying
        · have hpos := h hgood
          omega
      · omega
  | release setback h =>
      have hbound := hf.bound
      refine ⟨fun hflying => Bool.noConfusion hflying, ?_, fun hlt => Or.inr ?_⟩
      · exact Nat.le_trans hbound (Nat.add_le_add_right (Nat.le_add_right _ _) 1)
      dsimp only at hlt
      rcases hf.last (by omega) with hflying | hgood
      · rcases h hflying with hgood | hpos
        · exact hgood
        · omega
      · exact hgood

end SingleFlight

end AiTrader
