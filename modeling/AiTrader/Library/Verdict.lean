import Mathlib.Data.List.Induction
import Mathlib.Order.Basic

/-! # Verdicts on histories

A verdict reads a history from its beginning and may decide.  It is *final* when nothing is
decided before anything has happened and what is decided stays decided as the history grows.

* `Final.of_take`, `Final.take_mono`: more of a history changes nothing.
* `Final.exists_decisive`: every verdict falls at one element of the history.
* `Final.findSome?`: the first element that decides. -/

namespace AiTrader.Verdict

variable {α β γ : Type*}

structure Final (d : List α → Option β) : Prop where
  nil : d [] = none
  append : ∀ xs ys b, d xs = some b → d (xs ++ ys) = some b

namespace Final

variable {d : List α → Option β} {l : List α} {m n : ℕ} {b : β}

theorem of_take (h : Final d) (hb : d (l.take n) = some b) : d l = some b := by
  rw [← List.take_append_drop n l]
  exact h.append _ _ b hb

theorem take_mono (h : Final d) (hmn : m ≤ n) (hb : d (l.take m) = some b) :
    d (l.take n) = some b := by
  refine h.of_take (n := m) ?_
  rwa [List.take_take, Nat.min_eq_left hmn]

/-- **The decisive element**: the verdict falls with it and not before. -/
theorem exists_decisive (h : Final d) (hb : d l = some b) :
    ∃ n < l.length, d (l.take n) = none ∧ d (l.take (n + 1)) = some b := by
  induction l using List.reverseRecOn with
  | nil => cases h.nil.symm.trans hb
  | append_singleton l a ih =>
      cases hl : d l with
      | none =>
          refine ⟨l.length, by simp, ?_, ?_⟩
          · rwa [List.take_left]
          · rwa [List.take_of_length_le (by simp)]
      | some c =>
          obtain rfl : c = b := Option.some.inj ((h.append l [a] c hl).symm.trans hb)
          obtain ⟨n, hn, hnone, hsome⟩ := ih hl
          refine ⟨n, by rw [List.length_append]; omega, ?_, ?_⟩
          · rwa [List.take_append_of_le_length (Nat.le_of_lt hn)]
          · rwa [List.take_append_of_le_length hn]

theorem map (h : Final d) (f : β → γ) : Final fun xs => (d xs).map f where
  nil := by rw [h.nil, Option.map_none]
  append xs ys c hc := by
    obtain ⟨b, hb, rfl⟩ := Option.map_eq_some_iff.mp hc
    rw [h.append xs ys b hb, Option.map_some]

theorem filter (h : Final d) (p : α → Bool) : Final fun xs => d (xs.filter p) where
  nil := h.nil
  append xs ys b hb := by
    rw [List.filter_append]
    exact h.append _ _ b hb

/-- The first element that decides. -/
theorem findSome? (f : α → Option β) : Final (List.findSome? f) where
  nil := rfl
  append xs ys b hb := by rw [List.findSome?_append, hb, Option.some_or]

end Final

end AiTrader.Verdict
