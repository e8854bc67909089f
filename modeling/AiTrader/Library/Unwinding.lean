import Mathlib.Data.List.Basic

/-! # Unwinding

A machine `exec : σ → α → σ` and what one of its users can see of a state, its `view`.  Some
actions are `foreign` to the user.  Two local facts give noninterference over whole runs, in
states that meet an invariant `I` of the machine:

* *local respect*: a foreign action keeps the view;
* *output consistency*: what the user is told, `out`, is the same in states with the same view.

`noninterference`: after foreign actions, the user is told the same from states with the same
view, and the same as if they had not been taken. -/

namespace AiTrader.Unwinding

variable {σ α ν ο : Type*} {exec : σ → α → σ} {I : σ → Prop} {out : σ → ο}
  {foreign : α → Prop} {s t : σ} {as : List α}

/-- **Local respect**, over a run. -/
theorem foldl_view (view : σ → ν) (hI : ∀ s a, I s → I (exec s a))
    (hview : ∀ s a, I s → foreign a → view (exec s a) = view s)
    (hs : I s) (has : ∀ a ∈ as, foreign a) :
    I (as.foldl exec s) ∧ view (as.foldl exec s) = view s := by
  induction as generalizing s with
  | nil => exact ⟨hs, rfl⟩
  | cons a as ih =>
      obtain ⟨ha, has⟩ := List.forall_mem_cons.mp has
      obtain ⟨hlast, hkept⟩ := ih (hI s a hs) has
      exact ⟨hlast, hkept.trans (hview s a hs ha)⟩

theorem noninterference (view : σ → ν) (hI : ∀ s a, I s → I (exec s a))
    (hview : ∀ s a, I s → foreign a → view (exec s a) = view s)
    (hout : ∀ s t, I s → I t → view s = view t → out s = out t)
    (hs : I s) (ht : I t) (hst : view s = view t) (has : ∀ a ∈ as, foreign a) :
    out (as.foldl exec s) = out (as.foldl exec t) ∧ out (as.foldl exec s) = out s := by
  obtain ⟨hs', hsview⟩ := foldl_view view hI hview hs has
  obtain ⟨ht', htview⟩ := foldl_view view hI hview ht has
  exact ⟨hout _ _ hs' ht' (hsview.trans (hst.trans htview.symm)), hout _ _ hs' hs hsview⟩

end AiTrader.Unwinding
