import Mathlib.Data.List.Forall2
import Mathlib.Data.List.Induction
import Mathlib.Data.List.Nodup

/-! # Hash chains

A log in which every row stores the hash of the row before it and a hash of that hash together
with its own body.  A `Scheme` says how a row is read and how a link is computed; rows, hashes
and bodies are arbitrary types.

* `Chained g rows`: the rows chain up from the genesis value `g`.
* `tip g rows`: the hash of the last row, `g` when there is none.
* `CollisionFree D g`: on the hashes in `D` a link determines what it was computed from, and no
  link is `g`.
* `Chained.commit`: then equal tips have equal histories.
* `Chained.edit`, `Chained.remove_iff`, `Chained.swap`, `Chained.insert_copy`: then what a single
  tamper leaves is chained only if it was the removal of the last row. -/

namespace AiTrader.HashChain

/-- How the rows of a log are read, and how a link is computed. -/
structure Scheme (ρ η β : Type*) where
  prevOf : ρ → η
  hashOf : ρ → η
  bodyOf : ρ → β
  link : η → β → η

namespace Scheme

variable {ρ η β : Type*} (S : Scheme ρ η β)

/-- Every row links to the row before it, the first one to `g`. -/
def Chained : η → List ρ → Prop
  | _, [] => True
  | g, r :: rs => S.prevOf r = g ∧ S.hashOf r = S.link g (S.bodyOf r) ∧ Chained (S.hashOf r) rs

/-- The hash of the last row. -/
def tip : η → List ρ → η
  | g, [] => g
  | _, r :: rs => tip (S.hashOf r) rs

variable {S} {g : η} {xs ys zs : List ρ} {r : ρ}

@[simp] theorem chained_nil : S.Chained g [] := trivial

@[simp] theorem tip_nil : S.tip g [] = g := rfl

theorem tip_append (g : η) (xs ys : List ρ) : S.tip g (xs ++ ys) = S.tip (S.tip g xs) ys := by
  induction xs generalizing g with
  | nil => rfl
  | cons x xs ih => exact ih (S.hashOf x)

@[simp] theorem tip_concat (g : η) (xs : List ρ) (r : ρ) : S.tip g (xs ++ [r]) = S.hashOf r := by
  rw [tip_append]
  rfl

theorem chained_append :
    S.Chained g (xs ++ ys) ↔ S.Chained g xs ∧ S.Chained (S.tip g xs) ys := by
  induction xs generalizing g with
  | nil => simp
  | cons x xs ih =>
      simp only [List.cons_append, Chained, tip, ih]
      tauto

/-- **Append rule.** A log stays chained exactly when the new row links to its tip. -/
theorem chained_concat : S.Chained g (xs ++ [r]) ↔
    S.Chained g xs ∧ S.prevOf r = S.tip g xs ∧
      S.hashOf r = S.link (S.tip g xs) (S.bodyOf r) := by
  rw [chained_append]
  simp [Chained]

theorem Chained.row (h : S.Chained g (xs ++ r :: ys)) :
    S.prevOf r = S.tip g xs ∧ S.hashOf r = S.link (S.tip g xs) (S.bodyOf r) := by
  obtain ⟨-, hp, hh, -⟩ := chained_append.mp h
  exact ⟨hp, hh⟩

/-- Links determine what they were computed from.  `D` holds the hashes a chain can contain. -/
structure CollisionFree (S : Scheme ρ η β) (D : η → Prop) (g : η) : Prop where
  genesis_mem : D g
  link_mem : ∀ h b, D (S.link h b)
  link_inj : ∀ h h' b b', D h → D h' → S.link h b = S.link h' b' → h = h' ∧ b = b'
  link_ne : ∀ h b, S.link h b ≠ g

section
variable {D : η → Prop} (C : CollisionFree S D g)
include C

theorem Chained.tip_mem (h : S.Chained g xs) : D (S.tip g xs) := by
  cases xs using List.reverseRecOn with
  | nil => exact C.genesis_mem
  | append_singleton xs r =>
      obtain ⟨-, -, hh⟩ := chained_concat.mp h
      rw [tip_concat, hh]
      exact C.link_mem _ _

/-- Only the empty log has the genesis value for its tip. -/
theorem Chained.tip_ne (h : S.Chained g (xs ++ [r])) : S.tip g (xs ++ [r]) ≠ g := by
  obtain ⟨-, -, hh⟩ := chained_concat.mp h
  rw [tip_concat, hh]
  exact C.link_ne _ _

/-- **Commitment.** Two chained logs with one tip have the same links and bodies, position by
position; in particular neither is a proper suffix of the other. -/
theorem Chained.commit (hx : S.Chained g xs) (hy : S.Chained g ys)
    (htip : S.tip g xs = S.tip g ys) :
    List.Forall₂ (fun x y => S.prevOf x = S.prevOf y ∧ S.bodyOf x = S.bodyOf y ∧
      S.hashOf x = S.hashOf y) xs ys := by
  -- backwards along the first log: the last links agree, so what they were computed from does
  induction xs using List.reverseRecOn generalizing ys with
  | nil =>
      cases ys using List.reverseRecOn with
      | nil => exact .nil
      | append_singleton ys y => exact absurd htip.symm (hy.tip_ne C)
  | append_singleton xs x ih =>
      cases ys using List.reverseRecOn with
      | nil => exact absurd htip (hx.tip_ne C)
      | append_singleton ys y =>
          obtain ⟨hxs, hxp, hxh⟩ := chained_concat.mp hx
          obtain ⟨hys, hyp, hyh⟩ := chained_concat.mp hy
          rw [tip_concat, tip_concat] at htip
          have hlink : S.link (S.tip g xs) (S.bodyOf x) = S.link (S.tip g ys) (S.bodyOf y) := by
            rw [← hxh, ← hyh, htip]
          obtain ⟨hprev, hbody⟩ :=
            C.link_inj _ _ _ _ (hxs.tip_mem C) (hys.tip_mem C) hlink
          have hlast : S.prevOf x = S.prevOf y := by rw [hxp, hyp, hprev]
          exact (List.rel_append (ih hxs hys hprev)
            (.cons ⟨hlast, hbody, htip⟩ .nil))

/-- Along a chained log the tip never comes back. -/
theorem Chained.eq_nil_of_tip_eq (h : S.Chained g (xs ++ ys))
    (htip : S.tip g xs = S.tip g (xs ++ ys)) : ys = [] := by
  have hlen := ((chained_append.mp h).1.commit C h htip).length_eq
  rw [List.length_append] at hlen
  exact List.length_eq_zero_iff.mp (by omega)

/-! ### Single tampers -/

/-- A row edited in place, with another body, breaks the chain. -/
theorem Chained.edit {r' : ρ} (h : S.Chained g (xs ++ r :: ys)) (hhash : S.hashOf r' = S.hashOf r)
    (hbody : S.bodyOf r' ≠ S.bodyOf r) : ¬ S.Chained g (xs ++ r' :: ys) := by
  intro h'
  have hD := (chained_append.mp h).1.tip_mem C
  have hlink : S.link (S.tip g xs) (S.bodyOf r') = S.link (S.tip g xs) (S.bodyOf r) := by
    rw [← h'.row.2, ← h.row.2, hhash]
  exact hbody (C.link_inj _ _ _ _ hD hD hlink).2

/-- A removed row breaks the chain unless it was the last one. -/
theorem Chained.remove_iff (h : S.Chained g (xs ++ r :: ys)) :
    S.Chained g (xs ++ ys) ↔ ys = [] := by
  constructor
  · intro h'
    cases ys with
    | nil => rfl
    | cons y ys =>
        have happ : xs ++ r :: y :: ys = (xs ++ [r]) ++ y :: ys := by simp
        rw [happ] at h
        have htip : S.tip g xs = S.tip g (xs ++ [r]) := by rw [← h'.row.1, ← h.row.1]
        exact absurd ((chained_append.mp h).1.eq_nil_of_tip_eq C htip) (by simp)
  · rintro rfl
    rw [List.append_nil]
    exact (chained_append.mp h).1

/-- Two rows exchanged break the chain. -/
theorem Chained.swap {a b : ρ} (h : S.Chained g (xs ++ a :: ys ++ b :: zs)) :
    ¬ S.Chained g (xs ++ b :: ys ++ a :: zs) := by
  intro h'
  rw [List.append_assoc, List.cons_append] at h'
  have htip : S.tip g xs = S.tip g (xs ++ a :: ys) := by rw [← h'.row.1, ← h.row.1]
  exact absurd ((chained_append.mp h).1.eq_nil_of_tip_eq C htip) (by simp)

/-- A copy of a row inserted anywhere breaks the chain. -/
theorem Chained.insert_copy (h : S.Chained g (xs ++ ys)) (hr : r ∈ xs ++ ys) :
    ¬ S.Chained g (xs ++ r :: ys) := by
  intro h'
  have happ : xs ++ r :: ys = (xs ++ [r]) ++ ys := by simp
  have hpre : S.Chained g (xs ++ [r]) := (chained_append.mp (happ ▸ h')).1
  cases ys with
  | nil =>
      -- the original stands in the part before the copy, which ends with the copy's hash
      obtain ⟨as, bs, rfl⟩ := List.append_of_mem (by simpa using hr)
      have hsplit : as ++ r :: bs ++ [r] = (as ++ [r]) ++ (bs ++ [r]) := by simp
      rw [hsplit] at hpre
      have htip : S.tip g (as ++ [r]) = S.tip g ((as ++ [r]) ++ (bs ++ [r])) := by
        rw [← List.append_assoc, tip_concat, tip_concat]
      exact absurd (hpre.eq_nil_of_tip_eq C htip) (by simp)
  | cons y ys =>
      rw [happ] at h'
      have htip : S.tip g xs = S.tip g (xs ++ [r]) := by rw [← h.row.1, ← h'.row.1]
      exact absurd (hpre.eq_nil_of_tip_eq C htip) (by simp)

end

end Scheme

end AiTrader.HashChain
