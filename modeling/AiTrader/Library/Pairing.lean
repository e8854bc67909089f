import Mathlib.Data.List.Perm.Basic
import Mathlib.Data.List.Nodup

/-! # Requests and answers in a log

A log is a list of messages; a message may issue requests, named by keys, and may answer one.
Keys may be issued again later: an answer counts for the latest request of its key.

* `Settled`: every request issued in the log has exactly one answer before its key is issued
  again.
* `Closed`: nothing is answered that was not issued before.
* `Paired`: both.  Paired logs compose (`Paired.append`), and a message together with one
  answer for each of its requests, in any order, is paired (`Paired.block`). -/

namespace AiTrader.Pairing

/-- What a message issues and what it answers. -/
structure Signature (M K : Type*) where
  issues : M → List K
  answers : M → Option K

section
variable {M K : Type*} [DecidableEq K] (σ : Signature M K)

/-- The number of answers to `k` up to the next message that issues `k`. -/
def answersBefore (k : K) : List M → ℕ
  | [] => 0
  | m :: rest =>
      if k ∈ σ.issues m then 0
      else (if σ.answers m = some k then 1 else 0) + answersBefore k rest

/-- Every request has exactly one answer. -/
def Settled : List M → Prop
  | [] => True
  | m :: rest => (∀ k ∈ σ.issues m, answersBefore σ k rest = 1) ∧ Settled rest

/-- Every answer is to a request made before it. -/
def Closed (ms : List M) : Prop := ∀ k, answersBefore σ k ms = 0

instance decidableSettled : ∀ ms : List M, Decidable (Settled σ ms)
  | [] => .isTrue trivial
  | m :: rest =>
      have := decidableSettled rest
      inferInstanceAs (Decidable ((∀ k ∈ σ.issues m, answersBefore σ k rest = 1) ∧ _))

/-- Requests and answers match. -/
structure Paired (ms : List M) : Prop where
  settled : Settled σ ms
  closed : Closed σ ms

variable {σ} {k : K} {m : M} {xs ys ms : List M}

theorem answersBefore_append_of_issued (h : ∃ m ∈ xs, k ∈ σ.issues m) :
    answersBefore σ k (xs ++ ys) = answersBefore σ k xs := by
  induction xs with
  | nil => simp at h
  | cons x xs ih =>
      simp only [List.cons_append, answersBefore]
      split
      · rfl
      · rename_i hx
        rw [ih]
        obtain ⟨m, hm, hk⟩ := h
        rcases List.mem_cons.mp hm with rfl | hm
        · exact absurd hk hx
        · exact ⟨m, hm, hk⟩

theorem answersBefore_append_of_not_issued (h : ∀ m ∈ xs, k ∉ σ.issues m) :
    answersBefore σ k (xs ++ ys) = answersBefore σ k xs + answersBefore σ k ys := by
  induction xs with
  | nil => simp [answersBefore]
  | cons x xs ih =>
      have hx : k ∉ σ.issues x := h x List.mem_cons_self
      have hxs := ih (fun m hm => h m (List.mem_cons_of_mem _ hm))
      simp only [List.cons_append, answersBefore, if_neg hx, hxs]
      omega

/-- What follows a log changes no count of it, as long as what follows is closed. -/
theorem answersBefore_append_closed (hy : Closed σ ys) :
    answersBefore σ k (xs ++ ys) = answersBefore σ k xs := by
  by_cases h : ∃ m ∈ xs, k ∈ σ.issues m
  · exact answersBefore_append_of_issued h
  · have h' : ∀ m ∈ xs, k ∉ σ.issues m := fun m hm hk => h ⟨m, hm, hk⟩
    rw [answersBefore_append_of_not_issued h', hy k, Nat.add_zero]

theorem Settled.append (hx : Settled σ xs) (hy : Settled σ ys) (hc : Closed σ ys) :
    Settled σ (xs ++ ys) := by
  induction xs with
  | nil => exact hy
  | cons x xs ih =>
      obtain ⟨hhead, htail⟩ := hx
      refine ⟨fun k hk => ?_, ih htail⟩
      show answersBefore σ k (xs ++ ys) = 1
      rw [answersBefore_append_closed hc]
      exact hhead k hk

theorem Settled.answered {pre rest : List M} (h : Settled σ (pre ++ m :: rest))
    (hk : k ∈ σ.issues m) : answersBefore σ k rest = 1 := by
  induction pre with
  | nil => exact h.1 k hk
  | cons x pre ih => exact ih h.2

/-- Where a key is not issued again, all its later answers count. -/
theorem answersBefore_eq_countP (h : ∀ m ∈ ms, k ∉ σ.issues m) :
    answersBefore σ k ms = ms.countP (fun m => σ.answers m = some k) := by
  induction ms with
  | nil => rfl
  | cons m ms ih =>
      have hm : k ∉ σ.issues m := h m List.mem_cons_self
      have hms := ih (fun x hx => h x (List.mem_cons_of_mem _ hx))
      simp only [answersBefore, if_neg hm, hms, List.countP_cons]
      by_cases ha : σ.answers m = some k
      · simp only [ha, if_true, decide_true]
        omega
      · simp [ha]

theorem Closed.append (hx : Closed σ xs) (hy : Closed σ ys) : Closed σ (xs ++ ys) := fun k => by
  rw [answersBefore_append_closed hy]
  exact hx k

theorem Closed.of_append (h : Closed σ (xs ++ ys)) : Closed σ xs := by
  intro k
  by_cases hk : ∃ m ∈ xs, k ∈ σ.issues m
  · rw [← answersBefore_append_of_issued hk]
    exact h k
  · have hall := h k
    rw [answersBefore_append_of_not_issued fun m hm hkm => hk ⟨m, hm, hkm⟩] at hall
    omega

theorem Closed.singleton (h : σ.answers m = none) : Closed σ [m] := by
  intro k
  simp [answersBefore, h]

theorem Paired.nil : Paired σ [] := ⟨trivial, fun _ => rfl⟩

/-- Paired logs compose. -/
theorem Paired.append (hx : Paired σ xs) (hy : Paired σ ys) : Paired σ (xs ++ ys) :=
  ⟨hx.settled.append hy.settled hy.closed, hx.closed.append hy.closed⟩

theorem Paired.plain (h : ∀ m ∈ ms, σ.issues m = [] ∧ σ.answers m = none) : Paired σ ms := by
  induction ms with
  | nil => exact .nil
  | cons m ms ih =>
      obtain ⟨hi, ha⟩ := h m List.mem_cons_self
      have htail := ih (fun x hx => h x (List.mem_cons_of_mem _ hx))
      refine ⟨⟨fun k hk => by simp [hi] at hk, htail.settled⟩, fun k => ?_⟩
      simp only [answersBefore, hi, ha, List.not_mem_nil, if_false, htail.closed k]
      simp

theorem answersBefore_of_not_issuing (h : ∀ x ∈ ms, σ.issues x = []) :
    answersBefore σ k ms = (ms.filterMap σ.answers).count k := by
  induction ms with
  | nil => rfl
  | cons m ms ih =>
      have hm : k ∉ σ.issues m := by simp [h m List.mem_cons_self]
      have hms := ih (fun x hx => h x (List.mem_cons_of_mem _ hx))
      cases ha : σ.answers m with
      | none => simp [answersBefore, hm, ha, hms]
      | some j =>
          rw [List.filterMap_cons_some ha]
          by_cases hj : j = k
          · simp [answersBefore, hm, ha, hms, hj, Nat.add_comm]
          · simp [answersBefore, hm, ha, hms, hj]

theorem settled_of_not_issuing (h : ∀ x ∈ ms, σ.issues x = []) : Settled σ ms := by
  induction ms with
  | nil => trivial
  | cons m ms ih =>
      refine ⟨fun k hk => ?_, ih (fun x hx => h x (List.mem_cons_of_mem _ hx))⟩
      simp [h m List.mem_cons_self] at hk

/-- A message and one answer to each of its requests. -/
theorem Paired.block (hm : σ.answers m = none) (hnd : (σ.issues m).Nodup)
    (hsil : ∀ x ∈ ms, σ.issues x = []) (hperm : (ms.filterMap σ.answers).Perm (σ.issues m)) :
    Paired σ (m :: ms) := by
  have hcount : ∀ k, answersBefore σ k ms = (σ.issues m).count k := fun k => by
    rw [answersBefore_of_not_issuing hsil, hperm.count_eq]
  refine ⟨⟨fun k hk => ?_, settled_of_not_issuing hsil⟩, fun k => ?_⟩
  · rw [hcount, List.count_eq_one_of_mem hnd hk]
  · simp only [answersBefore, hm]
    split
    · rfl
    · rename_i hk
      rw [hcount, List.count_eq_zero_of_not_mem hk]
      rfl

end

end AiTrader.Pairing
