import AiTrader.Library.Table
import Mathlib.Data.List.Induction

/-! # One machine per key

A machine reads an input, moves on and puts something out: `exec : σ → α → σ × List ω`.

* `run`: the state after a list of inputs, with all that was put out on the way.
* `Projection`: a machine in which every input has a key and moves only what belongs to its key;
  `view` is what belongs to a key, and `step` how it moves.
* `Projection.view_run`: what belongs to a key has read the inputs of that key, and no others.
* `Projection.filter_run`: what is put out for a key is put out on the inputs of that key alone,
  where `label` tells whom an output is for.
* `Projection.out_of_forall_key`: what is put out on inputs of one key.
* `Bank`, `feed`: one state for every key seen so far, the plainest such machine. -/

namespace AiTrader.Keyed

section
variable {σ α ω : Type*} {exec : σ → α → σ × List ω} {s : σ} {as : List α} {a : α}

/-- All inputs in turn. -/
def run (exec : σ → α → σ × List ω) (s : σ) (as : List α) : σ × List ω :=
  as.foldl (fun r a => ((exec r.1 a).1, r.2 ++ (exec r.1 a).2)) (s, [])

@[simp] theorem run_nil : run exec s [] = (s, []) := rfl

theorem run_concat :
    run exec s (as ++ [a]) =
      ((exec (run exec s as).1 a).1, (run exec s as).2 ++ (exec (run exec s as).1 a).2) := by
  rw [run, List.foldl_append]
  rfl

theorem run_append (bs : List α) :
    run exec s (as ++ bs) =
      ((run exec (run exec s as).1 bs).1, (run exec s as).2 ++ (run exec (run exec s as).1 bs).2) := by
  induction bs using List.reverseRecOn with
  | nil => simp
  | append_singleton bs b ih =>
      rw [← List.append_assoc, run_concat, run_concat, ih, List.append_assoc]

end

/-! ### Machines that keep their keys apart -/

/-- An input moves what belongs to its key, by `step`, and nothing else. -/
structure Projection {σ τ κ α ω : Type*} (exec : σ → α → σ × List ω) (key : α → κ)
    (view : κ → σ → τ) (step : τ → α → τ × List ω) : Prop where
  own : ∀ s a, view (key a) (exec s a).1 = (step (view (key a) s) a).1
  out : ∀ s a, (exec s a).2 = (step (view (key a) s) a).2
  other : ∀ s a k, k ≠ key a → view k (exec s a).1 = view k s

namespace Projection

variable {σ τ κ α ω : Type*} [DecidableEq κ] {exec : σ → α → σ × List ω} {key : α → κ}
  {view : κ → σ → τ} {step : τ → α → τ × List ω} {s : σ}

theorem view_run (h : Projection exec key view step) (as : List α) (k : κ) :
    view k (run exec s as).1 =
      (run step (view k s) (as.filter fun a => decide (key a = k))).1 := by
  induction as using List.reverseRecOn with
  | nil => rfl
  | append_singleton as a ih =>
      rw [run_concat, List.filter_append]
      by_cases hk : key a = k
      · rw [List.filter_cons_of_pos (by simpa using hk), List.filter_nil, run_concat, ← ih, ← hk]
        exact h.own _ a
      · rw [List.filter_cons_of_neg (by simpa using hk), List.filter_nil, List.append_nil, ← ih]
        exact h.other _ a k fun heq => hk heq.symm

variable {label : ω → κ} {I : κ → τ → Prop}

theorem forall_run (h : Projection exec key view step) (h0 : ∀ k, I k (view k s))
    (hI : ∀ t a, I (key a) t → I (key a) (step t a).1) (as : List α) (k : κ) :
    I k (view k (run exec s as).1) := by
  induction as using List.reverseRecOn generalizing k with
  | nil => exact h0 k
  | append_singleton as a ih =>
      rw [run_concat]
      by_cases hk : k = key a
      · rw [hk, h.own]
        exact hI _ a (ih (key a))
      · rw [h.other _ a k hk]
        exact ih k

theorem filter_run (h : Projection exec key view step) (h0 : ∀ k, I k (view k s))
    (hI : ∀ t a, I (key a) t → I (key a) (step t a).1)
    (hlabel : ∀ t a, I (key a) t → ∀ w ∈ (step t a).2, label w = key a) (as : List α) (k : κ) :
    (run exec s as).2.filter (fun w => decide (label w = k)) =
      (run step (view k s) (as.filter fun a => decide (key a = k))).2 := by
  induction as using List.reverseRecOn with
  | nil => rfl
  | append_singleton as a ih =>
      have hout := hlabel _ a (h.forall_run h0 hI as (key a))
      rw [run_concat, List.filter_append, List.filter_append, ih, h.out]
      by_cases hk : key a = k
      · have hall : (step (view (key a) (run exec s as).1) a).2.filter
            (fun w => decide (label w = k)) =
              (step (view (key a) (run exec s as).1) a).2 :=
          List.filter_eq_self.mpr fun w hw => decide_eq_true ((hout w hw).trans hk)
        rw [List.filter_cons_of_pos (by simpa using hk), List.filter_nil, run_concat, hall,
          h.view_run, hk]
      · have hnone : (step (view (key a) (run exec s as).1) a).2.filter
            (fun w => decide (label w = k)) = [] := by
          refine List.filter_eq_nil_iff.mpr fun w hw => ?_
          rw [hout w hw]
          simpa using hk
        rw [List.filter_cons_of_neg (by simpa using hk), List.filter_nil, hnone, List.append_nil,
          List.append_nil]

/-- Inputs of one key are that key's machine. -/
theorem out_of_forall_key (h : Projection exec key view step) {as : List α} {k : κ}
    (hk : ∀ a ∈ as, key a = k) : (run exec s as).2 = (run step (view k s) as).2 := by
  induction as using List.reverseRecOn with
  | nil => rfl
  | append_singleton as a ih =>
      have has : ∀ b ∈ as, key b = k := fun b hb => hk b (List.mem_append_left _ hb)
      have hfilter : as.filter (fun b => decide (key b = k)) = as :=
        List.filter_eq_self.mpr fun b hb => decide_eq_true (has b hb)
      rw [run_concat, run_concat, ih has, h.out, h.view_run,
        hk a (List.mem_append_right _ List.mem_cons_self), hfilter]

end Projection

/-! ### Banks -/

/-- A state for each key seen. -/
abbrev Bank (κ ς : Type*) := Table (Prod.fst : κ × ς → κ)

section
variable {κ ς α ω : Type*} [DecidableEq κ]

def Bank.get (b : Bank κ ς) (k : κ) : Option ς := (b.find? k).map Prod.snd

def Bank.set (b : Bank κ ς) (k : κ) (s : ς) : Bank κ ς := b.replace (k, s)

/-- Forget a key. -/
def Bank.erase (b : Bank κ ς) (k : κ) : Bank κ ς := b.deleteWhere fun row => decide (row.1 = k)

@[simp] theorem Bank.get_empty (k : κ) : Bank.get (Table.empty : Bank κ ς) k = none := rfl

theorem Bank.get_set (b : Bank κ ς) (k l : κ) (s : ς) :
    (b.set k s).get l = if l = k then some s else b.get l := by
  rw [get, set, Table.find?_replace]
  split
  · rfl
  · rfl

theorem Bank.get_erase (b : Bank κ ς) (k l : κ) :
    (b.erase k).get l = if l = k then none else b.get l := by
  rw [get, erase, Table.find?_deleteWhere, get]
  cases hl : b.find? l with
  | none => simp
  | some row =>
      have hrow := Table.find?_key hl
      by_cases hk : l = k
      · simp [Option.filter, hrow, hk]
      · simp [Option.filter, hrow, hk]

variable (key : α → κ) (step : Option ς → α → ς × List ω)

/-- The machine of one key: `none` before its first input. -/
def single (o : Option ς) (a : α) : Option ς × List ω := (some (step o a).1, (step o a).2)

/-- The input goes to the state of its key. -/
def feed (b : Bank κ ς) (a : α) : Bank κ ς × List ω :=
  (b.set (key a) (step (b.get (key a)) a).1, (step (b.get (key a)) a).2)

theorem feed_projection :
    Projection (feed key step) key (fun k b => b.get k) (single step) where
  own b a := by rw [feed, Bank.get_set, if_pos rfl, single]
  out b a := rfl
  other b a k hk := by rw [feed, Bank.get_set, if_neg hk]

variable {key step}

theorem run_single_eq_none {as : List α} :
    (run (single step) none as).1 = none ↔ as = [] := by
  rcases List.eq_nil_or_concat as with rfl | ⟨as, a, rfl⟩
  · simp
  · rw [List.concat_eq_append, run_concat]
    simp [single]

end

end AiTrader.Keyed
