import Mathlib.Logic.Function.Basic

/-! # One writer at a time

A database that several connections share.  A read outside a transaction sees what was
committed; the first write of a connection takes the write lock, and what it writes is seen by
nobody else until it commits.

* `view`: what a connection reads.
* `write`: one statement that writes; it waits (`none`) while another connection holds the lock.
* `commit`: publish the writes and release the lock.
* `rollback`: release it and drop them.
* `latest`: what the holder of the lock sees, and what is committed when there is none.  Only
  writes change it. -/

namespace AiTrader

/-- What is committed, and the open write transaction with its working copy. -/
structure WriteLock (ω σ : Type*) where
  committed : σ
  working : Option (ω × σ)

namespace WriteLock

variable {ω σ : Type*}

/-- No transaction is open. -/
def idle (s : σ) : WriteLock ω σ := ⟨s, none⟩

/-- What the holder of the lock sees. -/
def latest (d : WriteLock ω σ) : σ :=
  match d.working with
  | some (_, s) => s
  | none => d.committed

@[simp] theorem latest_idle (s : σ) : (idle s : WriteLock ω σ).latest = s := rfl

theorem latest_of_idle {d : WriteLock ω σ} (h : d.working = none) : d.latest = d.committed := by
  simp [latest, h]

variable [DecidableEq ω]

/-- What a connection reads: its own writes, otherwise what is committed. -/
def view (d : WriteLock ω σ) (w : ω) : σ :=
  match d.working with
  | some (v, s) => if v = w then s else d.committed
  | none => d.committed

/-- One statement that writes. -/
def write (d : WriteLock ω σ) (w : ω) (f : σ → σ) : Option (WriteLock ω σ) :=
  match d.working with
  | none => some { d with working := some (w, f d.committed) }
  | some (v, s) => if v = w then some { d with working := some (w, f s) } else none

/-- `COMMIT`. -/
def commit (d : WriteLock ω σ) (w : ω) : Option (WriteLock ω σ) :=
  match d.working with
  | none => some d
  | some (v, s) => if v = w then some (idle s) else none

/-- `ROLLBACK`, or closing the connection: what was not committed is dropped. -/
def rollback (d : WriteLock ω σ) (w : ω) : WriteLock ω σ :=
  match d.working with
  | none => d
  | some (v, _) => if v = w then idle d.committed else d

variable {d d' : WriteLock ω σ} {w v : ω} {f : σ → σ} {s : σ}

@[simp] theorem view_idle : (idle s : WriteLock ω σ).view w = s := rfl

theorem view_eq_committed (h : ∀ s, d.working ≠ some (w, s)) : d.view w = d.committed := by
  unfold view
  split
  · rename_i v s hw
    split
    · rename_i hv
      rw [hv] at hw
      exact absurd hw (h s)
    · rfl
  · rfl

theorem write_eq (h : d.write w f = some d') :
    (d.working = none ∨ ∃ s, d.working = some (w, s)) ∧
      d' = ⟨d.committed, some (w, f d.latest)⟩ := by
  unfold write at h
  split at h
  · rename_i hw
    cases h
    exact ⟨.inl hw, by rw [latest_of_idle hw]⟩
  · rename_i v s hw
    split at h
    · rename_i hv
      cases h
      exact ⟨.inr ⟨s, by rw [hw, hv]⟩, by simp [latest, hw]⟩
    · cases h

theorem commit_eq (h : d.commit w = some d') : d' = idle d.latest := by
  unfold commit at h
  split at h
  · rename_i hw
    cases h
    rw [latest_of_idle hw, idle, ← hw]
  · rename_i v s hw
    split at h
    · cases h
      simp [latest, hw]
    · cases h

/-- If everyone whose phase says so holds the lock, this stays so when one moves on. -/
theorem holder_update {φ ι : Type*} {phase : ω → φ} {holding : ι → φ} {p : φ}
    (hw : ∀ n, p = holding n → ∃ s, d.working = some (w, s))
    (hv : ∀ v, v ≠ w → ∀ n, phase v = holding n → ∃ s, d.working = some (v, s)) :
    ∀ v n, Function.update phase w p v = holding n → ∃ s, d.working = some (v, s) :=
  (Function.forall_update_iff phase fun v q => ∀ n, q = holding n →
    ∃ s, d.working = some (v, s)).mpr ⟨hw, hv⟩

theorem rollback_self (h : d.working = some (w, s)) : d.rollback w = idle d.committed := by
  rw [rollback, h]
  exact if_pos rfl

theorem rollback_of_ne (h : ∀ s, d.working ≠ some (w, s)) : d.rollback w = d := by
  unfold rollback
  split
  · rfl
  · rename_i v s hw
    refine if_neg fun hv => h s ?_
    rw [hw, hv]

end WriteLock

end AiTrader
