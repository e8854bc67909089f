import AiTrader.Compliance.ThreadRows
import AiTrader.Journal.Recording

/-! # A decision is recorded once

A leg that is replayed, resumed or run twice records its decision again, in the journal and in
the recommendation store.  The statements of all these calls interleave.  A thread is the thread
id that the caller passes: the recommendation store takes surrounding blanks off it first, the
journal does not. -/

namespace AiTrader.Agent

open Compliance Journal Transition

/-- A call of `record`. -/
structure RecordCall where
  createdAt : F64
  analyst : Option String
  args : RecordArgs

section
variable {ω₁ ω₂ ρ : Type*} [DecidableEq ω₁] [DecidableEq ω₂] (H : Compliance.Host) (Cs : Text.Casing)
  (records : ω₁ → RecordCall) (decisions : ω₂ → DecisionCall ρ)

/-- The two stores and the calls on them. -/
structure Stores (ω₁ ω₂ ρ : Type*) where
  reco : RecorderState ω₁
  journal : DecisionState ω₂ ρ

/-- A statement of a call on either store. -/
inductive StoreStatement (ω₁ ω₂ : Type*)
  | reco (st : Statement ω₁)
  | journal (st : DecisionStatement ω₂)

/-- What the calls of `record` write. -/
def writes (i : ω₁) : Write recommendationColumns :=
  recordWrite H Cs (records i).createdAt (records i).analyst (records i).args

namespace Stores

/-- One statement of one call. -/
def step (s : Stores ω₁ ω₂ ρ) : StoreStatement ω₁ ω₂ → Option (Stores ω₁ ω₂ ρ)
  | .reco st => (s.reco.step H (writes H Cs records) st).map fun reco => { s with reco := reco }
  | .journal st => (s.journal.step decisions st).map fun journal => { s with journal := journal }

/-- No call has begun, and the tables are as their keys guarantee. -/
structure Starts (s : Stores ω₁ ω₂ ρ) : Prop where
  reco : s.reco.Starts (writes H Cs records)
  recoTable : RecorderState.KeyedTable s.reco.db.committed
  journal : DecisionState.Starts decisions s.journal

/-- Every call has returned or raised. -/
def Ended (s : Stores ω₁ ω₂ ρ) : Prop :=
  (∀ i, RecorderState.hasEnded (s.reco.phase i) = true) ∧
    ∀ i, DecisionState.isReturned (s.journal.phase i) = true

variable {H Cs records decisions} {s t : Stores ω₁ ω₂ ρ}

theorem filing_recording (hstart : s.Starts H Cs records decisions)
    (hrun : Reaches (step H Cs records decisions) (fun _ _ => True) s t) :
    t.reco.Filing (writes H Cs records) ∧ DecisionState.Recording decisions t.journal := by
  refine hrun.invariant (I := fun x => x.reco.Filing (writes H Cs records) ∧
    DecisionState.Recording decisions x.journal) (fun x st y hx _ hstep => ?_)
    ⟨.of_starts hstart.reco hstart.recoTable, .of_starts hstart.journal⟩
  cases st with
  | reco st =>
      obtain ⟨reco, hreco, rfl⟩ := Option.map_eq_some_iff.mp hstep
      exact ⟨hx.1.step (fun i => recordWrite_threadColumn H Cs _ _ _) hreco, hx.2⟩
  | journal st =>
      obtain ⟨journal, hjournal, rfl⟩ := Option.map_eq_some_iff.mp hstep
      exact ⟨hx.1, hx.2.step hjournal⟩

end Stores

end

/-- **A thread's decision is recorded once in each store.**  Any number of calls of `record` and
`record_decision`, their statements in any order.  Once all have returned, each store has exactly
one row of the thread of any of its calls, and the call has returned that row's id; calls for
different threads have returned different ids.  For the recommendation store the thread is the
id without surrounding blanks; for the journal the call's other arguments must make a row. -/
theorem commits_idempotent {ω₁ ω₂ ρ : Type*} [DecidableEq ω₁] [DecidableEq ω₂] {H : Compliance.Host}
    {Cs : Text.Casing} {records : ω₁ → RecordCall} {decisions : ω₂ → DecisionCall ρ}
    {s t : Stores ω₁ ω₂ ρ} (hstart : s.Starts H Cs records decisions)
    (hrun : Reaches (Stores.step H Cs records decisions) (fun _ _ => True) s t)
    (hend : t.Ended) :
    (∀ i thread, recordThread (records i).args = some thread →
      ∃ id : ℕ, t.reco.phase i = .returned (.int id) ∧
        (t.reco.db.committed.rows.filter fun row => isText (row.get "thread_id") thread).map
          (fun row => row.get "id") = [.int id]) ∧
    (∀ i j (id id' : ℕ), recordThread (records i).args ≠ recordThread (records j).args →
      t.reco.phase i = .returned (.int id) → t.reco.phase j = .returned (.int id') → id ≠ id') ∧
    (∀ i thread, (decisions i).prepared ≠ none → (decisions i).thread = some thread →
      ∃ id, t.journal.phase i = .returned (some id) ∧
        (t.journal.db.committed.rows.filter fun row => decide (row.threadId = some thread)).map
          DecisionRow.id = [id]) ∧
    ∀ i j id id', (decisions i).thread ≠ (decisions j).thread →
      t.journal.phase i = .returned (some id) → t.journal.phase j = .returned (some id') →
      id ≠ id' := by
  obtain ⟨hfiling, hrecording⟩ := Stores.filing_recording hstart hrun
  refine ⟨fun i thread hthread => hfiling.only_row (hend.1 i) hthread,
    fun i j id id' hthread => hfiling.own_row hthread,
    fun i thread hprepared hthread => hrecording.only_row (hend.2 i) hprepared hthread,
    fun i j id id' hthread => hrecording.own_row hthread⟩

/-! ### Blanks around a thread id -/

/-- Two recommendations whose thread ids differ by a blank. -/
def paddedThread : Bool → Write recommendationColumns := fun padded =>
  recordWrite binaryHost .ascii (.fin 1700000000) none
    { action := "BUY", threadId := some (if padded then "t-1 " else "t-1") }

/-- The second call finds the first one's row: it gets no row of its own. -/
theorem padded_thread_shares_row :
    (runTwo paddedThread [.selectExisting false, .selectTip false, .insert false, .commit false,
        .selectExisting true]).map (fun r => (r.2.db.committed.rows.length,
          r.2.phase false, r.2.phase true)) =
      some (1, .returned (.int 1), .returned (.int 1)) := by
  rfl

/-! ### Two calls on each store -/

/-- A recommendation recorded twice. -/
def twiceRecorded : Bool → RecordCall := fun second =>
  ⟨.fin (if second then 1700000042 else 1700000000), none,
    { action := "BUY", threadId := some "t-1" }⟩

/-- The same decision journaled twice. -/
def twiceJournaled : Bool → DecisionCall Unit := fun _ => ⟨some "t-1", some ()⟩

def twiceStores : Stores Bool Bool Unit where
  reco := ⟨.idle ⟨[], 0⟩, fun i => (writes binaryHost .ascii twiceRecorded i).begin⟩
  journal := ⟨.idle ⟨[], 0⟩, fun i => (twiceJournaled i).begin⟩

/-- Both second calls lose their race on the unique index. -/
def twiceSchedule : List (StoreStatement Bool Bool) :=
  [.reco (.selectExisting false), .journal (.select false), .journal (.select true),
   .reco (.selectExisting true), .journal (.insert true), .reco (.selectTip true),
   .reco (.selectTip false), .reco (.insert true), .reco (.commit true), .journal (.commit true),
   .journal (.insert false), .reco (.insert false), .journal (.select false),
   .reco (.selectExisting false), .journal (.close false)]

def runTwice : Option (Stores Bool Bool Unit) :=
  runOk (Stores.step binaryHost .ascii twiceRecorded twiceJournaled) (fun _ _ => True) twiceStores
    twiceSchedule

theorem twice_ended : runTwice.any (fun t =>
    (RecorderState.hasEnded (t.reco.phase false) && RecorderState.hasEnded (t.reco.phase true)) &&
      (DecisionState.isReturned (t.journal.phase false) &&
        DecisionState.isReturned (t.journal.phase true))) = true := by
  decide +kernel

theorem twice_starts :
    twiceStores.Starts binaryHost .ascii twiceRecorded twiceJournaled where
  reco := ⟨rfl, fun _ => rfl⟩
  recoTable := ⟨[], .nil, ⟨.nil, .nil⟩, fun _ he => by cases he⟩
  journal := ⟨rfl, fun _ => rfl, ⟨.nil, .nil⟩, fun _ hrow => by cases hrow⟩

theorem commits_idempotent_twice :
    ∃ t, runTwice = some t ∧
      (∀ i thread, recordThread (twiceRecorded i).args = some thread →
        ∃ id : ℕ, t.reco.phase i = .returned (.int id) ∧
          (t.reco.db.committed.rows.filter fun row => isText (row.get "thread_id") thread).map
            (fun row => row.get "id") = [.int id]) ∧
      (∀ i j (id id' : ℕ),
        recordThread (twiceRecorded i).args ≠ recordThread (twiceRecorded j).args →
        t.reco.phase i = .returned (.int id) → t.reco.phase j = .returned (.int id') → id ≠ id') ∧
      (∀ i thread, (twiceJournaled i).prepared ≠ none → (twiceJournaled i).thread = some thread →
        ∃ id, t.journal.phase i = .returned (some id) ∧
          (t.journal.db.committed.rows.filter fun row => decide (row.threadId = some thread)).map
            DecisionRow.id = [id]) ∧
      ∀ i j id id', (twiceJournaled i).thread ≠ (twiceJournaled j).thread →
        t.journal.phase i = .returned (some id) → t.journal.phase j = .returned (some id') →
        id ≠ id' := by
  obtain ⟨t, hrun, hdone⟩ := (Option.any_eq_true _ _).mp twice_ended
  refine ⟨t, hrun, commits_idempotent twice_starts (.of_runOk hrun) ?_⟩
  obtain ⟨hreco, hjournal⟩ := (Bool.and_eq_true _ _).mp hdone
  obtain ⟨hreco₁, hreco₂⟩ := (Bool.and_eq_true _ _).mp hreco
  obtain ⟨hjournal₁, hjournal₂⟩ := (Bool.and_eq_true _ _).mp hjournal
  constructor
  · rintro ⟨⟩
    · exact hreco₁
    · exact hreco₂
  · rintro ⟨⟩
    · exact hjournal₁
    · exact hjournal₂

end AiTrader.Agent
