import AiTrader.Library.Table
import AiTrader.Text
import AiTrader.Value
import Mathlib.Algebra.Order.Field.Rat

/-! # Session telemetry: the models

`telemetry.py`: an analysis run of a thread, with all its resumes, is a session.  A session is
accumulated in a `SessionState` and finalized into a `SessionRecord`.

Times are finite doubles, taken exactly.  Of the interpreter a `Runtime` gives the case mapping,
the conversion of an integer to a double, which raises when the integer is too large for one, and
the text of a double. -/

namespace AiTrader.Telemetry

structure Runtime where
  casing : Text.Casing
  float : ℤ → Option ℚ
  repr : ℚ → String

/-- A runtime for small whole times. -/
def Runtime.small : Runtime where
  casing := .ascii
  float z := some z
  repr q := toString q.num ++ ".0"

inductive EntryKind
  | run | resume
  deriving DecidableEq, Repr

/-- The entry metadata of one `/run` or `/resume`.  `triggerKind` is as it was posted. -/
structure RunEntry where
  kind : EntryKind
  symbol : Option String := none
  timeframe : Option String := none
  mode : Option String := none
  triggerKind : Option String := none
  deriving DecidableEq, Repr

/-- The two tripwire kinds. -/
inductive TriggerKind
  | target | invalidation
  deriving DecidableEq, Repr

/-- `FUNNEL_*`. -/
inductive FunnelKind
  | sessionStarted | watchRegistered | resumed | reasoningTurn | toolCall | decision | error
  deriving DecidableEq, Repr

/-- One recorded lifecycle event. -/
structure FunnelEvent where
  seq : ℕ
  kind : FunnelKind
  ts : Option ℚ := none
  triggerKind : Option TriggerKind := none
  toolName : Option String := none
  extra : Option Kwargs := none

inductive SessionOutcome
  | tradeBuy | tradeSell | hold | error | incomplete
  deriving DecidableEq, Repr

inductive HoldReason
  | voluntary | forced | dataGated
  deriving DecidableEq, Repr

/-- `tool_calls_by_name`: a dictionary of counts. -/
abbrev ToolCounts := Table (Prod.fst : String × ℕ → String)

/-- `counts[name] = counts.get(name, 0) + 1`. -/
def ToolCounts.bump (counts : ToolCounts) (name : String) : ToolCounts :=
  if counts.find? name = none then counts.insertIgnore (name, 1)
  else counts.updateWhere (fun row => decide (row.1 = name)) (fun row => (row.1, row.2 + 1))
    fun _ => rfl

/-- The sum of the counts. -/
def ToolCounts.total (counts : ToolCounts) : ℕ := (counts.rows.map Prod.snd).sum

/-- The persisted summary of one session. -/
structure SessionRecord where
  sessionId : String
  threadId : String
  symbol : Option String
  timeframe : Option String
  mode : Option String
  startedAt : ℚ
  endedAt : Option ℚ
  outcome : Option SessionOutcome
  holdReason : Option HoldReason
  watchCycles : ℕ
  targetEvents : ℕ
  invalidationEvents : ℕ
  resumeCount : ℕ
  reasoningTurns : ℕ
  toolCallsTotal : ℕ
  toolCallsByName : ToolCounts
  modelTurns : ℕ
  tokens : Option ℤ
  timeToDecisionS : Option ℚ
  suspendedS : Option ℚ
  funnel : List FunnelEvent
  opportunityTier : Option String := none
  sessionBudget : Option ℚ := none
  extra : Option Kwargs := none

/-- What the writer accumulates. -/
structure SessionState where
  threadId : String
  symbol : Option String := none
  timeframe : Option String := none
  mode : Option String := none
  startedAt : ℚ
  endedAt : Option ℚ := none
  outcome : Option SessionOutcome := none
  holdReason : Option HoldReason := none
  watchCycles : ℕ := 0
  targetEvents : ℕ := 0
  invalidationEvents : ℕ := 0
  resumeCount : ℕ := 0
  reasoningTurns : ℕ := 0
  toolCallsTotal : ℕ := 0
  toolCallsByName : ToolCounts := .empty
  modelTurns : ℕ := 0
  tokens : Option ℤ := none
  funnel : List FunnelEvent := []
  watchStarts : List ℚ := []
  suspendedS : Option ℚ := none
  opportunityTier : Option String := none
  opportunityTerminationReason : Option String := none

/-! ### Counting calls -/

theorem ToolCounts.total_bump (counts : ToolCounts) (name : String) :
    (counts.bump name).total = counts.total + 1 := by
  unfold bump
  split
  · rename_i hnone
    rw [total, Table.insertIgnore_rows hnone, List.map_append, List.sum_append]
    rfl
  · rename_i hsome
    obtain ⟨row, hrow⟩ := Option.ne_none_iff_exists'.mp hsome
    obtain ⟨before, after, hold, hnew⟩ :=
      Table.updateWhere_rows hrow (fun row => (row.1, row.2 + 1)) fun _ => rfl
    rw [total, total, hnew, hold]
    simp only [List.map_append, List.map_cons, List.sum_append, List.sum_cons]
    omega

end AiTrader.Telemetry
