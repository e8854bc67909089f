import AiTrader.Library.Table
import AiTrader.Text
import AiTrader.Value
import Mathlib.Algebra.Order.Field.Rat

/-! # Pruning the message history

`prune_messages` (`src/agents/deep-quant-loop/opportunity.py`) bounds the history sent to the
model.  Messages are put into turn groups, an assistant message with calls together with its tool
results, and only whole groups are dropped: first the optional ones from the oldest on, then the
recent ones, never a system message. -/

namespace AiTrader.Agent

open Text

/-! ### Messages and configuration -/

/-- What pruning reads of a message.  `type` and `name` are `none` unless they are strings. -/
structure HistoryMessage where
  type : Option String
  /-- `tool_calls` is there and not empty -/
  toolCalls : Bool
  /-- `additional_kwargs["tool_calls"]` is there and not empty -/
  rawToolCalls : Bool
  name : Option String
  content : String
deriving DecidableEq, Repr

/-- The fields of `OpportunityConfig` that pruning reads; a missing one reads as `None`. -/
structure PruneConfig where
  pruneMaxMessages : PyVal
  pruneKeepRecentTurns : PyVal

def pruneMin : ℤ := 1
def defaultPruneMaxMessages : ℤ := 40
def defaultPruneKeepRecentTurns : ℤ := 8

/-- `int` of a number. -/
def truncate : PyVal → ℤ
  | .int z => z
  | .float (.fin q) => q.num.tdiv q.den
  | _ => 0

/-- `_cfg_int`. -/
def cfgInt (value : PyVal) (default : ℤ) : Option ℤ := do
  if ← isFiniteNumber value then return truncate value else return default

/-- A bound of `prune_messages`: a value below `_PRUNE_MIN` reads as the default. -/
def pruneBound (value : PyVal) (default : ℤ) : Option ℤ := do
  let bound ← cfgInt value default
  return if bound < pruneMin then default else bound

/-- `_ai_has_tool_calls`. -/
def aiHasToolCalls (m : HistoryMessage) : Bool := m.toolCalls || m.rawToolCalls

/-- `_msg_tool_name`. -/
def msgToolName (m : HistoryMessage) : Option String :=
  m.name.filter fun name => decide (strip name ≠ "")

def HistoryMessage.isTool (m : HistoryMessage) : Bool := decide (m.type = some "tool")

def HistoryMessage.isSystem (m : HistoryMessage) : Bool := decide (m.type = some "system")

/-- An assistant message that carries tool calls. -/
def HistoryMessage.callsTools (m : HistoryMessage) : Bool :=
  decide (m.type = some "ai") && aiHasToolCalls m

/-! ### Grouping -/

/-- The body of the loop of `_group_messages`. -/
def groupMessage (groups : List (List HistoryMessage)) (m : HistoryMessage) :
    List (List HistoryMessage) :=
  match groups.getLast? with
  | some (head :: rest) =>
      if m.isTool && head.callsTools then groups.dropLast ++ [head :: (rest ++ [m])]
      else groups ++ [[m]]
  | _ => groups ++ [[m]]

/-- `_group_messages`.  The indices paired with the messages, which nothing reads, are left out. -/
def groupMessages (msgs : List HistoryMessage) : List (List HistoryMessage) :=
  msgs.foldl groupMessage []

/-- `_group_type(gi) == "system"`. -/
def isSystemGroup (groups : List (List HistoryMessage)) (gi : ℕ) : Bool :=
  ((groups.getD gi []).head?.any HistoryMessage.isSystem)

/-- `_flat_len`. -/
def flatLen (groups : List (List HistoryMessage)) (gis : List ℕ) : ℕ :=
  (gis.map fun gi => (groups.getD gi []).length).sum

/-- The messages of the selected groups. -/
def flatMessages (groups : List (List HistoryMessage)) (gis : List ℕ) : List HistoryMessage :=
  gis.flatMap fun gi => groups.getD gi []

/-! ### Selection -/

/-- The named tool results with the index of their group, in order. -/
def namedResults (groups : List (List HistoryMessage)) : List (String × ℕ) :=
  (List.range groups.length).flatMap fun gi =>
    (groups.getD gi []).filterMap fun m =>
      if m.isTool then (msgToolName m).map fun name => (name, gi) else none

/-- `latest_tool_group`: a later group overwrites an earlier one. -/
def latestToolGroup (groups : List (List HistoryMessage)) :
    Table (Prod.fst : String × ℕ → String) :=
  Table.latest (namedResults groups)

/-- `recent_start`. -/
def recentStart (groups : List (List HistoryMessage)) (keepRecent : ℤ) : ℕ :=
  (groups.length - keepRecent).toNat

/-- The group is in `keep`. -/
def isKept (groups : List (List HistoryMessage)) (keepRecent : ℤ) (gi : ℕ) : Bool :=
  isSystemGroup groups gi || decide (gi ∈ (latestToolGroup groups).rows.map Prod.snd) ||
    decide (recentStart groups keepRecent ≤ gi)

/-- The group is in `mandatory`, for a group in `keep`. -/
def isMandatory (groups : List (List HistoryMessage)) (keepRecent : ℤ) (gi : ℕ) : Bool :=
  isSystemGroup groups gi || decide (recentStart groups keepRecent ≤ gi)

/-- One of the two loops that drop groups: `passed` are the indices before `i`, the others those
from `i` on. -/
def evict (groups : List (List HistoryMessage)) (maxMessages : ℤ) (stays : ℕ → Bool) :
    List ℕ → List ℕ → List ℕ
  | passed, [] => passed
  | passed, gi :: rest =>
      if maxMessages < flatLen groups (passed ++ gi :: rest) then
        if stays gi then evict groups maxMessages stays (passed ++ [gi]) rest
        else evict groups maxMessages stays passed rest
      else passed ++ gi :: rest

/-- `prune_messages` once the bounds are read. -/
def pruneTo (msgs : List HistoryMessage) (maxMessages keepRecent : ℤ) : List HistoryMessage :=
  if msgs.length ≤ maxMessages then msgs
  else
    let groups := groupMessages msgs
    let selected := (List.range groups.length).filter (isKept groups keepRecent)
    if flatLen groups selected ≤ maxMessages then flatMessages groups selected
    else
      let selected := evict groups maxMessages (isMandatory groups keepRecent) [] selected
      let selected := evict groups maxMessages (isSystemGroup groups) [] selected
      let result := flatMessages groups selected
      if maxMessages < result.length then result.drop (result.length - maxMessages).toNat
      else result

/-- `prune_messages`; `none` when a bound of the configuration raises. -/
def pruneMessages (msgs : List HistoryMessage) (cfg : PruneConfig) :
    Option (List HistoryMessage) := do
  let maxMessages ← pruneBound cfg.pruneMaxMessages defaultPruneMaxMessages
  let keepRecent ← pruneBound cfg.pruneKeepRecentTurns defaultPruneKeepRecentTurns
  return pruneTo msgs maxMessages keepRecent

/-! ### Turn groups -/

/-- A turn group: a message that is no tool result, with the results of the calls it carries. -/
inductive IsTurn : List HistoryMessage → Prop
  | intro (head : HistoryMessage) (results : List HistoryMessage) (hhead : head.isTool = false)
      (hresults : ∀ m ∈ results, m.isTool = true) (hcalls : results ≠ [] → head.callsTools = true) :
      IsTurn (head :: results)

/-- A result may stand here: after an assistant message with calls and only tool messages since. -/
def Called (msgs : List HistoryMessage) : Prop :=
  ∃ front call results, msgs = front ++ call :: results ∧ call.callsTools = true ∧
    ∀ m ∈ results, m.isTool = true

/-- Every tool message follows, with only tool messages between, an assistant message that
carries tool calls. -/
def Answered (msgs : List HistoryMessage) : Prop :=
  ∀ front m back, msgs = front ++ m :: back → m.isTool = true → Called front

section
variable {msgs : List HistoryMessage} {m : HistoryMessage} {groups : List (List HistoryMessage)}

theorem not_tool_of_callsTools (h : m.callsTools = true) : m.isTool = false := by
  unfold HistoryMessage.callsTools at h
  unfold HistoryMessage.isTool
  simp only [Bool.and_eq_true, decide_eq_true_eq] at h
  simp [h.1]

theorem not_tool_of_isSystem (h : m.isSystem = true) : m.isTool = false := by
  unfold HistoryMessage.isSystem at h
  unfold HistoryMessage.isTool
  simp only [decide_eq_true_eq] at h
  simp [h]

theorem not_callsTools_of_isSystem (h : m.isSystem = true) : m.callsTools = false := by
  unfold HistoryMessage.isSystem at h
  unfold HistoryMessage.callsTools
  simp only [decide_eq_true_eq] at h
  simp [h]

theorem answered_nil : Answered [] := by
  intro front m back h
  simp at h

theorem answered_concat :
    Answered (msgs ++ [m]) ↔ Answered msgs ∧ (m.isTool = true → Called msgs) := by
  constructor
  · intro h
    refine ⟨fun front x back hmsgs hx => h front x (back ++ [m]) (by simp [hmsgs]) hx, ?_⟩
    exact h msgs m [] rfl
  · rintro ⟨h, hlast⟩ front x back hmsgs hx
    rcases List.eq_nil_or_concat back with rfl | ⟨back, last, rfl⟩
    · obtain ⟨rfl, hm⟩ := List.append_inj' hmsgs rfl
      simp only [List.cons.injEq, and_true] at hm
      exact hlast (hm ▸ hx)
    · have hsplit : msgs ++ [m] = (front ++ x :: back) ++ [last] := by simp [hmsgs]
      exact h front x back (List.append_inj' hsplit rfl).1 hx

theorem getLast?_filter_turn (front : List HistoryMessage) {results : List HistoryMessage}
    {head : HistoryMessage} (hhead : head.isTool = false) (hresults : ∀ m ∈ results, m.isTool = true) :
    ((front ++ head :: results).filter fun m => !m.isTool).getLast? = some head := by
  have hnone : results.filter (fun m => !m.isTool) = [] := by
    rw [List.filter_eq_nil_iff]
    intro m hm
    simp [hresults m hm]
  simp [List.filter_append, hhead, hnone]

theorem isTurn_singleton (h : m.isTool = false) : IsTurn [m] :=
  .intro m [] h (by simp) (by simp)

theorem answered_flatten (h : ∀ g ∈ groups, IsTurn g) : Answered groups.flatten := by
  induction groups using List.reverseRecOn with
  | nil => exact answered_nil
  | append_singleton groups g ih =>
      have hgroups := ih fun g' hg' => h g' (by simp [hg'])
      obtain ⟨head, results, hhead, hresults, hcalls⟩ := h g (by simp)
      simp only [List.flatten_append, List.flatten_cons, List.flatten_nil, List.append_nil]
      clear h ih
      induction results using List.reverseRecOn with
      | nil =>
          rw [answered_concat]
          exact ⟨hgroups, by simp [hhead]⟩
      | append_singleton results r ihr =>
          have hsome := hcalls (by simp)
          have hassoc : groups.flatten ++ head :: (results ++ [r]) =
              (groups.flatten ++ head :: results) ++ [r] := by simp
          have hfront : ∀ m ∈ results, m.isTool = true := fun m hm => hresults m (by simp [hm])
          rw [hassoc, answered_concat]
          exact ⟨ihr hfront fun _ => hsome, fun _ => ⟨_, head, results, rfl, hsome, hfront⟩⟩

/-! ### What grouping gives -/

theorem groupMessage_flatten : (groupMessage groups m).flatten = groups.flatten ++ [m] := by
  unfold groupMessage
  rcases List.eq_nil_or_concat groups with rfl | ⟨groups, g, rfl⟩
  · simp
  · cases g with
    | nil => simp
    | cons head rest =>
        simp only [List.concat_eq_append, List.getLast?_append_cons, List.getLast?_singleton,
          List.dropLast_concat]
        split <;> simp

theorem groupMessages_concat :
    groupMessages (msgs ++ [m]) = groupMessage (groupMessages msgs) m := by
  unfold groupMessages
  simp

theorem groupMessages_flatten (msgs : List HistoryMessage) :
    (groupMessages msgs).flatten = msgs := by
  induction msgs using List.reverseRecOn with
  | nil => rfl
  | append_singleton msgs m ih => rw [groupMessages_concat, groupMessage_flatten, ih]

/-- A result joins the group of the calls it answers; any other message begins a group. -/
theorem isTurn_of_mem_groupMessage (hgroups : ∀ g ∈ groups, IsTurn g)
    (hcalled : m.isTool = true → Called groups.flatten) :
    ∀ g ∈ groupMessage groups m, IsTurn g := by
  rcases List.eq_nil_or_concat groups with rfl | ⟨groups, last, rfl⟩
  · cases htool : m.isTool with
    | false => simpa [groupMessage] using isTurn_singleton htool
    | true =>
        obtain ⟨front, call, results, hmsgs, -, -⟩ := hcalled htool
        simp at hmsgs
  · rw [List.concat_eq_append] at hgroups hcalled ⊢
    obtain ⟨head, rest, hhead, hrest, hcalls⟩ := hgroups last (by simp)
    have hfront : ∀ g ∈ groups, IsTurn g := fun g hg => hgroups g (by simp [hg])
    unfold groupMessage
    simp only [List.getLast?_append_cons, List.getLast?_singleton, List.dropLast_concat]
    cases htool : m.isTool with
    | false =>
        intro g hg
        simp only [Bool.false_and, Bool.false_eq_true, if_false, List.mem_append,
          List.mem_singleton] at hg
        rcases hg with (hg | rfl) | rfl
        · exact hfront g hg
        · exact .intro head rest hhead hrest hcalls
        · exact isTurn_singleton htool
    | true =>
        obtain ⟨front, call, results, hmsgs, hcall, hresults⟩ := hcalled htool
        have hlast := getLast?_filter_turn front (not_tool_of_callsTools hcall) hresults
        rw [← hmsgs, List.flatten_append, List.flatten_singleton,
          getLast?_filter_turn _ hhead hrest] at hlast
        obtain rfl := Option.some.inj hlast
        intro g hg
        simp only [Bool.true_and, hcall, if_true, List.mem_append, List.mem_singleton] at hg
        rcases hg with hg | rfl
        · exact hfront g hg
        · refine .intro head (rest ++ [m]) hhead (fun x hx => ?_) fun _ => hcall
          rcases List.mem_append.mp hx with hx | hx
          · exact hrest x hx
          · rwa [List.mem_singleton.mp hx]

theorem isTurn_of_mem_groupMessages (h : Answered msgs) : ∀ g ∈ groupMessages msgs, IsTurn g := by
  induction msgs using List.reverseRecOn with
  | nil =>
      intro g hg
      cases hg
  | append_singleton msgs m ih =>
      obtain ⟨hfront, hlast⟩ := answered_concat.mp h
      rw [groupMessages_concat]
      apply isTurn_of_mem_groupMessage (ih hfront)
      rwa [groupMessages_flatten]

theorem IsTurn.countP_system {g : List HistoryMessage} (h : IsTurn g) :
    g.countP HistoryMessage.isSystem =
      if g.head?.any HistoryMessage.isSystem then g.length else 0 := by
  obtain ⟨head, results, -, hresults, hcalls⟩ := h
  have hnone : results.countP HistoryMessage.isSystem = 0 := by
    rw [List.countP_eq_zero]
    intro m hm hsystem
    have := hresults m hm
    rw [not_tool_of_isSystem hsystem] at this
    cases this
  cases hsystem : head.isSystem with
  | false => simp [hsystem, hnone]
  | true =>
      have hnil : results = [] := by
        by_contra hne
        have := hcalls hne
        rw [not_callsTools_of_isSystem hsystem] at this
        cases this
      simp [hsystem, hnil]

end

end AiTrader.Agent
