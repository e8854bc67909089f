import AiTrader.Agent.Graph
import Mathlib.Logic.Function.Basic

/-! # The recommendation record

All threads of a process commit into the same two stores: the process's map of committed threads
and the recommendation store.  Both are write-once, the map by thread id and the store by the
thread id without its surrounding blanks.  Abstractly a process is therefore the history of the
decisions handed to the chokepoint, of which each store shows the first under each key
(`Ledger`).

* `finalizeDecision_ledger`: one commit keeps the two in step.
* `recommendations_keep_first`: in every run the record and the row behind a decision are those
  of the first decision of its thread.
* `second_decision_unrecorded`: a second, different decision has neither. -/

namespace AiTrader.Agent

open Text Transition

/-! ### Commits -/

/-- A decision handed to the chokepoint, with the state of its thread at that moment. -/
structure Commit where
  threadId : String
  state : AgentState
  proposed : Decision

section
variable (env : Env) (c : Commit)

/-- The key of a commit in the recommendation store. -/
def Commit.key : Option String := storedThreadId (some c.threadId)

/-- The record built from a commit. -/
def Commit.record : Defensibility :=
  decisionRecord env c.state (stampOpportunityTier env c.state c.proposed)

/-- The row built from a commit. -/
def Commit.row : Recommendation :=
  recommendationRow env.host c.state (decorate env c.state c.proposed) (c.record env)
    (some c.threadId)

end

theorem Commit.row_threadId (env : Env) (c : Commit) : (c.row env).threadId = c.key := by
  rw [row, recommendationRow_threadId, key]

/-- The decision that a node hands to the chokepoint. -/
def proposal (env : Env) (cfg : DebateConfig) (s : AgentState) : Event → Option Decision
  | .tools results now => toolDecision env s now results
  | .forceHold => some forcedHold
  | .forceTerminal now =>
      some (terminalHold ((terminationReason env.host env.cfg s now).getD "bounded-hunt-exhausted"))
  | .judge turns => (judgeRun env cfg turns).map (judgeProposal env s)
  | _ => none

/-! ### Every thread of a process -/

/-- The threads of a process and what they share. -/
structure System where
  threads : String → Thread := fun _ => {}
  process : Process := {}

/-- One event on one of the threads. -/
def systemStep (env : Env) (cfg : DebateConfig) (y : System) (a : String × Event) :
    Option System :=
  (graphStep env cfg (some a.1) (y.threads a.1) y.process a.2).map fun r =>
    { threads := Function.update y.threads a.1 r.1, process := r.2 }

/-- The commit of one event. -/
def commitOf (env : Env) (cfg : DebateConfig) (x : System × String × Event) : Option Commit :=
  (proposal env cfg (x.1.threads x.2.1).state x.2.2).map fun d =>
    ⟨x.2.1, (x.1.threads x.2.1).state, d⟩

/-- The commits of a run, in order. -/
def commits (env : Env) (cfg : DebateConfig) (tr : List (System × String × Event)) : List Commit :=
  tr.filterMap (commitOf env cfg)

/-- The first commit of a thread. -/
def firstOf (cs : List Commit) (threadId : String) : Option Commit :=
  cs.find? fun c => decide (c.threadId = threadId)

/-- The first commit under a key of the store. -/
def firstUnder (cs : List Commit) (key : String) : Option Commit :=
  cs.find? fun c => decide (c.key = some key)

/-- The latest commit of a thread. -/
def latestOf (cs : List Commit) (threadId : String) : Option Commit :=
  (cs.filter fun c => decide (c.threadId = threadId)).getLast?

section
variable {cs : List Commit} {c : Commit} {threadId key : String}

theorem firstOf_append : firstOf (cs ++ [c]) threadId =
    (firstOf cs threadId).or (if c.threadId = threadId then some c else none) := by
  simp only [firstOf, List.find?_append, List.find?_singleton, decide_eq_true_eq]

theorem firstUnder_append : firstUnder (cs ++ [c]) key =
    (firstUnder cs key).or (if c.key = some key then some c else none) := by
  simp only [firstUnder, List.find?_append, List.find?_singleton, decide_eq_true_eq]

theorem latestOf_append : latestOf (cs ++ [c]) threadId =
    if c.threadId = threadId then some c else latestOf cs threadId := by
  by_cases h : c.threadId = threadId
  · simp [latestOf, List.filter_append, h]
  · simp [latestOf, List.filter_append, h]

theorem firstOf_threadId (h : firstOf cs threadId = some c) : c.threadId = threadId := by
  simpa using List.find?_some h

theorem firstUnder_isSome (h : firstOf cs threadId = some c)
    (hkey : storedThreadId (some threadId) = some key) : (firstUnder cs key).isSome = true := by
  rw [firstUnder, List.find?_isSome]
  refine ⟨c, List.mem_of_find?_eq_some h, ?_⟩
  simpa [Commit.key, firstOf_threadId h] using hkey

end

/-! ### The stores show the first commits -/

/-- The stores after the given commits. -/
structure Ledger (env : Env) (p : Process) (cs : List Commit) : Prop where
  records : ∀ t, p.committedThreadRecords.lookup t = (firstOf cs t).map (Commit.record env)
  rows : ∀ k, p.recommendations.filter (fun r => decide (r.threadId = some k)) =
    ((firstUnder cs k).map (Commit.row env)).toList
  blank : ∀ t c, firstOf cs t = some c → c.key = none → c.row env ∈ p.recommendations

variable {env : Env} {cfg : DebateConfig} {p p' : Process} {cs : List Commit} {c : Commit}

/-! ### One commit -/

section
variable {row r : Recommendation}

theorem recordRow_of_used (hkey : row.threadId.isSome = true)
    (hused : ∃ r ∈ p.recommendations, r.threadId = row.threadId) : recordRow row p = p :=
  if_pos ⟨hkey, hused⟩

theorem recordRow_of_free
    (hfree : ¬ (row.threadId.isSome = true ∧ ∃ r ∈ p.recommendations, r.threadId = row.threadId)) :
    recordRow row p = { p with recommendations := p.recommendations ++ [row] } :=
  if_neg hfree

theorem recordRow_records (row : Recommendation) (p : Process) :
    (recordRow row p).committedThreadRecords = p.committedThreadRecords := by
  unfold recordRow
  split <;> rfl

theorem recordRow_mem (h : r ∈ p.recommendations) (row : Recommendation) :
    r ∈ (recordRow row p).recommendations := by
  unfold recordRow
  split
  · exact h
  · exact List.mem_append_left _ h

end

/-- The store has a row under a key exactly if something was committed under it. -/
theorem Ledger.taken (h : Ledger env p cs) (k : String) :
    (∃ r ∈ p.recommendations, r.threadId = some k) ↔ (firstUnder cs k).isSome = true := by
  have hrows := h.rows k
  constructor
  · rintro ⟨r, hr, hkey⟩
    have hmem : r ∈ p.recommendations.filter (fun r => decide (r.threadId = some k)) :=
      List.mem_filter.mpr ⟨hr, by simpa using hkey⟩
    rw [hrows] at hmem
    cases hf : firstUnder cs k with
    | none => simp [hf] at hmem
    | some c => rfl
  · intro hsome
    obtain ⟨c, hc⟩ := Option.isSome_iff_exists.mp hsome
    have hmem : c.row env ∈ p.recommendations.filter (fun r => decide (r.threadId = some k)) := by
      rw [hrows, hc]
      simp
    obtain ⟨hr, hkey⟩ := List.mem_filter.mp hmem
    exact ⟨_, hr, of_decide_eq_true hkey⟩

/-- `reco_store.record` keeps the first row under each key. -/
theorem Ledger.recordRow_rows (h : Ledger env p cs) (k : String) :
    (recordRow (c.row env) p).recommendations.filter (fun r => decide (r.threadId = some k)) =
      ((firstUnder (cs ++ [c]) k).map (Commit.row env)).toList := by
  have hrows := h.rows k
  have htaken := h.taken k
  rw [firstUnder_append]
  by_cases hkey : c.key = some k
  · have hrow : (c.row env).threadId = some k := (c.row_threadId env).trans hkey
    rw [if_pos hkey]
    cases hf : firstUnder cs k with
    | none =>
        -- the key is free: the row is appended
        rw [hf] at hrows htaken
        have hfree : ¬ ∃ r ∈ p.recommendations, r.threadId = some k := by simpa using htaken
        rw [recordRow_of_free (fun hused => hfree (hrow ▸ hused.2))]
        simp [List.filter_append, hrows, hrow]
    | some first =>
        rw [hf] at hrows htaken
        have hused : ∃ r ∈ p.recommendations, r.threadId = some k := htaken.mpr rfl
        rw [recordRow_of_used (by rw [hrow]; rfl) (hrow.symm ▸ hused), hrows]
        rfl
  · -- a row under another key is not looked at
    have hrow : (c.row env).threadId ≠ some k := c.row_threadId env ▸ hkey
    rw [if_neg hkey, Option.or_none, ← hrows]
    by_cases hused : (c.row env).threadId.isSome ∧
        ∃ r ∈ p.recommendations, r.threadId = (c.row env).threadId
    · rw [recordRow_of_used hused.1 hused.2]
    · rw [recordRow_of_free hused]
      simp [List.filter_append, hrow]

theorem recordRow_blank (hkey : c.key = none) :
    c.row env ∈ (recordRow (c.row env) p).recommendations := by
  have hrow : (c.row env).threadId = none := (c.row_threadId env).trans hkey
  rw [recordRow_of_free (by simp [hrow])]
  simp

/-- **One commit.**  The stores go on showing the first commits, and the decision that comes back
carries the record of its thread's first. -/
theorem finalizeDecision_ledger (h : Ledger env p cs) (c : Commit) :
    Ledger env (finalizeDecision env (some c.threadId) c.state c.proposed p).2 (cs ++ [c]) ∧
      (finalizeDecision env (some c.threadId) c.state c.proposed p).1.defensibility =
        (firstOf (cs ++ [c]) c.threadId).map (Commit.record env) := by
  have hlookup := h.records c.threadId
  cases hf : firstOf cs c.threadId with
  | some first =>
      -- the guard of the process returns the record of the first commit
      rw [hf, Option.map_some] at hlookup
      have hfinal : finalizeDecision env (some c.threadId) c.state c.proposed p =
          ({ c.proposed with defensibility := some (first.record env) }, p) := by
        simp [finalizeDecision, hlookup]
      have hsame : ∀ t, firstOf (cs ++ [c]) t = firstOf cs t := by
        intro t
        rw [firstOf_append]
        by_cases ht : c.threadId = t
        · rw [← ht, hf]
          rfl
        · rw [if_neg ht, Option.or_none]
      rw [hfinal, hsame, hf]
      refine ⟨⟨fun t => ?_, fun k => ?_, fun t d hd hkey => ?_⟩, rfl⟩
      · rw [hsame]
        exact h.records t
      · rw [firstUnder_append]
        by_cases hkey : c.key = some k
        · obtain ⟨d, hd⟩ := Option.isSome_iff_exists.mp (firstUnder_isSome hf hkey)
          rw [hd]
          simpa [hd] using h.rows k
        · rw [if_neg hkey, Option.or_none]
          exact h.rows k
      · rw [hsame] at hd
        exact h.blank t d hd hkey
  | none =>
      rw [hf, Option.map_none] at hlookup
      have hfinal : finalizeDecision env (some c.threadId) c.state c.proposed p =
          (decorate env c.state c.proposed,
            { recordRow (c.row env) p with
              committedThreadRecords := (c.threadId, c.record env) ::
                (recordRow (c.row env) p).committedThreadRecords }) := by
        simp [finalizeDecision, hlookup, Commit.row, Commit.record]
      have hfirst : firstOf (cs ++ [c]) c.threadId = some c := by
        rw [firstOf_append, hf, if_pos rfl]
        rfl
      rw [hfinal, hfirst]
      refine ⟨⟨fun t => ?_, fun k => ?_, fun t d hd hkey => ?_⟩,
        decorate_defensibility env c.state c.proposed⟩
      · rw [firstOf_append]
        by_cases ht : c.threadId = t
        · subst ht
          simp [hf]
        · have hother : (t == c.threadId) = false := by simpa using fun h => ht h.symm
          rw [if_neg ht, Option.or_none, List.lookup_cons, hother]
          simpa [recordRow_records] using h.records t
      · dsimp only
        exact h.recordRow_rows k
      · dsimp only
        rw [firstOf_append] at hd
        cases hft : firstOf cs t with
        | some first =>
            rw [hft] at hd
            cases hd
            exact recordRow_mem (h.blank t d hft hkey) _
        | none =>
            rw [hft] at hd
            by_cases ht : c.threadId = t
            · rw [if_pos ht] at hd
              cases hd
              exact recordRow_blank hkey
            · rw [if_neg ht] at hd
              cases hd

/-! ### What is handed to the chokepoint -/

/-- What every handed decision meets: it has an action and its levels are finite. -/
structure Presentable (d : Decision) : Prop where
  action : d.action ≠ ""
  entry : finiteOnly d.entry = d.entry
  stopLoss : finiteOnly d.stopLoss = d.stopLoss
  takeProfit : finiteOnly d.takeProfit = d.takeProfit

theorem finiteOnly_idem (x : Option F64) : finiteOnly (finiteOnly x) = finiteOnly x := by
  simp [finiteOnly, Option.filter_filter]

theorem coercePrice_finite (h : Host) (v : PyVal) :
    finiteOnly (coercePrice h v) = coercePrice h v := by
  cases v <;> first | exact finiteOnly_idem _ | rfl

theorem declaredDecision_presentable (h : Host) (args : Kwargs) :
    Presentable (declaredDecision h args) := by
  refine ⟨?_, coercePrice_finite h _, coercePrice_finite h _, coercePrice_finite h _⟩
  simp only [declaredDecision]
  split
  · split
    · decide
    · assumption
  · decide

theorem decisionFromDeclare_presentable {h : Host} {okCalls : List ToolCall} {d : Decision}
    (hd : decisionFromDeclare h okCalls = some d) : Presentable d := by
  obtain ⟨tc, -, rfl⟩ := Option.map_eq_some_iff.mp hd
  exact declaredDecision_presentable h tc.args

theorem toolDecision_presentable {s : AgentState} {now : ℚ} {results : List String} {d : Decision}
    (hd : toolDecision env s now results = some d) : Presentable d := by
  simp only [toolDecision] at hd
  split at hd
  · cases hd
  · split at hd
    · split at hd
      · cases hd
        exact ⟨by decide, rfl, rfl, rfl⟩
      · cases hd
    · split at hd
      · cases hd
      · split at hd
        · cases hd
        · exact decisionFromDeclare_presentable hd

theorem proposal_presentable {s : AgentState} {ev : Event} {d : Decision}
    (hd : proposal env cfg s ev = some d) : Presentable d := by
  have hhold : "HOLD" ≠ "" := by decide
  cases ev with
  | tools results now => exact toolDecision_presentable hd
  | forceHold =>
      cases hd
      exact ⟨hhold, rfl, rfl, rfl⟩
  | forceTerminal now =>
      cases hd
      exact ⟨hhold, rfl, rfl, rfl⟩
  | judge turns =>
      obtain ⟨st, hst, rfl⟩ := Option.map_eq_some_iff.mp hd
      cases hdec : st.decision with
      | none =>
          rw [judgeProposal, hdec]
          exact ⟨hhold, rfl, rfl, rfl⟩
      | some d =>
          obtain ⟨turn, -, r, hdecides⟩ := judgeRun_decision hst hdec
          rw [judgeProposal, hdec]
          exact decisionFromDeclare_presentable hdecides.declared
  | _ => cases hd

theorem SameTrade.trans {d d' d'' : Decision} (h : SameTrade d d') (h' : SameTrade d' d'') :
    SameTrade d d'' :=
  ⟨h'.action.trans h.action, h'.entry.trans h.entry, h'.stopLoss.trans h.stopLoss,
    h'.takeProfit.trans h.takeProfit, h'.atr14.trans h.atr14, h'.source.trans h.source⟩

theorem withCurrentRead_sameTrade (h : Host) (d : Decision) :
    SameTrade d (withCurrentRead h d) ∧ (withCurrentRead h d).defensibility = d.defensibility := by
  unfold withCurrentRead
  split <;> exact ⟨⟨rfl, rfl, rfl, rfl, rfl, rfl⟩, rfl⟩

theorem Step.commit {threadId : Option String} {t t' : Thread} {ev : Event}
    (h : Step env cfg threadId t p ev t' p') :
    (proposal env cfg t.state ev = none ∧ p' = p ∧ t'.state.decision = t.state.decision) ∨
      ∃ d d', proposal env cfg t.state ev = some d ∧
        p' = (finalizeDecision env threadId t.state d p).2 ∧
        t'.state.decision = some d' ∧ SameTrade d d' ∧
        d'.defensibility = (finalizeDecision env threadId t.state d p).1.defensibility := by
  cases h with
  | input i =>
      refine .inl ⟨rfl, rfl, ?_⟩
      cases i <;> rfl
  | agent turn now hnext => exact .inl ⟨rfl, rfl, rfl⟩
  | tools hnext hs =>
      obtain ⟨-, ⟨hd, rfl, hp⟩ | ⟨d, closing, hd, -, hp, rfl⟩⟩ := toolNode_cases hs
      · exact .inl ⟨hd, hp, noteResume_decision⟩
      · exact .inr ⟨d, _, hd, hp, rfl, finalizeDecision_sameTrade .., rfl⟩
  | forceHold hnext =>
      obtain ⟨closing, d, p'', heq, -, hp, hd⟩ := forceHold_eq env threadId
        t.state p
      obtain ⟨htrade, hrecord⟩ := withCurrentRead_sameTrade env.host
        (finalizeDecision env threadId t.state forcedHold p).1
      rw [← hd] at htrade hrecord
      refine .inr ⟨forcedHold, d, rfl, ?_, ?_, (finalizeDecision_sameTrade ..).trans htrade,
        hrecord⟩
      · rw [heq, hp]
      · rw [heq]
  | forceTerminal now hnext =>
      exact .inr ⟨_, _, rfl, rfl, rfl, finalizeDecision_sameTrade .., rfl⟩
  | bull answer hnext => exact .inl ⟨rfl, rfl, rfl⟩
  | bear answer hnext => exact .inl ⟨rfl, rfl, rfl⟩
  | judge hnext hs =>
      obtain ⟨st, closing, hst, -, hp, rfl⟩ := judgeNode_cases hs
      refine .inr ⟨judgeProposal env t.state st, _, ?_, hp, rfl, finalizeDecision_sameTrade ..,
        rfl⟩
      rw [proposal, hst]
      rfl
  | qaAgent r hnext =>
      refine .inl ⟨rfl, rfl, ?_⟩
      show (qaNode env t.state r).decision = t.state.decision
      unfold qaNode
      split <;> rfl
  | qaTools hnext hs =>
      refine .inl ⟨rfl, rfl, ?_⟩
      simp only [qaToolNode] at hs
      split at hs
      · cases hs
        rfl
      · cases hs

/-! ### Every run of a process -/

/-- What holds of a process after the given commits. -/
structure SystemInv (env : Env) (y : System) (cs : List Commit) : Prop where
  ledger : Ledger env y.process cs
  surfaced : ∀ threadId, ∀ d ∈ (y.threads threadId).state.decision,
    ∃ latest, latestOf cs threadId = some latest ∧ SameTrade latest.proposed d ∧
      d.defensibility = (firstOf cs threadId).map (Commit.record env)
  presentable : ∀ c ∈ cs, Presentable c.proposed

theorem SystemInv.init : SystemInv env {} [] :=
  ⟨⟨fun _ => rfl, fun _ => rfl, fun _ _ h => (by cases h)⟩, fun _ _ h => (by cases h), by simp⟩

theorem SystemInv.step {y y' : System} {a : String × Event} (hinv : SystemInv env y cs)
    (h : systemStep env cfg y a = some y') :
    SystemInv env y' (cs ++ (commitOf env cfg (y, a)).toList) := by
  obtain ⟨tid, ev⟩ := a
  obtain ⟨⟨t', p'⟩, hs, rfl⟩ := Option.map_eq_some_iff.mp h
  rcases (graphStep_step hs).commit with ⟨hnone, rfl, hkeep⟩ | ⟨d, d', hd, rfl, hdec, htrade, hrec⟩
  · -- nothing is committed
    have hno : commitOf env cfg (y, tid, ev) = none := by simp [commitOf, hnone]
    rw [hno, Option.toList_none, List.append_nil]
    refine ⟨hinv.ledger, fun threadId e he => ?_, hinv.presentable⟩
    by_cases ht : threadId = tid
    · subst ht
      simp only [Function.update_self, hkeep] at he
      exact hinv.surfaced threadId e he
    · simp only [Function.update_of_ne ht] at he
      exact hinv.surfaced threadId e he
  · set c : Commit := ⟨tid, (y.threads tid).state, d⟩ with hc
    have hcommit : commitOf env cfg (y, tid, ev) = some c := by simp [commitOf, hd, hc]
    obtain ⟨hledger, hfirst⟩ := finalizeDecision_ledger hinv.ledger c
    rw [hcommit, Option.toList_some]
    refine ⟨hledger, fun threadId e he => ?_, fun x hx => ?_⟩
    · rw [latestOf_append]
      by_cases ht : threadId = tid
      · -- the thread's decision is the one just committed, with the record of its first
        subst ht
        simp only [Function.update_self, hdec, Option.mem_def, Option.some.injEq] at he
        subst he
        exact ⟨c, if_pos rfl, htrade, hrec.trans hfirst⟩
      · simp only [Function.update_of_ne ht] at he
        obtain ⟨latest, hlatest, hsame, hrecord⟩ := hinv.surfaced threadId e he
        have hother : c.threadId ≠ threadId := fun heq => ht heq.symm
        refine ⟨latest, by rw [if_neg hother, hlatest], hsame, ?_⟩
        rw [hrecord, firstOf_append, if_neg hother, Option.or_none]
    · rcases List.mem_append.mp hx with hx | hx
      · exact hinv.presentable x hx
      · rw [List.mem_singleton.mp hx]
        exact proposal_presentable hd

theorem system_run {tr : List (System × String × Event)} {y : System}
    (h : Path (systemStep env cfg) {} tr y) : SystemInv env y (commits env cfg tr) := by
  induction h with
  | nil => exact .init
  | @snoc tr y y' a _ hs ih =>
      have hcommits : commits env cfg (tr ++ [(y, a)]) =
          commits env cfg tr ++ (commitOf env cfg (y, a)).toList := by
        simp only [commits, List.filterMap_append]
        cases hc : commitOf env cfg (y, a) <;> simp [hc]
      rw [hcommits]
      exact ih.step hs

/-! ### The first decision counts -/

/-- A row that says what a decision says: its action in upper case and its levels, as far as it
has them. -/
structure RowOf (h : Host) (d : Decision) (row : Recommendation) : Prop where
  action : row.action = h.casing.upper d.action
  entry : ∀ x ∈ d.entry, row.entry = some x
  stopLoss : ∀ x ∈ d.stopLoss, row.stopLoss = some x
  takeProfit : ∀ x ∈ d.takeProfit, row.takeProfit = some x

theorem preferDecision_own {own fallback : Option F64} {x : F64} (hfin : finiteOnly own = own)
    (hx : x ∈ own) : preferDecision own fallback = some x := by
  rw [preferDecision, hfin, Option.mem_def.mp hx]

theorem Commit.row_rowOf {c : Commit} (h : Presentable c.proposed) :
    RowOf env.host c.proposed (c.row env) := by
  have hsame := decorate_sameTrade env c.state c.proposed
  refine ⟨?_, fun x hx => ?_, fun x hx => ?_, fun x hx => ?_⟩
  · show env.host.casing.upper _ = _
    rw [hsame.action, if_neg h.action]
  · exact preferDecision_own (hsame.entry ▸ h.entry) (hsame.entry ▸ hx)
  · exact preferDecision_own (hsame.stopLoss ▸ h.stopLoss) (hsame.stopLoss ▸ hx)
  · exact preferDecision_own (hsame.takeProfit ▸ h.takeProfit) (hsame.takeProfit ▸ hx)

/-- The rows that the store holds under a key. -/
def rowsUnder (p : Process) (key : Option String) : List Recommendation :=
  p.recommendations.filter fun r => decide (r.threadId = key)

/-- **Record and row are those of the first decision.**  Whatever is surfaced on a thread is the
trade of its latest commit; its record is that of the first commit of the thread; and the store
holds, under the thread's key, exactly the row of the first commit made under that key. -/
theorem recommendations_keep_first (env : Env) (cfg : DebateConfig)
    (tr : List (System × String × Event)) (y : System)
    (h : Path (systemStep env cfg) {} tr y) (threadId : String) (d : Decision)
    (hd : (y.threads threadId).state.decision = some d) :
    ∃ first latest, firstOf (commits env cfg tr) threadId = some first ∧
      latestOf (commits env cfg tr) threadId = some latest ∧
      SameTrade latest.proposed d ∧
      d.defensibility = some (first.record env) ∧
      (∀ key, storedThreadId (some threadId) = some key →
        ∃ c, firstUnder (commits env cfg tr) key = some c ∧
          rowsUnder y.process (some key) = [c.row env] ∧
          RowOf env.host c.proposed (c.row env) ∧ (c.row env).rationale = c.record env) ∧
      (storedThreadId (some threadId) = none →
        first.row env ∈ rowsUnder y.process none ∧
          RowOf env.host first.proposed (first.row env)) := by
  have hinv := system_run h
  obtain ⟨latest, hlatest, hsame, hrecord⟩ := hinv.surfaced threadId d hd
  obtain ⟨first, hfirst⟩ : ∃ first, firstOf (commits env cfg tr) threadId = some first := by
    -- the thread has a commit, so it has a first one
    rw [← Option.isSome_iff_exists, firstOf, List.find?_isSome]
    have hmem := List.mem_filter.mp (List.mem_of_getLast? hlatest)
    exact ⟨latest, hmem.1, hmem.2⟩
  rw [hfirst] at hrecord
  refine ⟨first, latest, hfirst, hlatest, hsame, hrecord, fun key hkey => ?_, fun hblank => ?_⟩
  · obtain ⟨c, hc⟩ := Option.isSome_iff_exists.mp (firstUnder_isSome hfirst hkey)
    have hrows := hinv.ledger.rows key
    rw [hc] at hrows
    exact ⟨c, hc, hrows, Commit.row_rowOf (hinv.presentable c (List.mem_of_find?_eq_some hc)), rfl⟩
  · have hkey : first.key = none := by rw [Commit.key, firstOf_threadId hfirst, hblank]
    refine ⟨List.mem_filter.mpr ⟨hinv.ledger.blank threadId first hfirst hkey, ?_⟩,
      Commit.row_rowOf (hinv.presentable first (List.mem_of_find?_eq_some hfirst))⟩
    exact decide_eq_true ((first.row_threadId env).trans hkey)

/-! ### A thread that decides twice -/

/-- A run that commits a BUY; then a watch trigger continues the thread, which commits a SELL. -/
def buyThenSell : List (String × Event) :=
  [("thread_1", .input (.run "Analyze" (some "FIND") (some "NIFTY 50") none none none)),
    ("thread_1", .agent ⟨none, calling [okCall "get_candles" "call_1" []], 100⟩ 101),
    ("thread_1", .tools ["close: 24500"] 102),
    ("thread_1", .agent ⟨none,
      calling [okCall "declare_trade" "call_2" (tradeArgs "BUY" 100 80 150)], 103⟩ 104),
    ("thread_1", .tools [declaredText "BUY"] 105),
    ("thread_1", .input (.resume "Price reached 160.")),
    ("thread_1", .agent ⟨none,
      calling [okCall "declare_trade" "call_3" (tradeArgs "SELL" 160 180 110)], 106⟩ 107),
    ("thread_1", .tools [declaredText "SELL"] 108)]

/-- After the first commit the record and the row are its own. -/
theorem recommendations_keep_first_buy : ∃ tr y d,
    Path (systemStep defaultEnv sampleDebate) {} tr y ∧
      (y.threads "thread_1").state.decision = some d ∧ d.action = "BUY" ∧
      ∃ row, rowsUnder y.process (some "thread_1") = [row] ∧ row.action = "BUY" := by
  have hrun : (trace (systemStep defaultEnv sampleDebate) {} (buyThenSell.take 5)).map (fun r =>
      ((r.2.threads "thread_1").state.decision.map Decision.action,
        (commits defaultEnv sampleDebate r.1).map fun c => (c.key, c.proposed.action))) =
      some (some "BUY", [(some "thread_1", "BUY")]) := by
    decide +kernel
  obtain ⟨⟨tr, y⟩, htr, hout⟩ := Option.map_eq_some_iff.mp hrun
  simp only [Prod.mk.injEq] at hout
  obtain ⟨d, hd, haction⟩ := Option.map_eq_some_iff.mp hout.1
  have hpath := Path.of_trace htr
  obtain ⟨-, -, -, -, -, -, hrow, -⟩ :=
    recommendations_keep_first defaultEnv sampleDebate tr y hpath "thread_1" d hd
  obtain ⟨c, hc, hrows, hrowOf, -⟩ := hrow "thread_1" (by decide +kernel)
  have hmem : (c.key, c.proposed.action) ∈
      (commits defaultEnv sampleDebate tr).map fun c => (c.key, c.proposed.action) :=
    List.mem_map_of_mem (List.mem_of_find?_eq_some hc)
  rw [hout.2, List.mem_singleton, Prod.mk.injEq] at hmem
  refine ⟨tr, y, d, hpath, hd, haction, _, hrows, ?_⟩
  rw [hrowOf.action, hmem.2]
  decide +kernel

/-- The second decision has neither a row nor a record of its own. -/
theorem second_decision_unrecorded : ∃ tr y d,
    Path (systemStep defaultEnv sampleDebate) {} tr y ∧
      (y.threads "thread_1").state.decision = some d ∧ d.action = "SELL" ∧
      (¬ ∃ row ∈ y.process.recommendations, row.action = d.action ∧ row.entry = d.entry ∧
        row.stopLoss = d.stopLoss ∧ row.takeProfit = d.takeProfit) ∧
      (d.defensibility.bind Defensibility.action) = some "BUY" := by
  have hrun : (trace (systemStep defaultEnv sampleDebate) {} buyThenSell).map (fun r =>
      (((r.2.threads "thread_1").state.decision.map fun d =>
          (d.action, d.defensibility.bind Defensibility.action)),
        r.2.process.recommendations.map Recommendation.action)) =
      some (some ("SELL", some "BUY"), ["BUY"]) := by
    decide +kernel
  obtain ⟨⟨tr, y⟩, htr, hout⟩ := Option.map_eq_some_iff.mp hrun
  simp only [Prod.mk.injEq] at hout
  obtain ⟨d, hd, haction⟩ := Option.map_eq_some_iff.mp hout.1
  simp only [Prod.mk.injEq] at haction
  refine ⟨tr, y, d, Path.of_trace htr, hd, haction.1, ?_, haction.2⟩
  rintro ⟨row, hrow, hsame, -⟩
  have hmem : row.action ∈ y.process.recommendations.map Recommendation.action :=
    List.mem_map_of_mem hrow
  rw [hout.2, List.mem_singleton, hsame, haction.1] at hmem
  exact absurd hmem (by decide)

end AiTrader.Agent
