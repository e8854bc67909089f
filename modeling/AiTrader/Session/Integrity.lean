import AiTrader.Library.Transition
import AiTrader.Session.Service
import Mathlib.Data.List.Fold
import Mathlib.Data.List.MinMax

/-! # Ownership across the tables

Runs, messages and frames do not carry the owner of their session, or carry a copy of it.  That
the copies agree is not checked by any read; it holds because of how rows are written.

* `Sound`: a run carries the owner of its session, a message names a run of its own session, and
  no two messages of a session share a number.
* `sound_of_reaches`: every store that the service can reach is sound, where a message is only
  ever created under a run of its session (`Linked`). -/

namespace AiTrader.Session

open Transition

namespace Store

/-- Who owns the session. -/
def owner (s : Store) (sid : Id) : Option String := (s.sessions.find? sid).map SessionRow.userId

/-- The tables agree on who owns what. -/
structure Sound (s : Store) : Prop where
  runs_owned : ∀ {rid sid : Id} {uid : String},
    s.runLink rid = some (sid, uid) → s.owner sid = some uid
  messages_linked : ∀ {mid sid rid : Id} {seq : ℕ},
    s.messageLink mid = some (sid, some rid, seq) → ∃ uid, s.runLink rid = some (sid, uid)
  messages_numbered : ∀ {mid mid' sid : Id} {r r' : Option Id} {seq : ℕ},
    s.messageLink mid = some (sid, r, seq) → s.messageLink mid' = some (sid, r', seq) → mid = mid'

section
variable {s s' : Store} {sid rid mid : Id} {uid : String}

theorem owner_eq_some :
    s.owner sid = some uid ↔ ∃ row, s.sessions.find? sid = some row ∧ row.userId = uid :=
  Option.map_eq_some_iff

theorem owner_of_standing {sid : Id} (h : s'.standing sid = s.standing sid) :
    s'.owner sid = s.owner sid := by
  have hfst : ∀ x : Store, x.owner sid = (x.standing sid).map Prod.fst := by
    intro x
    rw [owner, standing, Option.map_map]
    rfl
  rw [hfst, hfst, h]

theorem runLink_of_mem {r : RunRow} (h : r ∈ s.runs.rows) :
    s.runLink r.runId = some (r.sessionId, r.userId) := by
  rw [runLink, Table.find?_of_mem h rfl]
  rfl

theorem messageLink_of_mem {m : MessageRow} (h : m ∈ s.messages.rows) :
    s.messageLink m.messageId = some (m.sessionId, m.runId, m.seq) := by
  rw [messageLink, Table.find?_of_mem h rfl]
  rfl

theorem runLink_nextId (s : Store) : s.runLink s.nextId = none := by
  rw [runLink, Option.map_eq_none_iff, Table.find?_eq_none]
  exact fun r hr => (s.runs_minted r hr).ne

theorem lt_nextSeq {r : Option Id} {seq : ℕ} (h : s.messageLink mid = some (sid, r, seq)) :
    seq < s.nextSeq sid := by
  obtain ⟨m, hm, hlink⟩ := Option.map_eq_some_iff.mp h
  simp only [Prod.mk.injEq] at hlink
  obtain ⟨hsid, -, rfl⟩ := hlink
  have hmem : m.seq ∈ (s.messages.rows.filter fun m => decide (m.sessionId = sid)).map
      MessageRow.seq :=
    List.mem_map_of_mem (List.mem_filter.mpr ⟨Table.mem_of_find? hm, decide_eq_true hsid⟩)
  rw [nextSeq, List.foldl_eq_foldr]
  exact Nat.lt_succ_of_le (List.le_max_of_le' 0 hmem le_rfl)

/-! ### Store writes -/

theorem SameLinks.sound (h : SameLinks s s') (hs : s.Sound) : s'.Sound where
  runs_owned hrun := by
    rw [h.runLink] at hrun
    rw [owner_of_standing (h.standing _)]
    exact hs.runs_owned hrun
  messages_linked hmsg := by
    rw [h.messageLink] at hmsg
    obtain ⟨uid, huid⟩ := hs.messages_linked hmsg
    exact ⟨uid, (h.runLink _).trans huid⟩
  messages_numbered hm hm' := by
    rw [h.messageLink] at hm hm'
    exact hs.messages_numbered hm hm'

theorem sound_createRun (C : Text.Casing) (now : Stamp) (q : RunRequest) (hs : s.Sound) :
    (s.after (s.createRun C now q)).Sound := by
  obtain hsame | ⟨uid, status, hsess, -, hstanding, hrun, hmsg, -⟩ := links_createRun C s now q
  · exact hsame.sound hs
  · refine ⟨fun {rid sid v} h => ?_, fun {mid sid rid seq} h => ?_, fun h h' => ?_⟩
    · rw [owner_of_standing (hstanding _)]
      rw [hrun] at h
      split at h
      · cases h
        obtain ⟨row, hrow, heq⟩ := Option.map_eq_some_iff.mp hsess
        exact owner_eq_some.mpr ⟨row, hrow, (Prod.ext_iff.mp heq).1⟩
      · exact hs.runs_owned h
    · rw [hmsg] at h
      obtain ⟨v, hv⟩ := hs.messages_linked h
      refine ⟨v, ?_⟩
      rw [hrun, if_neg, hv]
      rintro rfl
      rw [runLink_nextId] at hv
      cases hv
    · rw [hmsg] at h h'
      exact hs.messages_numbered h h'

theorem sound_createMessage (now : Stamp) (q : MessageRequest) (hs : s.Sound)
    (hq : ∀ rid ∈ q.runId, ∃ uid, s.runLink rid = some (q.sessionId, uid)) :
    (s.after (s.createMessage now q)).Sound := by
  obtain hsame | ⟨hstanding, hrun, hmsg, -⟩ := links_createMessage s now q
  · exact hsame.sound hs
  · refine ⟨fun {rid sid v} h => ?_, fun {mid sid rid seq} h => ?_,
      fun {mid mid' sid r r' seq} h h' => ?_⟩
    · rw [hrun] at h
      rw [owner_of_standing (hstanding _)]
      exact hs.runs_owned h
    · rw [hrun]
      rw [hmsg] at h
      split at h
      · simp only [Option.some.injEq, Prod.mk.injEq] at h
        obtain ⟨rfl, hrid, -⟩ := h
        exact hq rid hrid
      · exact hs.messages_linked h
    · -- the new message is numbered behind all others of its session
      rw [hmsg] at h h'
      by_cases hmid : mid = s.nextId
      · by_cases hmid' : mid' = s.nextId
        · exact hmid.trans hmid'.symm
        · rw [if_pos hmid, Option.some.injEq] at h
          rw [if_neg hmid'] at h'
          cases h
          exact absurd (lt_nextSeq h') (lt_irrefl _)
      · rw [if_neg hmid] at h
        by_cases hmid' : mid' = s.nextId
        · rw [if_pos hmid', Option.some.injEq] at h'
          cases h'
          exact absurd (lt_nextSeq h) (lt_irrefl _)
        · rw [if_neg hmid'] at h'
          exact hs.messages_numbered h h'

/-! ### Requests -/

theorem owner_editSession {f : SessionRow → SessionRow} {hf : ∀ r, (f r).sessionId = r.sessionId}
    (h : ∀ r, (f r).userId = r.userId) (k : Id) :
    (s.updateSessions (isSession sid uid) f hf).owner k = s.owner k :=
  Table.map_find?_updateWhere s.sessions (isSession sid uid) hf h k

theorem sound_editSession {f : SessionRow → SessionRow} {hf : ∀ r, (f r).sessionId = r.sessionId}
    (h : ∀ r, (f r).userId = r.userId) (hs : s.Sound) :
    (s.updateSessions (isSession sid uid) f hf).Sound where
  runs_owned hrun := (owner_editSession h _).trans (hs.runs_owned hrun)
  messages_linked := hs.messages_linked
  messages_numbered := hs.messages_numbered

theorem hasRun_iff : s.hasRun sid rid = true ↔ ∃ uid, s.runLink rid = some (sid, uid) := by
  simp only [hasRun, List.any_eq_true, Bool.and_eq_true, decide_eq_true_eq]
  constructor
  · rintro ⟨r, hr, rfl, rfl⟩
    exact ⟨r.userId, runLink_of_mem hr⟩
  · rintro ⟨uid, h⟩
    obtain ⟨r, hr, heq⟩ := Option.map_eq_some_iff.mp h
    exact ⟨r, Table.mem_of_find? hr, (Prod.ext_iff.mp heq).1, Table.find?_key hr⟩

theorem runLink_dropContent {k : Id} (h : (s.dropContent sid).runLink rid = some (k, uid)) :
    s.runLink rid = some (k, uid) := by
  obtain ⟨r, hr, heq⟩ := Option.map_eq_some_iff.mp h
  cases heq
  rw [← Table.find?_key hr]
  exact runLink_of_mem (Table.mem_deleteWhere.mp (Table.mem_of_find? hr)).1

/-- A message left by a hard delete is one of another session; it lost its run if that was one of
the dropped ones. -/
theorem messageLink_dropContent {k : Id} {r : Option Id} {seq : ℕ}
    (h : (s.dropContent sid).messageLink mid = some (k, r, seq)) :
    ∃ r', s.messageLink mid = some (k, r', seq) ∧ k ≠ sid ∧
      (r = r' ∨ r = none) ∧ ∀ rid ∈ r, s.hasRun sid rid = false := by
  obtain ⟨m, hm, heq⟩ := Option.map_eq_some_iff.mp h
  obtain rfl := Table.find?_key hm
  obtain ⟨x, hx, rfl⟩ := List.mem_map.mp (Table.mem_of_find? hm)
  obtain ⟨hx, hk⟩ := Table.mem_deleteWhere.mp hx
  rw [decide_eq_false_iff_not] at hk
  split at heq
  · cases heq
    rw [if_pos ‹_›]
    exact ⟨x.runId, messageLink_of_mem hx, hk, .inr rfl, nofun⟩
  · rename_i hany
    cases heq
    rw [if_neg hany]
    refine ⟨x.runId, messageLink_of_mem hx, hk, .inl rfl, fun rid hrid => ?_⟩
    rw [Option.mem_def] at hrid
    simpa [hrid] using hany

theorem sound_dropContent (hs : s.Sound) : (s.dropContent sid).Sound where
  runs_owned hrun := hs.runs_owned (runLink_dropContent hrun)
  messages_linked := fun {mid k rid seq} h => by
    obtain ⟨r', hlink, hk, rfl | hnone, hkept⟩ := messageLink_dropContent h
    · obtain ⟨uid, huid⟩ := hs.messages_linked hlink
      refine ⟨uid, ?_⟩
      obtain ⟨run, hrun, heq⟩ := Option.map_eq_some_iff.mp huid
      rw [runLink, dropContent, Table.find?_deleteWhere, hrun, Option.filter_some, if_pos,
        Option.map_some, heq]
      simp only [Prod.mk.injEq] at heq
      simp [heq.1, hk]
    · cases hnone
  messages_numbered h h' := by
    obtain ⟨_, hlink, -⟩ := messageLink_dropContent h
    obtain ⟨_, hlink', -⟩ := messageLink_dropContent h'
    exact hs.messages_numbered hlink hlink'

theorem Edit.sound {now : Stamp} {userId : String} (h : Edit now userId s s') (hs : s.Sound) :
    s'.Sound := by
  cases h with
  | none => exact hs
  | create row huser hid hsessions hruns hmessages hevents hnext =>
      have hrun : ∀ rid, s'.runLink rid = s.runLink rid := fun rid => by
        rw [runLink, runLink, hruns]
      have hmsg : ∀ mid, s'.messageLink mid = s.messageLink mid := fun mid => by
        rw [messageLink, messageLink, hmessages]
      refine ⟨fun h => ?_, fun h => ?_, fun h h' => ?_⟩
      · rw [hrun] at h
        obtain ⟨r, hr, huid⟩ := owner_eq_some.mp (hs.runs_owned h)
        refine owner_eq_some.mpr ⟨r, ?_, huid⟩
        rw [hsessions]
        exact Table.find?_insertIgnore_of_some hr
      · rw [hmsg] at h
        obtain ⟨uid, huid⟩ := hs.messages_linked h
        exact ⟨uid, (hrun _).trans huid⟩
      · rw [hmsg] at h h'
        exact hs.messages_numbered h h'
  | patch => exact sound_editSession (fun _ => rfl) hs
  | softDelete => exact sound_editSession (fun _ => rfl) hs
  | hardDelete => exact sound_editSession (fun _ => rfl) (sound_dropContent hs)

end

theorem sound_empty : Store.empty.Sound := ⟨nofun, nofun, nofun⟩

end Store

/-! ### Runs of the service -/

/-- Whoever creates a message under a run has resolved the run within the session. -/
def Action.Linked (s : Store) : Action → Prop
  | write _ (.createMessage q) => ∀ rid ∈ q.runId, ∃ uid, s.runLink rid = some (q.sessionId, uid)
  | _ => True

section
variable {C : Text.Casing} {s s' : Store}

theorem ApiCall.sound (c : ApiCall) (hs : s.Sound) : (c.exec C s).Sound := by
  obtain hsame | ⟨u, -, hedit⟩ := c.edit C s
  · rw [hsame]
    exact hs
  · exact hedit.sound hs

theorem Action.sound {a : Action} (ha : a.Linked s) (h : a.step C s = some s') (hs : s.Sound) :
    s'.Sound := by
  cases a with
  | request c =>
      cases h
      exact c.sound hs
  | write now w =>
      cases h
      obtain ⟨q, rfl⟩ | ⟨q, rfl⟩ | hsame := w.exec_cases C s now
      · exact Store.sound_createRun C now q hs
      · exact Store.sound_createMessage now q hs ha
      · exact hsame.sound hs

/-- A store of the service. -/
def Store.Reached (C : Text.Casing) (s : Store) : Prop :=
  Reaches (Action.step C) (fun s a => a.Linked s) Store.empty s

/-- Every store of the service is sound. -/
theorem sound_of_reaches (h : s.Reached C) : s.Sound :=
  Reaches.invariant (fun _ _ _ hs ha hstep => Action.sound ha hstep hs) h Store.sound_empty

end

end AiTrader.Session
