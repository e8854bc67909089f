import AiTrader.Library.Unwinding
import AiTrader.Session.Integrity
import Mathlib.Data.List.Perm.Basic

/-! # Tenant isolation

What a user owns in the store is a `View`: the sessions under the user's identifier, with their
runs, messages and frames.

* `Edit.view`: a request edits nothing outside the view of its own user.
* `answer_congr`: the answer to a read is a function of the view of its user.
* `tenant_isolation`: whatever other users request, a user's answers stay what the user's own
  rows make them.

The store drops NUL characters from the identifier of a caller, so users are told apart by the
identifier that is left (`VerifiedUser.storeId`). -/

namespace AiTrader.Session

open Transition

/-- The rows of one user. -/
@[ext] structure View where
  sessions : Set SessionRow
  runs : Set RunRow
  messages : Set MessageRow
  events : Set EventRow

namespace Store

/-- The sessions of `uid`, and what belongs to them. -/
def view (s : Store) (uid : String) : View where
  sessions := {row | row ∈ s.sessions.rows ∧ row.userId = uid}
  runs := {r | r ∈ s.runs.rows ∧ s.owner r.sessionId = some uid}
  messages := {m | m ∈ s.messages.rows ∧ s.owner m.sessionId = some uid}
  events := {e | e ∈ s.runEvents.rows ∧
    ∃ r ∈ s.runs.rows, r.runId = e.runId ∧ s.owner r.sessionId = some uid}

section
variable {s s' t : Store} {now : Stamp} {sid rid : Id} {uid v userId : String}

theorem owner_eq_some_iff_view :
    s.owner sid = some uid ↔ ∃ row ∈ (s.view uid).sessions, row.sessionId = sid := by
  rw [owner_eq_some]
  constructor
  · rintro ⟨row, hrow, huid⟩
    exact ⟨row, ⟨Table.mem_of_find? hrow, huid⟩, Table.find?_key hrow⟩
  · rintro ⟨row, ⟨hrow, huid⟩, hsid⟩
    exact ⟨row, Table.find?_of_mem hrow hsid, huid⟩

theorem view_eq (hsessions : ∀ row, row.userId = uid → (row ∈ s'.sessions.rows ↔ row ∈ s.sessions.rows))
    (hruns : ∀ r, s.owner r.sessionId = some uid → (r ∈ s'.runs.rows ↔ r ∈ s.runs.rows))
    (hmessages : ∀ m, s.owner m.sessionId = some uid →
      (m ∈ s'.messages.rows ↔ m ∈ s.messages.rows))
    (hevents : ∀ e, ∀ r ∈ s.runs.rows, r.runId = e.runId → s.owner r.sessionId = some uid →
      (e ∈ s'.runEvents.rows ↔ e ∈ s.runEvents.rows)) : s'.view uid = s.view uid := by
  have hview : (s'.view uid).sessions = (s.view uid).sessions := by
    ext row
    exact and_congr_left (hsessions row)
  have howner : ∀ sid, s'.owner sid = some uid ↔ s.owner sid = some uid := by
    intro sid
    rw [owner_eq_some_iff_view, owner_eq_some_iff_view, hview]
  refine View.ext hview ?_ ?_ ?_
  · ext r
    refine and_congr_left_iff.mpr (fun h => ?_) |>.trans (and_congr_right' (howner _))
    exact hruns r ((howner _).mp h)
  · ext m
    refine and_congr_left_iff.mpr (fun h => ?_) |>.trans (and_congr_right' (howner _))
    exact hmessages m ((howner _).mp h)
  · ext e
    constructor
    · rintro ⟨he, r, hr, hrid, hown⟩
      have hown := (howner _).mp hown
      have hr := (hruns r hown).mp hr
      exact ⟨(hevents e r hr hrid hown).mp he, r, hr, hrid, hown⟩
    · rintro ⟨he, r, hr, hrid, hown⟩
      exact ⟨(hevents e r hr hrid hown).mpr he, r, (hruns r hown).mpr hr, hrid, (howner _).mpr hown⟩

/-! ### What a request leaves alone -/

theorem view_editSession {f : SessionRow → SessionRow} {hf : ∀ r, (f r).sessionId = r.sessionId}
    (h : ∀ r, (f r).userId = r.userId) (hne : v ≠ uid) :
    (s.updateSessions (isSession sid v) f hf).view uid = s.view uid := by
  refine view_eq (fun row hrow => ?_) (fun _ _ => .rfl) (fun _ _ => .rfl) (fun _ _ _ _ _ => .rfl)
  have hother : ∀ x : SessionRow, x.userId = uid → isSession sid v x = false := by
    intro x hx
    have hxv : x.userId ≠ v := fun he => hne (he.symm.trans hx)
    simp [isSession, hxv]
  show row ∈ s.sessions.rows.map (fun x => if isSession sid v x then f x else x) ↔ _
  rw [List.mem_map]
  constructor
  · rintro ⟨x, hx, rfl⟩
    split at hrow
    · rename_i hsel
      rw [h] at hrow
      rw [hother x hrow] at hsel
      cases hsel
    · rename_i hsel
      rwa [if_neg hsel]
  · exact fun hmem => ⟨row, hmem, by rw [hother row hrow, if_neg Bool.false_ne_true]⟩

theorem view_dropContent (hs : s.Sound) (hown : s.owner sid = some v) (hne : v ≠ uid) :
    (s.dropContent sid).view uid = s.view uid := by
  have hsid : ∀ {k}, s.owner k = some uid → k ≠ sid := by
    rintro k hk rfl
    rw [hk] at hown
    exact hne (Option.some.inj hown).symm
  -- a run of the dropped session is not a run of a session of `uid`
  have hruns : ∀ {rid k w}, s.runLink rid = some (k, w) → s.owner k = some uid →
      s.hasRun sid rid = false := by
    intro rid k w hlink hk
    rw [← Bool.not_eq_true, hasRun_iff]
    rintro ⟨w', hlink'⟩
    rw [hlink] at hlink'
    cases hlink'
    exact hsid hk rfl
  -- so no message of such a session names one
  have hkept : ∀ m ∈ s.messages.rows, s.owner m.sessionId = some uid →
      ¬ m.runId.any (s.hasRun sid) = true := by
    intro m hm hk hany
    have hlink := messageLink_of_mem hm
    cases hrid : m.runId with
    | none =>
        rw [hrid] at hany
        cases hany
    | some rid =>
        rw [hrid] at hlink hany
        obtain ⟨w, hw⟩ := hs.messages_linked hlink
        rw [Option.any_some, hruns hw hk] at hany
        cases hany
  refine view_eq (fun _ _ => .rfl) (fun r hr => ?_) (fun m hm => ?_) (fun e r hr hrid hk => ?_)
  · exact Table.mem_deleteWhere.trans (and_iff_left (decide_eq_false (hsid hr)))
  · show m ∈ List.map _ (s.messages.deleteWhere _).rows ↔ _
    rw [List.mem_map]
    constructor
    · rintro ⟨x, hx, rfl⟩
      obtain ⟨hx, -⟩ := Table.mem_deleteWhere.mp hx
      have hown' : s.owner x.sessionId = some uid := by
        split at hm
        · exact hm
        · exact hm
      rwa [if_neg (hkept x hx hown')]
    · intro hmem
      exact ⟨m, Table.mem_deleteWhere.mpr ⟨hmem, decide_eq_false (hsid hm)⟩,
        if_neg (hkept m hmem hm)⟩
  · refine Table.mem_deleteWhere.trans (and_iff_left ?_)
    rw [← hrid]
    exact hruns (runLink_of_mem hr) hk

/-- **Frame.** A request of another user keeps the view. -/
theorem Edit.view (h : Edit now userId s s') (hs : s.Sound)
    (hne : ∀ v, ActsAs userId v → v ≠ uid) : s'.view uid = s.view uid := by
  cases h with
  | none => rfl
  | create row huser hid hsessions hruns hmessages hevents hnext =>
      refine view_eq (fun x hx => ?_) (fun r _ => by rw [hruns]) (fun m _ => by rw [hmessages])
        (fun e r _ _ _ => by rw [hevents])
      rw [hsessions]
      constructor
      · intro hmem
        obtain hmem | rfl := Table.mem_insertIgnore hmem
        · exact hmem
        · exact absurd hx (hne _ huser)
      · exact Table.mem_insertIgnore_of_mem
  | patch sid v row p huser => exact view_editSession (fun _ => rfl) (hne v huser)
  | softDelete sid v timeframe huser => exact view_editSession (fun _ => rfl) (hne v huser)
  | hardDelete sid v huser howned =>
      obtain ⟨row, hrow⟩ := Option.isSome_iff_exists.mp howned
      refine (view_editSession (f := tombstone now) (fun _ => rfl) (hne v huser)).trans ?_
      exact view_dropContent hs (owner_eq_some.mpr ⟨row, ownedSession_eq_some.mp hrow⟩)
        (hne v huser)

/-! ### What a read looks at -/

theorem mem_sessions_iff (h : s.view uid = t.view uid) {row : SessionRow} (hrow : row.userId = uid) :
    row ∈ s.sessions.rows ↔ row ∈ t.sessions.rows := by
  have hset := congrArg (row ∈ ·.sessions) h
  simpa [view, hrow] using hset

theorem owner_congr (h : s.view uid = t.view uid) (sid : Id) :
    s.owner sid = some uid ↔ t.owner sid = some uid := by
  rw [owner_eq_some_iff_view, owner_eq_some_iff_view, h]

theorem mem_runs_iff (h : s.view uid = t.view uid) {r : RunRow}
    (hr : s.owner r.sessionId = some uid) : r ∈ s.runs.rows ↔ r ∈ t.runs.rows := by
  have hset := congrArg (r ∈ ·.runs) h
  simpa [view, hr, (owner_congr h _).mp hr] using hset

theorem mem_messages_iff (h : s.view uid = t.view uid) {m : MessageRow}
    (hm : s.owner m.sessionId = some uid) : m ∈ s.messages.rows ↔ m ∈ t.messages.rows := by
  have hset := congrArg (m ∈ ·.messages) h
  simpa [view, hm, (owner_congr h _).mp hm] using hset

theorem mem_events_iff (h : s.view uid = t.view uid) {r : RunRow} (hr : r ∈ s.runs.rows)
    (hown : s.owner r.sessionId = some uid) {e : EventRow} (he : e.runId = r.runId) :
    e ∈ s.runEvents.rows ↔ e ∈ t.runEvents.rows := by
  have hset := congrArg (e ∈ ·.events) h
  have hs : ∃ x ∈ s.runs.rows, x.runId = e.runId ∧ s.owner x.sessionId = some uid :=
    ⟨r, hr, he.symm, hown⟩
  have ht : ∃ x ∈ t.runs.rows, x.runId = e.runId ∧ t.owner x.sessionId = some uid :=
    ⟨r, (mem_runs_iff h hown).mp hr, he.symm, (owner_congr h _).mp hown⟩
  simpa only [view, Set.mem_ofPred_eq, hs, ht, and_true, eq_iff_iff] using hset

theorem ownedSession_congr (h : s.view uid = t.view uid) (sid : Id) :
    s.ownedSession sid uid = t.ownedSession sid uid := by
  have hiff : ∀ {x : Store} {row : SessionRow}, x.ownedSession sid uid = some row ↔
      row ∈ (x.view uid).sessions ∧ row.sessionId = sid := by
    intro x row
    rw [ownedSession_eq_some]
    constructor
    · rintro ⟨hrow, huid⟩
      exact ⟨⟨Table.mem_of_find? hrow, huid⟩, Table.find?_key hrow⟩
    · rintro ⟨⟨hrow, huid⟩, hsid⟩
      exact ⟨Table.find?_of_mem hrow hsid, huid⟩
  ext row
  rw [hiff, hiff, h]

theorem owner_of_ownedSession (h : (s.ownedSession sid uid).isSome = true) :
    s.owner sid = some uid := by
  obtain ⟨row, hrow⟩ := Option.isSome_iff_exists.mp h
  exact owner_eq_some.mpr ⟨row, ownedSession_eq_some.mp hrow⟩

/-- In a sound store a run under the identifier of `uid` is a run of one of its sessions. -/
theorem ownedRun_eq_some (hs : s.Sound) {r : RunRow} :
    (s.runs.find? rid).filter (fun r => decide (r.userId = uid)) = some r ↔
      r ∈ (s.view uid).runs ∧ r.runId = rid := by
  rw [Option.filter_eq_some_iff, decide_eq_true_eq]
  constructor
  · rintro ⟨hr, rfl⟩
    have hmem := Table.mem_of_find? hr
    exact ⟨⟨hmem, hs.runs_owned (runLink_of_mem hmem)⟩, Table.find?_key hr⟩
  · rintro ⟨⟨hmem, hown⟩, hrid⟩
    refine ⟨Table.find?_of_mem hmem hrid, ?_⟩
    have hown' := hs.runs_owned (runLink_of_mem hmem)
    rw [hown] at hown'
    exact (Option.some.inj hown').symm

theorem ownedRun_congr (hs : s.Sound) (ht : t.Sound) (h : s.view uid = t.view uid) (rid : Id) :
    (s.runs.find? rid).filter (fun r => decide (r.userId = uid)) =
      (t.runs.find? rid).filter (fun r => decide (r.userId = uid)) := by
  ext r
  rw [ownedRun_eq_some hs, ownedRun_eq_some ht, h]

/-! ### The pages -/

instance : Std.Total startedFirst where
  total a b := by
    rcases lt_trichotomy a.startedAt b.startedAt with h | h | h
    · exact .inl (.inl h)
    · rcases le_total a.runId b.runId with hid | hid
      · exact .inl (.inr ⟨h, hid⟩)
      · exact .inr (.inr ⟨h.symm, hid⟩)
    · exact .inr (.inl h)

instance : IsTrans RunRow startedFirst where
  trans a b c := by
    rintro (hab | ⟨hab, hidab⟩) (hbc | ⟨hbc, hidbc⟩)
    · exact .inl (hab.trans hbc)
    · exact .inl (hbc ▸ hab)
    · exact .inl (hab ▸ hbc)
    · exact .inr ⟨hab.trans hbc, hidab.trans hidbc⟩

instance : Std.Total fun a b : MessageRow => a.seq ≤ b.seq := ⟨fun a b => le_total a.seq b.seq⟩
instance : IsTrans MessageRow fun a b => a.seq ≤ b.seq := ⟨fun _ _ _ => le_trans⟩
instance : Std.Total fun a b : EventRow => a.seq ≤ b.seq := ⟨fun a b => le_total a.seq b.seq⟩
instance : IsTrans EventRow fun a b => a.seq ≤ b.seq := ⟨fun _ _ _ => le_trans⟩

theorem matchingSessions_congr (C : Text.Casing) (h : s.view uid = t.view uid) (q : SessionQuery) :
    s.matchingSessions C uid q = t.matchingSessions C uid q := by
  refine Table.sorted_filter_eq newerFirst (fun row hrow => ?_) fun a _ b _ _ _ hab hba => ?_
  · simp only [sessionMatches, Bool.and_eq_true, decide_eq_true_eq] at hrow
    exact mem_sessions_iff h hrow.1.1.1
  · exact sessionId_eq_of_sortKey (le_antisymm (newerFirst_iff.mp hba) (newerFirst_iff.mp hab))

theorem runsOf_congr (h : s.view uid = t.view uid) (hown : s.owner sid = some uid) :
    s.runsOf sid = t.runsOf sid := by
  refine Table.sorted_filter_eq startedFirst (fun r hr => ?_) fun a _ b _ _ _ hab hba => ?_
  · exact mem_runs_iff h (of_decide_eq_true hr ▸ hown)
  · rcases hab with hab | ⟨hab, hidab⟩
    · rcases hba with hba | ⟨hba, -⟩
      · exact absurd hab hba.asymm
      · exact absurd hba hab.ne'
    · rcases hba with hba | ⟨-, hidba⟩
      · exact absurd hab hba.ne'
      · exact le_antisymm hidab hidba

theorem messagesOf_congr (hs : s.Sound) (h : s.view uid = t.view uid)
    (hown : s.owner sid = some uid) : s.messagesOf sid = t.messagesOf sid := by
  refine Table.sorted_filter_eq (fun a b : MessageRow => a.seq ≤ b.seq) (fun m hm => ?_)
    fun a ha b hb hpa hpb hab hba => ?_
  · exact mem_messages_iff h (of_decide_eq_true hm ▸ hown)
  · have hla := messageLink_of_mem ha
    have hlb := messageLink_of_mem hb
    rw [of_decide_eq_true hpa, le_antisymm hab hba] at hla
    rw [of_decide_eq_true hpb] at hlb
    exact hs.messages_numbered hla hlb

theorem lastMessageSeq_congr (h : s.view uid = t.view uid) (hown : s.owner sid = some uid) :
    s.lastMessageSeq sid = t.lastMessageSeq sid := by
  have hperm := Table.perm_filter (t := s.messages) (u := t.messages)
    (p := fun m => decide (m.sessionId = sid)) fun m hm =>
      mem_messages_iff h (of_decide_eq_true hm ▸ hown)
  exact (hperm.map MessageRow.seq).foldl_eq 0

theorem listRunEvents_congr (h : s.view uid = t.view uid) {r : RunRow}
    (hr : r ∈ (s.view uid).runs) (hrid : r.runId = rid) (afterSeq limit : ℕ) :
    s.listRunEvents rid afterSeq limit = t.listRunEvents rid afterSeq limit := by
  have hr' : r ∈ (t.view uid).runs := h ▸ hr
  have hlast : s.lastSeq? rid = t.lastSeq? rid := by
    rw [lastSeq?, lastSeq?, Table.find?_of_mem hr.1 hrid, Table.find?_of_mem hr'.1 hrid]
  have hpage : s.page rid afterSeq = t.page rid afterSeq := by
    unfold page eventsOf
    rw [List.filter_filter, List.filter_filter]
    refine Table.sorted_filter_eq (fun a b : EventRow => a.seq ≤ b.seq) (fun e he => ?_)
      fun a _ b _ hpa hpb hab hba => ?_
    · rw [Bool.and_eq_true, decide_eq_true_eq, decide_eq_true_eq] at he
      exact mem_events_iff h hr.1 hr.2 (he.2.trans hrid.symm)
    · rw [Bool.and_eq_true, decide_eq_true_eq, decide_eq_true_eq] at hpa hpb
      exact Prod.ext (hpa.2.trans hpb.2.symm) (le_antisymm hab hba)
  rw [listRunEvents, listRunEvents, hlast, hpage]

/-! ### The answers -/

section
variable (hs : s.Sound) (ht : t.Sound)
  (h : ∀ uid, required userId "user_id" = .ok uid → s.view uid = t.view uid)
include h

theorem getSessionForUser_congr (sid : Id) :
    s.getSessionForUser sid userId = t.getSessionForUser sid userId :=
  Fallible.bind_congr_ok fun uid huid => by rw [ownedSession_congr (h uid huid)]

theorem listSessions_congr (C : Text.Casing) (q : SessionQuery) :
    s.listSessions C userId q = t.listSessions C userId q :=
  Fallible.bind_congr_ok fun uid huid => by rw [matchingSessions_congr C (h uid huid)]

theorem listRuns_congr (sid : Id) : s.listRuns sid userId = t.listRuns sid userId := by
  refine Fallible.bind_congr_ok fun uid huid => ?_
  rw [← ownedSession_congr (h uid huid)]
  split
  · rename_i howned
    rw [runsOf_congr (h uid huid) (owner_of_ownedSession howned)]
  · rfl

include hs

theorem listMessages_congr (sid : Id) (afterSeq limit : ℕ) :
    s.listMessages sid userId afterSeq limit = t.listMessages sid userId afterSeq limit := by
  refine Fallible.bind_congr_ok fun uid huid => ?_
  rw [← ownedSession_congr (h uid huid)]
  split
  · rename_i howned
    have hown := owner_of_ownedSession howned
    rw [messagesOf_congr hs (h uid huid) hown, lastMessageSeq_congr (h uid huid) hown]
  · rfl

theorem summarise_congr (row : SessionRow) : s.summarise row userId = t.summarise row userId := by
  rw [summarise, summarise, listRuns_congr h, listMessages_congr hs h]

include ht

theorem answer_transcript_congr (C : Text.Casing) (rid : Id) (afterSeq : ℕ)
    (limit : PageLimit 5000) : s.answer C userId (.listRunEvents rid afterSeq limit) =
      t.answer C userId (.listRunEvents rid afterSeq limit) := by
  cases huid : required userId "user_id" with
  | error e => rw [answer_transcript_unknown huid, answer_transcript_unknown huid]
  | ok uid =>
      have hview := h uid huid
      rw [answer_transcript huid, answer_transcript huid, ← ownedRun_congr hs ht hview]
      cases hrun : (s.runs.find? rid).filter fun r => decide (r.userId = uid) with
      | none => rfl
      | some r =>
          obtain ⟨hr, hrid⟩ := (ownedRun_eq_some hs).mp hrun
          rw [listRunEvents_congr hview hr hrid]

/-- **Output consistency.** The answer to a read is a function of the view of its user. -/
theorem answer_congr (C : Text.Casing) (r : Read) : s.answer C userId r = t.answer C userId r := by
  have hvisible : ∀ sid, s.visibleSession sid userId = t.visibleSession sid userId := by
    intro sid
    rw [visibleSession, visibleSession, getSessionForUser_congr h]
  have hsummary : ∀ row, s.summarise row userId = t.summarise row userId :=
    summarise_congr hs h
  cases r with
  | listSessions status cursor limit query =>
      simp only [answer, listSessions_congr h, hsummary]
  | getSession sid => simp only [answer, hvisible, hsummary]
  | listMessages sid afterSeq limit => simp only [answer, hvisible, listMessages_congr hs h]
  | listRuns sid => simp only [answer, hvisible, listRuns_congr h]
  | listRunEvents rid afterSeq limit => exact answer_transcript_congr hs ht h C rid afterSeq limit

end

end

end Store

/-! ### Requests of other users -/

/-- The identifier the store keeps of a user. -/
def VerifiedUser.storeId (u : VerifiedUser) : String := Store.dropNul u.id

theorem required_eq_ok {value field t : String} (hshort : value.length ≤ maxContentChars)
    (h : required value field = .ok t) : t = Store.dropNul value := by
  unfold required text at h
  dsimp only at h
  split at h
  · cases h
  · rename_i hsome
    cases h
    split at hsome
    · cases hsome
    · split at hsome
      · rename_i hlong
        have hle := List.length_filter_le (fun c : Char => c.toNat ≠ 0) value.toList
        rw [String.length_toList] at hle
        exact absurd hlong (by omega)
      · exact (Option.some.inj hsome).symm

theorem dropNul_dropNul (t : String) : Store.dropNul (Store.dropNul t) = Store.dropNul t := by
  simp [Store.dropNul]

/-- Coercion is idempotent, so a call acts as the identifier the store keeps. -/
theorem VerifiedUser.eq_storeId {u : VerifiedUser} {v : String} (h : Store.ActsAs u.id v) :
    v = u.storeId := by
  have hshort : u.id.length ≤ maxContentChars := u.short.trans (by decide)
  obtain h | ⟨w, hw, h⟩ := h
  · exact required_eq_ok hshort h
  · have hwid : w = u.storeId := required_eq_ok hshort hw
    have hwshort : w.length ≤ maxContentChars := by
      rw [hwid, storeId, Store.dropNul, String.length_ofList]
      exact (List.length_filter_le _ _).trans (String.length_toList ▸ hshort)
    rw [required_eq_ok hwshort h, hwid]
    exact dropNul_dropNul u.id

section
variable (C : Text.Casing)

/-- The store after a sequence of requests. -/
def Store.serve (s : Store) (calls : List ApiCall) : Store :=
  calls.foldl (fun s c => c.exec C s) s

/-- A request that is not made under the identifier `uid`. -/
def ApiCall.Foreign (uid : String) (c : ApiCall) : Prop := ∀ u, c.user = some u → u.storeId ≠ uid

variable {C} {s t : Store} {uid : String}

theorem ApiCall.view (s : Store) (c : ApiCall) (hs : s.Sound) (hc : c.Foreign uid) :
    (c.exec C s).view uid = s.view uid := by
  obtain hsame | ⟨u, hu, hedit⟩ := c.edit C s
  · rw [hsame]
  · exact hedit.view hs fun v hv => VerifiedUser.eq_storeId hv ▸ hc u hu

/-- Requests of other users keep the view, and the store sound. -/
theorem Store.serve_view {calls : List ApiCall} (hs : s.Sound) (hc : ∀ c ∈ calls, c.Foreign uid) :
    (s.serve C calls).Sound ∧ (s.serve C calls).view uid = s.view uid := by
  unfold Store.serve
  exact Unwinding.foldl_view (Store.view · uid) (fun _ c hx => c.sound hx) ApiCall.view hs hc

/-- What a user reads depends on the user's own rows only. -/
theorem answer_of_view {A : VerifiedUser} (hs : s.Sound) (ht : t.Sound)
    (hview : s.view A.storeId = t.view A.storeId) (r : Read) :
    s.answer C A.id r = t.answer C A.id r :=
  Store.answer_congr hs ht (fun _ h => VerifiedUser.eq_storeId (.inl h) ▸ hview) C r

/-- **Tenant isolation.** From two stores of the service that agree on the rows of a user, after
any requests made under other identifiers, each read of the user is answered alike, and as if
those requests had not been made. -/
theorem tenant_isolation {A : VerifiedUser} (hs : s.Reached C) (ht : t.Reached C)
    (hview : s.view A.storeId = t.view A.storeId) {calls : List ApiCall}
    (hothers : ∀ c ∈ calls, c.Foreign A.storeId) (now : Stamp) (r : Read) :
    ApiCall.answer C ⟨now, some A, .read r⟩ (s.serve C calls) =
        ApiCall.answer C ⟨now, some A, .read r⟩ (t.serve C calls) ∧
      ApiCall.answer C ⟨now, some A, .read r⟩ (s.serve C calls) =
        ApiCall.answer C ⟨now, some A, .read r⟩ s := by
  have hout : ∀ x y : Store, x.Sound → y.Sound → x.view A.storeId = y.view A.storeId →
      ApiCall.answer C ⟨now, some A, .read r⟩ x = ApiCall.answer C ⟨now, some A, .read r⟩ y :=
    fun _ _ hx hy hxy => answer_of_view hx hy hxy r
  exact Unwinding.noninterference (Store.view · A.storeId) (fun _ c hx => c.sound hx) ApiCall.view hout
    (sound_of_reaches hs) (sound_of_reaches ht) hview hothers

end

/-! ### Two tenants and a twin -/

/-- Another user than `sampleUser`. -/
def otherUser : VerifiedUser := ⟨"u2", by decide, by decide⟩

/-- The identifier of `sampleUser` with a NUL character behind it. -/
def twin : VerifiedUser := ⟨"u1\x00", by decide, by decide⟩

def openSession (u : VerifiedUser) : ApiCall :=
  ⟨0, some u, .createSession { symbol := "NIFTY", profile := "SWING", timeframe := "10m" }⟩

def dropSession (u : VerifiedUser) (sid : Id) : ApiCall := ⟨3, some u, .deleteSession sid true⟩

def readSession : ApiCall := ⟨4, some sampleUser, .read (.getSession 0)⟩

/-- Session `0` of `sampleUser`. -/
def oneTenant : Store := (openSession sampleUser).exec Text.Casing.ascii Store.empty

/-- The same with session `1` of `otherUser`. -/
def twoTenants : Store := oneTenant.serve Text.Casing.ascii [openSession otherUser]

theorem oneTenant_reached : oneTenant.Reached Text.Casing.ascii :=
  Reaches.tail (a := .request (openSession sampleUser)) .refl trivial rfl

theorem twoTenants_reached : twoTenants.Reached Text.Casing.ascii :=
  Reaches.tail (a := .request (openSession otherUser)) oneTenant_reached trivial rfl

theorem foreign_of_other {c : ApiCall} (h : c.user = some otherUser) :
    c.Foreign sampleUser.storeId := by
  intro u hu
  rw [h, Option.some.injEq] at hu
  rw [← hu]
  decide +kernel

theorem twoTenants_view : twoTenants.view sampleUser.storeId = oneTenant.view sampleUser.storeId :=
  (Store.serve_view (sound_of_reaches oneTenant_reached)
    (List.forall_mem_singleton.mpr (foreign_of_other rfl))).2

theorem tenant_isolation_dropSession :
    readSession.answer Text.Casing.ascii
        (oneTenant.serve Text.Casing.ascii [dropSession otherUser 0]) =
        readSession.answer Text.Casing.ascii
          (twoTenants.serve Text.Casing.ascii [dropSession otherUser 0]) ∧
      readSession.answer Text.Casing.ascii
          (oneTenant.serve Text.Casing.ascii [dropSession otherUser 0]) =
        readSession.answer Text.Casing.ascii oneTenant :=
  tenant_isolation oneTenant_reached twoTenants_reached twoTenants_view.symm
    (List.forall_mem_singleton.mpr (foreign_of_other rfl)) 4 (.getSession 0)

def readMessages : ApiCall :=
  ⟨4, some sampleUser, .read (.listMessages 0 0 ⟨200, by decide, by decide⟩)⟩

/-- A store that the service does not reach: the message in the session of `sampleUser` names a
run of `otherUser`. -/
def unlinkedStore : Store :=
  let withRun := (StoreWrite.createRun
    { sessionId := 1, userId := "u2", kind := .find, symbol := "NIFTY", timeframe := "10m",
      profile := "SWING", model := none, manualTrade := none }).exec Text.Casing.ascii twoTenants 1
  (StoreWrite.createMessage
    { sessionId := 0, role := .user, kind := .qaQuestion, status := .complete, content := "why?",
      runId := some 2, clientMsgId := none, errorDetail := none }).exec Text.Casing.ascii withRun 2

/-- The message of `unlinkedStore` with its run as given. -/
def unlinkedMessage (runId : Option Id) : MessageRow :=
  { messageId := 4, sessionId := 0, runId := runId, seq := 1, role := .user, kind := .qaQuestion,
    content := "why?", status := .complete, errorDetail := none, clientMsgId := none,
    createdAt := 2, updatedAt := 2 }

/-- The request of a user with another identifier removes the session of `sampleUser`; and in a
store whose messages are not linked within their session, the request of another user changes
what `sampleUser` reads. -/
theorem isolation_fails : (oneTenant.Reached Text.Casing.ascii ∧ twin.id ≠ sampleUser.id ∧
      readSession.answer Text.Casing.ascii oneTenant = .ok (.summary {
        sessionId := 0, title := none, symbol := "NIFTY", timeframe := "10m", profile := "SWING",
        status := .active, createdAt := 0, updatedAt := 0, archivedAt := none, activeRunId := none,
        messageCount := 0, lastRun := none }) ∧
      readSession.answer Text.Casing.ascii
        (oneTenant.serve Text.Casing.ascii [dropSession twin 0]) = .error notFound) ∧
    readMessages.answer Text.Casing.ascii unlinkedStore =
      .ok (.messages [unlinkedMessage (some 2)] 1) ∧
    readMessages.answer Text.Casing.ascii
        (unlinkedStore.serve Text.Casing.ascii [dropSession otherUser 1]) =
      .ok (.messages [unlinkedMessage none] 1) := by
  refine ⟨⟨oneTenant_reached, ?_, ?_, ?_⟩, ?_, ?_⟩
  · decide
  · rfl
  · rfl
  · rfl
  · rfl

end AiTrader.Session
