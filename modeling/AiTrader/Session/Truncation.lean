import AiTrader.Session.Operations

/-! # Truncation of message content

Three paths cap the content of a message.  `create_message` cuts it and says so in the text;
`append_message_delta` and `finalize_message` cut it with `substr` and say nothing.

* `content_after`: the content of a message after any list of writes to it, from what was accepted.
* `truncation_stated_iff`: exactly when the stored content is the whole text or says that
  characters were dropped. -/

namespace AiTrader.Session

open Text

/-! ### Writes to one message -/

/-- A call of `append_message_delta` or of `finalize_message`. -/
inductive ContentWrite where
  | append (delta : String)
  | finalize (status : MessageStatus) (content errorDetail : Option String)

namespace ContentWrite

/-- The row of the message after the call.  A call that raises changes nothing, and neither does
one for a message that is no longer streaming. -/
def onRow (now : Stamp) (m : MessageRow) : ContentWrite → MessageRow
  | .append delta =>
      if m.status = .streaming then
        { m with content := Store.capContent (m.content ++ Store.dropNul delta), updatedAt := now }
      else m
  | .finalize status content errorDetail =>
      if m.status = .streaming ∧ status ≠ .streaming then
        { m with
          status := status, content := (content.map (Store.capContent ∘ Store.dropNul)).getD m.content,
          errorDetail := (errorDetail.bind (text ·)).or m.errorDetail, updatedAt := now }
      else m

/-- The texts of the call hold no NUL. -/
def NulFree : ContentWrite → Prop
  | .append delta => '\x00' ∉ delta.toList
  | .finalize _ content _ => ∀ t ∈ content, '\x00' ∉ t.toList

end ContentWrite

namespace Store

/-- One call on the message `mid`. -/
def writeContent (s : Store) (mid : Id) (now : Stamp) : ContentWrite → Write Bool
  | .append delta => s.appendMessageDelta now mid delta
  | .finalize status content errorDetail => s.finalizeMessage now mid status content errorDetail

/-- The store after a call; a raised error rolls back. -/
def afterWrite (s : Store) (mid : Id) (call : Stamp × ContentWrite) : Store :=
  match s.writeContent mid call.1 call.2 with
  | .ok (_, s') => s'
  | .error _ => s

/-- The store after a list of calls. -/
def afterWrites (s : Store) (mid : Id) (calls : List (Stamp × ContentWrite)) : Store :=
  calls.foldl (fun s call => s.afterWrite mid call) s

section
variable {s s' : Store} {mid : Id} {now : Stamp}

theorem touchMessage_messages (k : Id) : (s.touchMessage now k).messages = s.messages := by
  unfold touchMessage
  split <;> rfl

theorem find?_updateStreaming {f : MessageRow → MessageRow}
    {hf : ∀ r, (f r).messageId = r.messageId} :
    (s.updateMessages (streamingIs mid) f hf).messages.find? mid =
      (s.messages.find? mid).map fun m => if m.status = .streaming then f m else m := by
  rw [updateMessages, Table.find?_updateWhere]
  cases hm : s.messages.find? mid with
  | none => rfl
  | some m =>
      have hid : m.messageId = mid := Table.find?_key hm
      simp [streamingIs, hid]

/-- **Step.** What one call does to the row of its message. -/
theorem find?_afterWrite (call : Stamp × ContentWrite) :
    (s.afterWrite mid call).messages.find? mid =
      (s.messages.find? mid).map fun m => call.2.onRow call.1 m := by
  obtain ⟨now, _ | ⟨status, content, errorDetail⟩⟩ := call
  · unfold afterWrite writeContent appendMessageDelta
    dsimp only
    split
    · rw [touchMessage_messages, find?_updateStreaming]
      rfl
    · rw [find?_updateStreaming]
      rfl
  · unfold afterWrite writeContent finalizeMessage
    by_cases hst : status = .streaming
    · simp [hst, ContentWrite.onRow]
    · simp only [hst, if_false, ContentWrite.onRow, ne_eq, not_false_eq_true, and_true]
      split
      · rw [touchMessage_messages, find?_updateStreaming]
      · rw [find?_updateStreaming]

/-- The row of a message after a list of calls. -/
def rowAfter (m : MessageRow) (calls : List (Stamp × ContentWrite)) : MessageRow :=
  calls.foldl (fun m call => call.2.onRow call.1 m) m

theorem find?_afterWrites (calls : List (Stamp × ContentWrite)) :
    (s.afterWrites mid calls).messages.find? mid =
      (s.messages.find? mid).map fun m => rowAfter m calls := by
  induction calls generalizing s with
  | nil => simp [afterWrites, rowAfter]
  | cons call calls ih =>
      have hrest := ih (s := s.afterWrite mid call)
      rw [find?_afterWrite, Option.map_map] at hrest
      exact hrest

theorem createMessage_stored {q : MessageRequest} {m : MessageRow}
    (h : s.createMessage now q = .ok (some m, s')) (hnew : s.messages.find? m.messageId = none) :
    s'.messages.find? m.messageId = some m ∧ m.status = q.status ∧
      m.content = (text q.content).getD "" := by
  unfold createMessage at h
  split at h
  · cases h
  · split at h
    · cases h
    · dsimp only at h
      split at h
      · rename_i prior hprior
        cases h
        -- a message found by its client identifier is stored already
        obtain ⟨cid, -, hfind⟩ := Option.bind_eq_some_iff.mp hprior
        exact absurd rfl (Table.find?_eq_none.mp hnew _ (List.mem_of_find?_eq_some hfind))
      · split at h
        · cases h
        · cases h
          refine ⟨?_, rfl, rfl⟩
          rw [touch_messages]
          exact Table.find?_insertIgnore_self hnew

end

end Store

/-! ### What was accepted -/

/-- The deltas that a streaming message accepts out of a list of calls. -/
def acceptedDeltas : List ContentWrite → List String
  | [] => []
  | .append delta :: calls => delta :: acceptedDeltas calls
  | .finalize status _ _ :: calls => if status = .streaming then acceptedDeltas calls else []

/-- The replacement given to the `finalize_message` that ends the stream. -/
def replacement : List ContentWrite → Option String
  | [] => none
  | .append _ :: calls => replacement calls
  | .finalize status content _ :: calls => if status = .streaming then replacement calls else content

/-- A message that is not streaming accepts no call. -/
def received (status : MessageStatus) (calls : List ContentWrite) : List ContentWrite :=
  if status = .streaming then calls else []

/-- All that a message was given: its replacement, or its initial content with the accepted
deltas. -/
def wholeText (initial : String) (calls : List ContentWrite) : String :=
  (replacement calls).getD (initial ++ String.join (acceptedDeltas calls))

section
variable {a b t : String} {m : MessageRow}

open Store

theorem capContent_eq_self : capContent t = t ↔ t.length ≤ maxContentChars := by
  rw [capContent, ← String.toList_inj, String.toList_ofList, List.take_eq_self_iff,
    String.length_toList]

/-- The first cut is undone by the second. -/
theorem capContent_append : capContent (capContent a ++ b) = capContent (a ++ b) := by
  unfold capContent
  rw [String.toList_append, String.toList_ofList, String.toList_append, List.take_append,
    List.take_append, List.take_take, min_self, List.length_take]
  congr 3
  omega

theorem dropNul_eq_self (h : '\x00' ∉ t.toList) : dropNul t = t := by
  rw [dropNul, List.filter_eq_self.mpr, String.ofList_toList]
  intro c hc
  refine decide_eq_true fun hzero => h ?_
  rwa [show '\x00' = c from Char.toNat_inj.mp hzero.symm]

theorem rowAfter_of_ended (h : m.status ≠ .streaming) (calls : List (Stamp × ContentWrite)) :
    rowAfter m calls = m := by
  induction calls with
  | nil => rfl
  | cons call calls ih =>
      have hrow : call.2.onRow call.1 m = m := by
        cases call.2 with
        | append delta => exact if_neg h
        | finalize status content errorDetail => exact if_neg fun hand => h hand.1
      rw [rowAfter, List.foldl_cons, hrow]
      exact ih

/-- **Run.** The content of a streaming message after a list of calls. -/
theorem content_after (h : m.status = .streaming) {calls : List (Stamp × ContentWrite)}
    (hnul : ∀ call ∈ calls, call.2.NulFree) :
    (rowAfter m calls).content =
      match replacement (calls.map Prod.snd), acceptedDeltas (calls.map Prod.snd) with
      | some t, _ => capContent t
      | none, [] => m.content
      | none, delta :: deltas => capContent (m.content ++ String.join (delta :: deltas)) := by
  induction calls generalizing m with
  | nil => rfl
  | cons call calls ih =>
      obtain ⟨now, _ | ⟨status, content, errorDetail⟩⟩ := call
      · rename_i delta
        obtain ⟨hdelta, hcalls⟩ := List.forall_mem_cons.mp hnul
        have hrow : rowAfter m ((now, .append delta) :: calls) =
            rowAfter { m with content := capContent (m.content ++ delta), updatedAt := now } calls := by
          rw [rowAfter, List.foldl_cons, ContentWrite.onRow, if_pos h, dropNul_eq_self hdelta]
          rfl
        rw [hrow]
        refine (ih ?_ hcalls).trans ?_
        · exact h
        simp only [List.map_cons, replacement, acceptedDeltas]
        cases replacement (calls.map Prod.snd) with
        | some t => rfl
        | none =>
            cases acceptedDeltas (calls.map Prod.snd) with
            | nil => simp [String.join_cons]
            | cons d ds => simp only [String.join_cons, capContent_append, String.append_assoc]
      · obtain ⟨hcontent, hcalls⟩ := List.forall_mem_cons.mp hnul
        by_cases hst : status = .streaming
        · have hrow : rowAfter m ((now, .finalize status content errorDetail) :: calls) =
              rowAfter m calls := by
            rw [rowAfter, List.foldl_cons, ContentWrite.onRow, if_neg fun hand => hand.2 hst]
            rfl
          rw [hrow, ih h hcalls]
          simp only [List.map_cons, replacement, acceptedDeltas, if_pos hst]
        · rw [rowAfter, List.foldl_cons, ContentWrite.onRow, if_pos ⟨h, hst⟩]
          refine (congrArg MessageRow.content (rowAfter_of_ended hst calls)).trans ?_
          simp only [List.map_cons, replacement, acceptedDeltas, if_neg hst]
          cases content with
          | none => rfl
          | some t => simp [dropNul_eq_self (hcontent t rfl)]

end

/-! ### The rule for oversized content -/

/-- The note that `_text` leaves behind what it has cut. -/
def droppedNote (n : ℕ) : String := "\n[truncated " ++ toString n ++ " characters]"

/-- The text says at its end that characters were dropped. -/
def StatesDropped (t : String) : Prop := ∃ n, (droppedNote n).toList <:+ t.toList

/-- `_text` turns blank text into `NULL`, so of blank content nothing is stored. -/
def KeptAsGiven (initial : String) : Prop := initial = "" ∨ strip initial ≠ ""

/-- What is left of the initial content in front of a delta. -/
def kept (initial : String) : String := if strip initial = "" then "" else initial

/-- The texts for which nothing is dropped in silence: they fit, or their first
`MAX_CONTENT_CHARS` characters happen to end in a note. -/
def Fits (initial : String) (calls : List ContentWrite) : Prop :=
  match replacement calls, acceptedDeltas calls with
  | some t, _ => t.length ≤ maxContentChars ∨ StatesDropped (Store.capContent t)
  | none, [] => KeptAsGiven initial
  | none, deltas =>
      (KeptAsGiven initial ∧ (initial ++ String.join deltas).length ≤ maxContentChars) ∨
        StatesDropped (Store.capContent (kept initial ++ String.join deltas))

section
variable {initial t u : String} {status : MessageStatus}

open Store

theorem not_statesDropped_empty : ¬ StatesDropped "" := by
  rintro ⟨n, h⟩
  have hlen := h.length_le
  simp [droppedNote] at hlen

/-- What `create_message` stores of content without NUL: nothing of blank content, all of what
fits, and otherwise the start with a note. -/
theorem text_cases (h : '\x00' ∉ initial.toList) :
    (strip initial = "" ∧ text initial = none) ∨
      (strip initial ≠ "" ∧ initial.length ≤ maxContentChars ∧ text initial = some initial) ∨
      (strip initial ≠ "" ∧ maxContentChars < initial.length ∧ text initial =
        some (capContent initial ++ droppedNote (initial.length - maxContentChars))) := by
  have hnul : initial.toList.filter (fun c => decide (c.toNat ≠ 0)) = initial.toList := by
    have hdrop := congrArg String.toList (dropNul_eq_self h)
    rwa [dropNul, String.toList_ofList] at hdrop
  have hblank : strip initial = "" ↔ (trimBoth isSpace initial.toList).isEmpty = true := by
    rw [strip, ← String.toList_inj, String.toList_ofList, List.isEmpty_iff, String.toList_empty]
  unfold text
  rw [hnul]
  dsimp only
  rw [String.length_toList]
  by_cases hb : strip initial = ""
  · exact .inl ⟨hb, if_pos (hblank.mp hb)⟩
  · right
    rw [if_neg fun hempty => hb (hblank.mpr hempty)]
    by_cases hlen : initial.length ≤ maxContentChars
    · rw [if_neg (by omega), String.ofList_toList]
      exact .inl ⟨hb, hlen, rfl⟩
    · rw [if_pos (by omega)]
      refine .inr ⟨hb, by omega, ?_⟩
      rw [capContent, droppedNote]
      simp only [String.append_assoc]

/-- The first delta cuts off the note that stood behind the initial content. -/
theorem capContent_text (h : '\x00' ∉ initial.toList) :
    capContent ((text initial).getD "" ++ t) = capContent (kept initial ++ t) := by
  rcases text_cases h with ⟨hb, htext⟩ | ⟨hb, -, htext⟩ | ⟨hb, hlen, htext⟩
  · rw [htext, kept, if_pos hb]
    rfl
  · rw [htext, kept, if_neg hb]
    rfl
  · rw [htext, kept, if_neg hb, Option.getD_some]
    unfold capContent
    simp only [String.toList_append, String.toList_ofList, List.append_assoc]
    have hfull : maxContentChars ≤ initial.toList.length := by rw [String.length_toList]; omega
    rw [List.take_append_of_le_length (by rw [List.length_take]; omega), List.take_take, min_self,
      List.take_append_of_le_length hfull]

theorem capContent_kept :
    capContent (kept initial ++ t) = initial ++ t ↔
      KeptAsGiven initial ∧ (initial ++ t).length ≤ maxContentChars := by
  unfold kept KeptAsGiven
  split
  · rename_i hb
    constructor
    · intro heq
      have hlen : min maxContentChars t.length = initial.length + t.length := by
        have h := congrArg String.length heq
        simpa only [String.empty_append, capContent, String.length_ofList, List.length_take,
          String.length_append, String.length_toList] using h
      have hempty : initial = "" := by
        rw [← String.length_eq_zero_iff]
        omega
      subst hempty
      rw [String.empty_append] at heq ⊢
      exact ⟨.inl rfl, capContent_eq_self.mp heq⟩
    · rintro ⟨hinitial, hlen⟩
      have hempty : initial = "" := hinitial.resolve_right fun hne => hne hb
      subst hempty
      rw [String.empty_append] at hlen ⊢
      exact capContent_eq_self.mpr hlen
  · rename_i hb
    rw [capContent_eq_self, and_iff_right (.inr hb)]

theorem text_honest (h : '\x00' ∉ initial.toList) :
    ((text initial).getD "" = initial ∨ StatesDropped ((text initial).getD "")) ↔
      KeptAsGiven initial := by
  rcases text_cases h with ⟨hb, htext⟩ | ⟨hb, -, htext⟩ | ⟨hb, hlen, htext⟩
  · rw [htext, Option.getD_none, or_iff_left not_statesDropped_empty, KeptAsGiven,
      or_iff_left (not_not_intro hb), eq_comm]
  · rw [htext]
    exact iff_of_true (.inl rfl) (.inr hb)
  · rw [htext, Option.getD_some]
    refine iff_of_true (.inr ⟨initial.length - maxContentChars, ?_⟩) (.inr hb)
    rw [String.toList_append]
    exact List.suffix_append _ _

/-- **Truncation.** A message that `create_message` stores, after any calls of
`append_message_delta` and `finalize_message` on it, holds all it was given or says that
characters were dropped, if and only if what it was given `Fits`. -/
theorem truncation_stated_iff {s s' : Store} {now : Stamp} {q : MessageRequest} {m : MessageRow}
    (h : s.createMessage now q = .ok (some m, s')) (hnew : s.messages.find? m.messageId = none)
    (hnul : '\x00' ∉ q.content.toList) {calls : List (Stamp × ContentWrite)}
    (hcalls : ∀ call ∈ calls, call.2.NulFree) :
    (∃ row, (s'.afterWrites m.messageId calls).messages.find? m.messageId = some row ∧
        (row.content = wholeText q.content (received q.status (calls.map Prod.snd)) ∨
          StatesDropped row.content)) ↔
      Fits q.content (received q.status (calls.map Prod.snd)) := by
  obtain ⟨hfind, hstatus, hcontent⟩ := createMessage_stored h hnew
  rw [find?_afterWrites, hfind, Option.map_some]
  simp only [Option.some.injEq, exists_eq_left']
  by_cases hst : q.status = .streaming
  · rw [content_after (hstatus.trans hst) hcalls, received, if_pos hst, wholeText, Fits]
    cases replacement (calls.map Prod.snd) with
    | some t => rw [Option.getD_some, capContent_eq_self]
    | none =>
        cases acceptedDeltas (calls.map Prod.snd) with
        | nil =>
            rw [hcontent, Option.getD_none, String.join_nil, String.append_empty]
            exact text_honest hnul
        | cons delta deltas =>
            dsimp only
            rw [hcontent, capContent_text hnul, Option.getD_none, capContent_kept]
  · rw [rowAfter_of_ended (hstatus.symm ▸ hst), received, if_neg hst, hcontent]
    simpa [wholeText, replacement, acceptedDeltas, Fits] using text_honest hnul

end

/-! ### An answer that is streamed -/

/-- The answer to a run, still empty. -/
def draft : Store.MessageRequest :=
  { sessionId := 0, role := .assistant, kind := .analysisAnswer, status := .streaming,
    content := "", runId := some 1, clientMsgId := none, errorDetail := none }

theorem draft_made : ∃ m s', sampleStore.createMessage 3 draft = .ok (some m, s') ∧
    sampleStore.messages.find? m.messageId = none := ⟨_, _, rfl, rfl⟩

/-- One delta, then the end of the stream. -/
def shortAnswer : List (Stamp × ContentWrite) :=
  [(4, .append "BUY above 100"), (5, .finalize .complete none none)]

theorem truncation_stated_shortAnswer :
    ∃ m s', sampleStore.createMessage 3 draft = .ok (some m, s') ∧
      ((∃ row, (s'.afterWrites m.messageId shortAnswer).messages.find? m.messageId = some row ∧
          (row.content = wholeText draft.content (received draft.status (shortAnswer.map Prod.snd)) ∨
            StatesDropped row.content)) ↔
        Fits draft.content (received draft.status (shortAnswer.map Prod.snd))) := by
  obtain ⟨m, s', hmade, hnew⟩ := draft_made
  refine ⟨m, s', hmade, truncation_stated_iff hmade hnew (by decide) ?_⟩
  simp only [shortAnswer, List.forall_mem_cons, List.not_mem_nil, false_implies, implies_true,
    and_true, ContentWrite.NulFree]
  refine ⟨by decide, ?_⟩
  rintro _ ⟨⟩

/-- One character more than the cap. -/
def longDelta : String := String.ofList (List.replicate (maxContentChars + 1) 'a')

/-- The delta is cut, and the stored text neither is the whole nor says so. -/
theorem longDelta_cut_silently :
    ∃ m s' row, sampleStore.createMessage 3 draft = .ok (some m, s') ∧
      (s'.afterWrites m.messageId [(4, .append longDelta)]).messages.find? m.messageId = some row ∧
        row.content ≠ wholeText "" [.append longDelta] ∧ ¬ StatesDropped row.content := by
  have hnul : '\x00' ∉ longDelta.toList := by
    rw [longDelta, String.toList_ofList]
    exact fun h => absurd (List.eq_of_mem_replicate h) (by decide)
  have hcut : Store.capContent longDelta =
      String.ofList (List.replicate maxContentChars 'a') := by
    rw [Store.capContent, longDelta, String.toList_ofList, List.take_replicate]
    rfl
  obtain ⟨m, s', hmade, hnew⟩ := draft_made
  obtain ⟨hfind, hstatus, hempty⟩ := Store.createMessage_stored hmade hnew
  have hcalls : ∀ call ∈ [((4 : Stamp), ContentWrite.append longDelta)], call.2.NulFree :=
    List.forall_mem_singleton.mpr hnul
  have hcontent := content_after hstatus hcalls
  have hstored : (Store.rowAfter m [(4, .append longDelta)]).content =
      String.ofList (List.replicate maxContentChars 'a') := by
    have hnothing : m.content = "" := hempty.trans rfl
    refine hcontent.trans ?_
    show Store.capContent (m.content ++ String.join [longDelta]) = _
    rw [hnothing, String.empty_append, String.join_cons, String.join_nil, String.append_empty, hcut]
  refine ⟨m, s', _, hmade, by rw [Store.find?_afterWrites, hfind]; rfl, ?_, ?_⟩
  · have hwhole : wholeText "" [.append longDelta] = longDelta := by
      simp [wholeText, replacement, acceptedDeltas]
    rw [hstored, hwhole, ← hcut, ne_eq, capContent_eq_self, longDelta, String.length_ofList,
      List.length_replicate]
    exact Nat.not_succ_le_self _
  · rw [hstored]
    rintro ⟨n, hnote⟩
    rw [String.toList_ofList] at hnote
    have hbracket : ']' ∈ (droppedNote n).toList := by simp [droppedNote]
    exact absurd (List.eq_of_mem_replicate (hnote.subset hbracket)) (by decide)

end AiTrader.Session
