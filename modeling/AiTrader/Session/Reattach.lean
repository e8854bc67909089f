import AiTrader.Session.Persist
import AiTrader.Session.Transcript

/-! # Reattaching to a live run

One analysis run: every frame goes to the persister, which holds it back until a batch is due,
and is then published to the attached client.  A client attaches through
`/stream/{thread_id}` with the number of frames it has received: it subscribes, and is given a
replay of the stored frames after that number before anything its queue receives.

* `Recorded`: the stored frames followed by the buffered ones are the frames emitted so far.
* `delivered_eq`: what a client is given, in terms of what was stored when it attached.
* `reattach_iff`: it is given exactly the frames it has not received if and only if it had
  received all of them, or none was buffered and the missing ones fit one page. -/

namespace AiTrader.Session

/-- A frame as the generator builds it: an event name and a JSON object. -/
abbrev LiveFrame := String × Kwargs

/-- The frame as the persister takes it. -/
def LiveFrame.stored (f : LiveFrame) : StoredFrame := (f.1, .dict f.2)

/-- The run, its store, and what the attached client has been given, if one is attached. -/
structure Hub where
  persister : Persister
  store : Store
  client : Option (List String)

section
variable (dumps : PyVal → String)

/-- `format_sse` of a JSON object. -/
def formatSse (f : StoredFrame) : String := "event: " ++ f.1 ++ "\ndata: " ++ dumps f.2 ++ "\n\n"

namespace Hub

/-- `_publish_frame`: the frame goes into the queue of the attached client. -/
def publish (h : Hub) (frame : String) : Hub :=
  { h with client := h.client.map fun given => given ++ [frame] }

/-- One frame of the generator: persisted, then published. -/
def emit (h : Hub) (e : Io × LiveFrame) : Hub :=
  let recorded := h.persister.add e.1 e.2.1 (.dict e.2.2) h.store
  publish { h with persister := recorded.1, store := recorded.2 } (formatSse dumps e.2.stored)

/-- The frames of the generator, one after the other. -/
def emitAll (h : Hub) (es : List (Io × LiveFrame)) : Hub := es.foldl (emit dumps) h

/-- `_replay_frames`, of the run that is recorded. -/
def replayFrames (h : Hub) (afterSeq : ℕ) : List String :=
  match h.persister.active with
  | none => []
  | some rid =>
      if afterSeq = 0 then []
      else (h.store.listRunEvents rid afterSeq Store.defaultPage).1.map
        fun item => formatSse dumps item.2

/-- `stream_thread`: subscribe and replay, before the generator goes on. -/
def attach (h : Hub) (afterSeq : ℕ) : Hub :=
  { h with client := some (h.replayFrames dumps afterSeq) }

end Hub

end

section
variable {dumps : PyVal → String} {rid : Id} {io : Io} {h : Hub} {s : Store} {p : Persister}
  {frames stored : List StoredFrame}

/-- The persister's calls on the frame go through: no store call fails, and the event is named. -/
def Accepted (e : Io × LiveFrame) : Prop :=
  (∀ c, e.1.fails c = false) ∧ (text e.2.1).isSome = true

/-! ### What is stored and what is held back -/

/-- The stored frames followed by the buffered ones are `frames`. -/
structure Recorded (rid : Id) (frames : List StoredFrame) (p : Persister) (s : Store) : Prop where
  active : p.active = some rid
  kind : p.kind ≠ .qa
  named : p.buffer.any (fun f => (text f.1).isNone) = false
  tiles : ∃ stored, s.Transcript rid stored ∧ stored ++ p.buffer = frames

theorem writeBatch_transcript (hio : ∀ c, io.fails c = false) (hs : s.Transcript rid stored)
    (hnamed : frames.any (fun f => (text f.1).isNone) = false) (prose : String)
    (mid : Option Id) :
    (Persister.writeBatch io rid frames prose mid s).2.Transcript rid (stored ++ frames) := by
  have hfirst : ∃ n s₁, (if frames.isEmpty then some (0, s)
      else io.call .appendRunEvents (s.appendRunEvents io.now rid frames)) = some (n, s₁) ∧
      s₁.Transcript rid (stored ++ frames) := by
    by_cases hempty : frames = []
    · subst hempty
      exact ⟨0, s, rfl, by rw [List.append_nil]; exact hs⟩
    · obtain ⟨n, s₁, hok, hs₁⟩ : ∃ n s₁, s.appendRunEvents io.now rid frames = .ok (n, s₁) ∧
          s₁.Transcript rid (stored ++ frames) := hs.append hempty hnamed
      rw [if_neg (by simpa using hempty)]
      exact ⟨n, s₁, Io.call_of_ok (hio _) hok, hs₁⟩
  obtain ⟨n, s₁, hcall, hs₁⟩ := hfirst
  unfold Persister.writeBatch
  rw [hcall]
  cases mid with
  | none => exact hs₁
  | some mid =>
      dsimp only
      split
      · exact hs₁
      · split
        · exact hs₁
        · rename_i hdelta
          obtain ⟨hruns, hevents⟩ := Store.appendMessageDelta_runs (Io.call_eq_some hdelta)
          exact hs₁.congr hruns hevents

theorem Recorded.flush (hr : Recorded rid frames p s) (hio : ∀ c, io.fails c = false) :
    Recorded rid frames (p.flush io s).1 (p.flush io s).2 ∧ (p.flush io s).1.buffer = [] := by
  have hsame := Persister.flush_sameLeg io p s
  have hactive := hsame.active.trans hr.active
  have hkind : (p.flush io s).1.kind ≠ .qa := fun hq => hr.kind (hsame.kind.symm.trans hq)
  obtain ⟨stored, hs, htiles⟩ := hr.tiles
  have hbuffer : (p.flush io s).1.buffer = [] ∧
      (p.flush io s).2.Transcript rid (stored ++ p.buffer) := by
    unfold Persister.flush
    rw [hr.active]
    dsimp only
    by_cases hempty : (p.buffer.isEmpty && p.pendingText.isEmpty) = true
    · rw [if_pos hempty]
      have hnil : p.buffer = [] := List.isEmpty_iff.mp ((Bool.and_eq_true _ _).mp hempty).1
      exact ⟨hnil, by rw [hnil, List.append_nil]; exact hs⟩
    · rw [if_neg hempty]
      refine ⟨?_, writeBatch_transcript hio hs hr.named _ _⟩
      dsimp only
      split <;> rfl
  refine ⟨⟨hactive, hkind, by rw [hbuffer.1]; rfl, stored ++ p.buffer, hbuffer.2, ?_⟩, hbuffer.1⟩
  rw [hbuffer.1, List.append_nil, htiles]

/-- A frame that is added is stored or buffered after all the others. -/
theorem Recorded.add {e : Io × LiveFrame} (hr : Recorded rid frames p s) (he : Accepted e) :
    Recorded rid (frames ++ [e.2.stored]) (p.add e.1 e.2.1 (.dict e.2.2) s).1
      (p.add e.1 e.2.1 (.dict e.2.2) s).2 := by
  have hheld : Recorded rid (frames ++ [e.2.stored]) (p.hold e.2.1 (.dict e.2.2)) s := by
    obtain ⟨stored, hs, htiles⟩ := hr.tiles
    have hbuffer : (p.hold e.2.1 (.dict e.2.2)).buffer = p.buffer ++ [e.2.stored] := by
      simp [Persister.hold, hr.kind, LiveFrame.stored]
    have hname : (text e.2.1).isNone = false := by simpa using he.2
    refine ⟨hr.active, hr.kind, ?_, stored, hs, ?_⟩
    · rw [hbuffer, List.any_append, hr.named]
      simp [LiveFrame.stored, hname]
    · rw [hbuffer, ← List.append_assoc, htiles]
  unfold Persister.add
  rw [hr.active]
  dsimp only
  split
  · exact (hheld.flush he.1).1
  · exact hheld

/-- **Run.** The run of the generator, as the store and the persister record it. -/
theorem Recorded.emitAll {es : List (Io × LiveFrame)}
    (hr : Recorded rid frames h.persister h.store) (hes : ∀ e ∈ es, Accepted e) :
    Recorded rid (frames ++ es.map fun e => e.2.stored) (h.emitAll dumps es).persister
      (h.emitAll dumps es).store := by
  induction es generalizing h frames with
  | nil => simpa [Hub.emitAll] using hr
  | cons e es ih =>
      have hone : Recorded rid (frames ++ [e.2.stored]) (h.emit dumps e).persister
          (h.emit dumps e).store := hr.add (hes e List.mem_cons_self)
      have hall := ih hone fun x hx => hes x (List.mem_cons_of_mem _ hx)
      rw [List.append_assoc] at hall
      exact hall

/-! ### What the client is given -/

theorem client_emitAll (h : Hub) (es : List (Io × LiveFrame)) :
    (h.emitAll dumps es).client =
      h.client.map fun given => given ++ es.map fun e => formatSse dumps e.2.stored := by
  induction es generalizing h with
  | nil => simp [Hub.emitAll]
  | cons e es ih =>
      have hone : (h.emit dumps e).client =
          h.client.map fun given => given ++ [formatSse dumps e.2.stored] := rfl
      show ((h.emit dumps e).emitAll dumps es).client = _
      rw [ih, hone, Option.map_map]
      simp [Function.comp_def]

theorem replay_stored (f : LiveFrame) : (f.1, Store.orEmpty f.stored.2) = f.stored := by
  unfold LiveFrame.stored Store.orEmpty
  cases f.2 with
  | nil => rfl
  | cons kv kvs => rfl

/-- What a client is given over an attachment: at most a page of the frames that were stored
when it attached, and the frames emitted since. -/
theorem delivered_eq (dumps : PyVal → String) {before : List (Io × LiveFrame)}
    (after : List (Io × LiveFrame)) {n : ℕ}
    (hr : Recorded rid [] h.persister h.store) (hes : ∀ e ∈ before, Accepted e) (hn : 1 ≤ n) :
    ∃ count, count + (h.emitAll dumps before).persister.buffer.length = before.length ∧
      (((h.emitAll dumps before).attach dumps n).emitAll dumps after).client =
        some ((((before.map fun e => formatSse dumps e.2.stored).take count).drop n).take 1000 ++
          after.map fun e => formatSse dumps e.2.stored) := by
  have hrec : Recorded rid (before.map fun e => e.2.stored) (h.emitAll dumps before).persister
      (h.emitAll dumps before).store := hr.emitAll hes
  obtain ⟨stored, hs, htiles⟩ := hrec.tiles
  have hlen := congrArg List.length htiles
  rw [List.length_append, List.length_map] at hlen
  refine ⟨stored.length, hlen, ?_⟩
  have hstored : stored = (before.take stored.length).map fun e => e.2.stored := by
    rw [List.map_take, ← htiles, List.take_left']
    rfl
  have hreplay : (h.emitAll dumps before).replayFrames dumps n =
      (((before.map fun e => formatSse dumps e.2.stored).take stored.length).drop n).take 1000 := by
    have hpage := Store.listRunEvents_of_transcript hs n Store.defaultPage
    unfold Hub.replayFrames
    rw [hrec.active]
    dsimp only
    rw [if_neg (by omega)]
    have hcomp : ((h.emitAll dumps before).store.listRunEvents rid n Store.defaultPage).1.map
        (fun item => formatSse dumps item.2) =
        (((h.emitAll dumps before).store.listRunEvents rid n Store.defaultPage).1.map
          Prod.snd).map (formatSse dumps) := by
      rw [List.map_map]
      rfl
    rw [hcomp, hpage]
    generalize stored.length = k at hstored ⊢
    rw [hstored]
    simp only [← List.map_drop, ← List.map_take, List.map_map]
    rw [show max 1 (min Store.defaultPage 5000) = 1000 from rfl]
    refine List.map_congr_left fun e _ => ?_
    exact congrArg (formatSse dumps) (replay_stored e.2)
  rw [client_emitAll, Hub.attach, hreplay]
  rfl

/-- **Reattachment.** A client that has received the first `n` of the frames emitted so far is
given exactly the others, those still to come included, if and only if it had received all of
them, or no frame was held back when it attached and the missing ones fit one page. -/
theorem reattach_iff {before after : List (Io × LiveFrame)} {n : ℕ}
    (hr : Recorded rid [] h.persister h.store) (hes : ∀ e ∈ before ++ after, Accepted e)
    (hn : 1 ≤ n) (hle : n ≤ before.length) :
    (((h.emitAll dumps before).attach dumps n).emitAll dumps after).client =
        some (((before ++ after).drop n).map fun e => formatSse dumps e.2.stored) ↔
      n = before.length ∨
        ((h.emitAll dumps before).persister.buffer = [] ∧ before.length ≤ n + 1000) := by
  obtain ⟨count, hcount, hclient⟩ :=
    delivered_eq dumps after hr (fun e he => hes e (List.mem_append_left _ he)) hn
  rw [hclient, Option.some.injEq, List.drop_append_of_le_length hle, List.map_append,
    List.append_left_inj]
  constructor
  · intro heq
    -- as many frames are replayed as are missing
    have hlen := congrArg List.length heq
    simp only [List.length_take, List.length_drop, List.length_map] at hlen
    by_cases hall : n = before.length
    · exact .inl hall
    · right
      refine ⟨List.eq_nil_of_length_eq_zero ?_, ?_⟩ <;> omega
  · rintro (hall | ⟨hbuffer, hpage⟩)
    · rw [List.drop_of_length_le (by simp; omega), List.drop_of_length_le (by omega)]
      rfl
    · rw [hbuffer, List.length_nil, Nat.add_zero] at hcount
      rw [List.take_of_length_le (by simp; omega), List.take_of_length_le (by simp; omega),
        List.map_drop]

end

/-! ### A client of run `1` -/

/-- Run `1` of `sampleStore`, about to be streamed. -/
def sampleHub : Hub where
  persister := .init ⟨0, 2, fun _ => false⟩ (some 1) (some 0) .run true
  store := sampleStore
  client := none

/-- A frame, with the only key that all frames carry, emitted at the clock reading `t`. -/
def sampleFrame (t : Stamp) (event : String) : Io × LiveFrame :=
  (⟨t, 2, fun _ => false⟩, event, [("thread_id", .str "t-1")])

/-- `json.dumps` of that payload. -/
def sampleDumps : PyVal → String := fun _ => "\x7b\"thread_id\": \"t-1\"\x7d"

theorem sampleHub_recorded : Recorded 1 [] sampleHub.persister sampleHub.store :=
  ⟨rfl, by decide, rfl, [], sampleStore_transcript, rfl⟩

/-- A run that fails at once. -/
def failedRun : List (Io × LiveFrame) := [sampleFrame 0 "RUN_STARTED", sampleFrame 0 "ERROR"]

/-- A terminal frame flushes the batch, so the replay is whole. -/
theorem reattach_after_error :
    (((sampleHub.emitAll sampleDumps failedRun).attach sampleDumps 1).emitAll sampleDumps
        []).client =
        some (((failedRun ++ []).drop 1).map fun e : Io × LiveFrame =>
          formatSse sampleDumps e.2.stored) ↔
      1 = failedRun.length ∨
        ((sampleHub.emitAll sampleDumps failedRun).persister.buffer = [] ∧
          failedRun.length ≤ 1 + 1000) := by
  refine reattach_iff sampleHub_recorded ?_ le_rfl (by decide)
  intro e he
  simp only [failedRun, List.append_nil, List.mem_cons, List.not_mem_nil, or_false] at he
  rcases he with rfl | rfl
  · exact ⟨fun _ => rfl, by decide +kernel⟩
  · exact ⟨fun _ => rfl, by decide +kernel⟩

/-- Two frames within one batch, and a third. -/
def twoFrames : List (Io × LiveFrame) := [sampleFrame 0 "RUN_STARTED", sampleFrame 0 "REASONING"]

def lastFrame : List (Io × LiveFrame) := [sampleFrame 0 "RUN_FINISHED"]

/-- A client that attaches while a frame is held back never gets it: having received the first of
two frames it is given the third one only. -/
theorem buffered_frame_skipped :
    (((sampleHub.emitAll sampleDumps twoFrames).attach sampleDumps 1).emitAll sampleDumps
        lastFrame).client = some (lastFrame.map fun e => formatSse sampleDumps e.2.stored) ∧
      (((sampleHub.emitAll sampleDumps twoFrames).attach sampleDumps 1).emitAll sampleDumps
        lastFrame).client ≠ some (((twoFrames ++ lastFrame).drop 1).map fun e : Io × LiveFrame =>
          formatSse sampleDumps e.2.stored) := by
  constructor
  · decide +kernel
  · decide +kernel

end AiTrader.Session
