import AiTrader.Telemetry.Counting
import Mathlib.Algebra.Order.BigOperators.Group.List
import Mathlib.Tactic.Linarith

/-! # Session telemetry: the suspended time

`finalize_session` pairs the first watch registration of a session with its first resume, the second
with the second and so on.  A resume ends the last registration before it.  The two are the same
where every resume has one registration of its own before it.

* `Suspending`: what a session knows of its registrations and its resumes, leg by leg.
* `suspended_of_paired`: in such a session `suspended_s` is the time spent waiting.
* `suspended_rearmed`: with two registrations before one resume it is not. -/

namespace AiTrader.Telemetry

/-! ### Registrations and resumes -/

/-- What tells of a wait: a watch is registered, or the session is resumed. -/
inductive Mark where
  | watch (ts : ℚ)
  | resume (ts : ℚ)
deriving DecidableEq, Repr

def Mark.time : Mark → ℚ
  | watch ts => ts
  | resume ts => ts

def Mark.watch? : Mark → Option ℚ
  | watch ts => some ts
  | resume _ => none

def Mark.resume? : Mark → Option ℚ
  | watch _ => none
  | resume ts => some ts

/-- The mark of an event, if it has a time. -/
def FunnelEvent.mark (event : FunnelEvent) : Option Mark :=
  match event.kind with
  | .watchRegistered => event.ts.map .watch
  | .resumed => event.ts.map .resume
  | _ => none

def watches (ms : List Mark) : List ℚ := ms.filterMap Mark.watch?

def resumes (ms : List Mark) : List ℚ := ms.filterMap Mark.resume?

/-- The waits, each from the last registration to a resume. -/
def waits : Option ℚ → List Mark → List ℚ
  | _, [] => []
  | _, .watch ts :: ms => waits (some ts) ms
  | none, .resume _ :: ms => waits none ms
  | some start, .resume ts :: ms => (ts - start) :: waits (some start) ms

/-- The time spent waiting. -/
def waited (ms : List Mark) : Option ℚ :=
  if waits none ms = [] then none else some (waits none ms).sum

/-- Every resume has one registration of its own before it, and as many registrations stand before
it as resumes and one; or none does, and the one of its number is later. -/
def Paired (ms : List Mark) : Prop :=
  ∀ pre ts post, ms = pre ++ .resume ts :: post →
    (watches pre).length = (resumes pre).length + 1 ∨
      watches pre = [] ∧ ∀ start, (watches ms)[(resumes pre).length]? = some start → ts < start

section
variable (R : Runtime)

def sessionMarks (session : List Leg) : List Mark :=
  (session.flatMap (Leg.fragment R)).filterMap FunnelEvent.mark

/-- The time a session starts and the times of its events, in order of arrival. -/
def sessionTimes (session : List Leg) : List ℚ :=
  (session.head?.map Leg.startTs).toList ++ session.flatMap fun leg => (leg.readings R).map Prod.snd

end

/-! ### Pairing by position -/

/-- The intervals of `finalize_session`. -/
def intervals (starts resumes : List ℚ) : List ℚ :=
  ((starts.zip resumes).map fun p => p.2 - p.1).filter fun interval => 0 ≤ interval

section
variable {ms pre rest : List Mark} {ts : ℚ}

@[simp] theorem watches_append (ms ms' : List Mark) :
    watches (ms ++ ms') = watches ms ++ watches ms' :=
  List.filterMap_append

@[simp] theorem resumes_append (ms ms' : List Mark) :
    resumes (ms ++ ms') = resumes ms ++ resumes ms' :=
  List.filterMap_append

@[simp] theorem watches_nil : watches [] = [] := rfl
@[simp] theorem resumes_nil : resumes [] = [] := rfl

@[simp] theorem watches_watch (ts : ℚ) (ms : List Mark) :
    watches (.watch ts :: ms) = ts :: watches ms := rfl

@[simp] theorem watches_resume (ts : ℚ) (ms : List Mark) :
    watches (.resume ts :: ms) = watches ms := rfl

@[simp] theorem resumes_watch (ts : ℚ) (ms : List Mark) :
    resumes (.watch ts :: ms) = resumes ms := rfl

@[simp] theorem resumes_resume (ts : ℚ) (ms : List Mark) :
    resumes (.resume ts :: ms) = ts :: resumes ms := rfl

theorem time_mem_of_mem_watches {start : ℚ} (h : start ∈ watches ms) :
    start ∈ ms.map Mark.time := by
  obtain ⟨m, hm, hstart⟩ := List.mem_filterMap.mp h
  refine List.mem_map.mpr ⟨m, hm, ?_⟩
  cases m with
  | watch ts => exact Option.some.inj hstart
  | resume ts => cases hstart

theorem intervals_cons {start : ℚ} (h : start ≤ ts) (ss rs : List ℚ) :
    intervals (start :: ss) (ts :: rs) = (ts - start) :: intervals ss rs := by
  simp [intervals, h]

theorem intervals_cons_later {start : ℚ} (h : ts < start) (ss rs : List ℚ) :
    intervals (start :: ss) (ts :: rs) = intervals ss rs := by
  simp [intervals, h]

/-- A registration after the resume it is paired with drops out. -/
theorem intervals_drop_later {ss : List ℚ} {k : ℕ} (h : ∀ start, ss[k]? = some start → ts < start)
    (rs : List ℚ) : intervals (ss.drop k) (ts :: rs) = intervals (ss.drop (k + 1)) rs := by
  by_cases hk : k < ss.length
  · rw [List.drop_eq_getElem_cons hk]
    exact intervals_cons_later (h ss[k] (List.getElem?_eq_getElem hk)) _ rs
  · have hend := not_lt.mp hk
    rw [List.drop_eq_nil_of_le hend, List.drop_eq_nil_of_le (hend.trans (Nat.le_succ k))]
    rfl

theorem exists_last_watch {k : ℕ} (h : (watches pre).length = k + 1) :
    ∃ starts start, watches pre = starts ++ [start] ∧ starts.length = k := by
  have hne : watches pre ≠ [] := List.ne_nil_of_length_eq_add_one h
  refine ⟨_, _, (List.dropLast_append_getLast hne).symm, ?_⟩
  rw [List.length_dropLast, h, Nat.add_sub_cancel]

theorem times_around (hordered : (ms.map Mark.time).Pairwise (· ≤ ·)) {m : Mark}
    (hms : ms = pre ++ m :: rest) :
    (∀ start ∈ watches pre, start ≤ m.time) ∧ ∀ m' ∈ rest, m.time ≤ m'.time := by
  rw [hms, List.map_append, List.map_cons] at hordered
  obtain ⟨-, hpost, hacross⟩ := List.pairwise_append.mp hordered
  constructor
  · intro start hstart
    exact hacross start (time_mem_of_mem_watches hstart) m.time List.mem_cons_self
  · intro m' hm'
    exact (List.pairwise_cons.mp hpost).1 _ (List.mem_map_of_mem hm')

/-- The intervals of the marks to come, `rest`, are the waits. -/
theorem intervals_eq_waits (hpaired : Paired ms) (hordered : (ms.map Mark.time).Pairwise (· ≤ ·))
    (hms : ms = pre ++ rest) :
    intervals ((watches ms).drop (resumes pre).length) (resumes rest) =
      waits (watches pre).getLast? rest := by
  induction rest generalizing pre with
  | nil => simp [intervals, waits]
  | cons m rest ih =>
      have hrest := ih (show ms = (pre ++ [m]) ++ rest by simp [hms])
      cases m with
      | watch ts => simpa [waits] using hrest
      | resume ts =>
          simp only [watches_append, resumes_append, watches_resume, resumes_resume, watches_nil,
            resumes_nil, List.append_nil, List.length_append, List.length_singleton] at hrest
          rw [resumes_resume]
          rcases hpaired pre ts rest hms with hlength | ⟨hnone, hlater⟩
          · -- the registration paired with the resume is the last one before it
            obtain ⟨starts, start, hstarts, hk⟩ := exists_last_watch hlength
            have hdrop : (watches ms).drop (resumes pre).length = start :: watches rest := by
              rw [hms, watches_append, watches_resume, hstarts, ← hk, List.append_assoc,
                List.drop_left, List.singleton_append]
            have hle : start ≤ ts :=
              (times_around hordered hms).1 start (hstarts ▸ List.mem_concat_self)
            rw [← List.tail_drop, hdrop, List.tail_cons, hstarts, List.getLast?_concat] at hrest
            rw [hdrop, intervals_cons hle, hrest, hstarts, List.getLast?_concat, waits]
          · rw [intervals_drop_later hlater, hrest, hnone]
            rfl

/-- The waits do not overlap: from `floor` on they fit between it and the last resume. -/
theorem sum_waits_le (hpaired : Paired ms) (hordered : (ms.map Mark.time).Pairwise (· ≤ ·))
    (hms : ms = pre ++ rest) {floor ceiling : ℚ} (hfloor : ∀ m ∈ rest, floor ≤ m.time)
    (hfresh : (watches pre).length = (resumes pre).length + 1 →
      ∀ start ∈ (watches pre).getLast?, floor ≤ start)
    (hceiling : ∀ ts ∈ resumes rest, ts ≤ ceiling) (hle : floor ≤ ceiling) :
    (waits (watches pre).getLast? rest).sum ≤ ceiling - floor := by
  induction rest generalizing pre floor with
  | nil => simpa [waits] using hle
  | cons m rest ih =>
      have hms' : ms = pre ++ [m] ++ rest := by simp [hms]
      have htail : ∀ m' ∈ rest, floor ≤ m'.time := fun m' hm' =>
        hfloor m' (List.mem_cons_of_mem m hm')
      cases m with
      | watch ts =>
          have := ih hms' htail (fun _ start hstart => ?_) hceiling hle
          · simpa [waits] using this
          · obtain rfl : ts = start := by simpa using hstart
            exact hfloor (.watch ts) List.mem_cons_self
      | resume ts =>
          have hresumes : ∀ ts' ∈ resumes rest, ts' ≤ ceiling := fun ts' hts' =>
            hceiling ts' (List.mem_cons_of_mem ts hts')
          have hwatches : watches (pre ++ [.resume ts]) = watches pre := by simp
          rcases hpaired pre ts rest hms with hlength | ⟨hnone, -⟩
          · obtain ⟨starts, start, hstarts, -⟩ := exists_last_watch hlength
            have hlast : (watches pre).getLast? = some start := by
              rw [hstarts, List.getLast?_concat]
            -- the registration is used up, so that what comes later fits behind the resume
            have hused : (watches (pre ++ [.resume ts])).length ≠
                (resumes (pre ++ [.resume ts])).length + 1 := by
              rw [hwatches, resumes_append, List.length_append]
              simp only [resumes_resume, List.length_cons]
              omega
            have hlater : ∀ m' ∈ rest, ts ≤ m'.time := (times_around hordered hms).2
            have hrest := ih hms' hlater (fun h => absurd h hused) hresumes
              (hceiling ts List.mem_cons_self)
            have hstart := hfresh hlength start hlast
            rw [hwatches, hlast] at hrest
            rw [hlast, waits, List.sum_cons]
            linarith
          · have hrest := ih hms' htail (fun _ start hstart => by
              rw [hwatches, hnone] at hstart
              cases hstart) hresumes hle
            rw [hwatches, hnone] at hrest
            rw [hnone]
            exact hrest

theorem waits_nonneg (hordered : (ms.map Mark.time).Pairwise (· ≤ ·)) {last : Option ℚ}
    (hlast : ∀ start ∈ last, ∀ m ∈ ms, start ≤ m.time) : ∀ wait ∈ waits last ms, 0 ≤ wait := by
  induction ms generalizing last with
  | nil => simp [waits]
  | cons m ms ih =>
      rw [List.map_cons, List.pairwise_cons] at hordered
      cases m with
      | watch ts =>
          refine ih hordered.2 fun start hstart m hm => ?_
          obtain rfl : ts = start := by simpa using hstart
          exact hordered.1 _ (List.mem_map_of_mem hm)
      | resume ts =>
          cases last with
          | none => exact ih hordered.2 (by simp)
          | some start =>
              intro wait hwait
              rw [waits] at hwait
              rcases List.mem_cons.mp hwait with rfl | hwait
              · exact sub_nonneg.mpr (hlast start rfl (.resume ts) List.mem_cons_self)
              · refine ih hordered.2 (fun start' hstart m hm => ?_) wait hwait
                exact hlast start' hstart m (List.mem_cons_of_mem _ hm)

end

/-! ### Sessions -/

section
variable {R : Runtime} {threadId : String} {session legs : List Leg} {state state' : SessionState}
  {leg : Leg} {events : List Event} {rs : List (Event × ℚ)}

theorem foldEvent_waits (state : SessionState) (e : FunnelEvent) :
    (foldEvent state e).watchStarts = state.watchStarts ++ watches e.mark.toList ∧
      (foldEvent state e).startedAt = state.startedAt ∧
      (foldEvent state e).suspendedS = state.suspendedS ∧
      (foldEvent state e).endedAt = state.endedAt := by
  unfold foldEvent FunnelEvent.mark
  split <;> rename_i hkind
  · cases e.ts <;> simp [hkind]
  · simp [hkind]
  · simp [hkind]
  · split <;> cases e.ts <;> simp [hkind]
  · refine ⟨?_, rfl, rfl, rfl⟩
    split <;> simp_all

theorem foldFragment_waits (state : SessionState) (fragment : List FunnelEvent) :
    (foldFragment state fragment).watchStarts =
        state.watchStarts ++ watches (fragment.filterMap FunnelEvent.mark) ∧
      (foldFragment state fragment).startedAt = state.startedAt ∧
      (foldFragment state fragment).suspendedS = state.suspendedS ∧
      (foldFragment state fragment).endedAt = state.endedAt := by
  induction fragment using List.reverseRecOn with
  | nil => simp [foldFragment]
  | append_singleton fragment e ih =>
      obtain ⟨hstarts, hstarted, hsuspended, hended⟩ := ih
      obtain ⟨hstarts', hstarted', hsuspended', hended'⟩ := foldEvent_waits
        (foldFragment state fragment) e
      rw [foldFragment, List.foldl_append, List.foldl_cons, List.foldl_nil, ← foldFragment]
      refine ⟨?_, hstarted'.trans hstarted, hsuspended'.trans hsuspended, hended'.trans hended⟩
      rw [hstarts', hstarts, List.filterMap_append, watches_append, List.append_assoc]
      cases hmark : e.mark <;> simp [hmark]

theorem exists_reading (h : List.Forall₂ (Reads R) events rs) :
    ∀ event ∈ events, ∃ r ∈ rs, Reads R event r := by
  induction h with
  | nil => simp
  | cons hread _ ih =>
      intro event hevent
      rcases List.mem_cons.mp hevent with rfl | hevent
      · exact ⟨_, List.mem_cons_self, hread⟩
      · obtain ⟨r, hr, hreads⟩ := ih event hevent
        exact ⟨r, List.mem_cons_of_mem _ hr, hreads⟩

theorem terminalTs_reads (h : ∀ event ∈ events, ∃ r ∈ rs, Reads R event r)
    (hterminal : (terminalSignals R events).terminal = true) :
    ∃ r ∈ rs, (terminalSignals R events).terminalTs = some r.2 := by
  induction events using List.reverseRecOn with
  | nil => cases hterminal
  | append_singleton events event ih =>
      obtain ⟨r, hr, hread⟩ := h event List.mem_concat_self
      have hstamp : stampOf R event.2 = some r.2 := by
        rw [stampOf, hread.ts]
        rfl
      have hbefore := ih fun event hevent => h event (List.mem_append_left _ hevent)
      rw [terminalSignals, List.foldl_append, ← terminalSignals, List.foldl_cons, List.foldl_nil]
        at hterminal ⊢
      split at hterminal
      · rename_i hdecision
        rw [if_pos hdecision, hstamp]
        exact ⟨r, hr, rfl⟩
      · rename_i hdecision
        split at hterminal
        · rename_i herror
          rw [if_neg hdecision, if_pos herror, hstamp]
          exact ⟨r, hr, rfl⟩
        · rename_i herror
          rw [if_neg hdecision, if_neg herror]
          exact hbefore hterminal

theorem Leg.Folds.waits (h : leg.Folds R state state') :
    state'.watchStarts =
        state.watchStarts ++ watches ((leg.fragment R).filterMap FunnelEvent.mark) ∧
      state'.startedAt = state.startedAt ∧ state'.suspendedS = state.suspendedS ∧
      (leg.terminal R = false → state'.endedAt = state.endedAt) ∧
      (leg.terminal R = true → ∃ r ∈ leg.readings R, state'.endedAt = some r.2) := by
  obtain ⟨buf, hentry, hreads, hfold⟩ := h
  have hterminal : (terminalSignals R buf.events).terminal = leg.terminal R := terminal_reads hreads
  rw [foldEntry, interpretEvents_reads hreads, hentry] at hfold
  have hstate := (Except.ok.inj hfold).symm
  rw [foldFragment_renumber, ← Leg.fragment, hterminal] at hstate
  obtain ⟨hstarts, hstarted, hsuspended, hended⟩ := foldFragment_waits state (leg.fragment R)
  cases hleg : leg.terminal R with
  | false =>
      rw [hleg, if_neg (by simp)] at hstate
      rw [hstate]
      exact ⟨hstarts, hstarted, hsuspended, fun _ => hended, by simp⟩
  | true =>
      obtain ⟨r, hr, hts⟩ := terminalTs_reads (exists_reading hreads) (hterminal.trans hleg)
      rw [hleg, if_pos rfl] at hstate
      rw [hstate]
      refine ⟨hstarts, hstarted, hsuspended, by simp, fun _ => ⟨r, hr, ?_⟩⟩
      rw [closeSession, hts]
      rfl

/-- What a session knows of its waits. -/
structure Suspending (R : Runtime) (session : List Leg) (state : SessionState) : Prop where
  watchStarts : state.watchStarts = watches (sessionMarks R session)
  startedAt : session.head?.map Leg.startTs = some state.startedAt
  suspendedS : state.suspendedS = none
  running : session.getLast?.any (Leg.terminal R) = false → state.endedAt = none
  -- the session ends with an event of its last leg
  ended : ∀ ended, state.endedAt = some ended → ∃ leg r, session.getLast? = some leg ∧
    r ∈ leg.readings R ∧ r.2 = ended

theorem suspending_keptByLegs : KeptByLegs R threadId (Suspending R) where
  first leg state h := by
    obtain ⟨hstarts, hstarted, hsuspended, hrunning, hended⟩ := h.waits
    have hlast : ([leg] : List Leg).getLast?.any (Leg.terminal R) = leg.terminal R := rfl
    refine ⟨?_, by rw [hstarted]; rfl, hsuspended.trans rfl, fun hrun => ?_, fun ended hsome => ?_⟩
    · rw [hstarts, sessionMarks, List.flatMap_cons, List.flatMap_nil, List.append_nil]
      rfl
    · rw [hrunning (hlast ▸ hrun)]
      rfl
    · cases hleg : leg.terminal R with
      | false =>
          rw [hrunning hleg] at hsome
          cases hsome
      | true =>
          obtain ⟨r, hr, hts⟩ := hended hleg
          exact ⟨leg, r, rfl, hr, Option.some.inj (hts.symm.trans hsome)⟩
  next before leg state state' hbefore hstate h := by
    obtain ⟨hstarts, hstarted, hsuspended, hrunning, hended⟩ := h.waits
    have hlast : (before ++ [leg]).getLast? = some leg := List.getLast?_concat
    refine ⟨?_, ?_, hsuspended.trans hstate.suspendedS, fun hrun => ?_, fun ended hsome => ?_⟩
    · rw [hstarts, hstate.watchStarts, ← watches_append, sessionMarks, sessionMarks,
        List.flatMap_append, List.filterMap_append, List.flatMap_cons, List.flatMap_nil,
        List.append_nil]
    · rw [hstarted, ← hstate.startedAt]
      cases before with
      | nil => cases hstate.startedAt
      | cons first before => rfl
    · rw [hlast, Option.any_some] at hrun
      rw [hrunning hrun]
      exact hstate.running hbefore
    · cases hleg : leg.terminal R with
      | false =>
          rw [hrunning hleg, hstate.running hbefore] at hsome
          cases hsome
      | true =>
          obtain ⟨r, hr, hts⟩ := hended hleg
          exact ⟨leg, r, hlast, hr, Option.some.inj (hts.symm.trans hsome)⟩

/-! ### Times -/

/-- The events of a session are in order of arrival. -/
def InOrder (R : Runtime) (session : List Leg) : Prop := (sessionTimes R session).Pairwise (· ≤ ·)

theorem mark_time {e : FunnelEvent} {m : Mark} (h : e.mark = some m) : e.ts = some m.time := by
  unfold FunnelEvent.mark at h
  split at h
  · obtain ⟨ts, hts, rfl⟩ := Option.map_eq_some_iff.mp h
    exact hts
  · obtain ⟨ts, hts, rfl⟩ := Option.map_eq_some_iff.mp h
    exact hts
  · cases h

/-- The marks of one leg. -/
def Leg.marks (R : Runtime) (leg : Leg) : List Mark := (leg.fragment R).filterMap FunnelEvent.mark

theorem sessionMarks_eq (session : List Leg) :
    sessionMarks R session = session.flatMap (Leg.marks R) := by
  rw [sessionMarks, List.filterMap_flatMap]
  rfl

/-- The mark of a reading. -/
def readingMark (r : Event × ℚ) : Option Mark :=
  (funnelEvent r.1 (some r.2)).bind FunnelEvent.mark

theorem readingMark_time {r : Event × ℚ} {m : Mark} (h : readingMark r = some m) :
    m.time = r.2 ∧ m.resume? = none := by
  obtain ⟨e, he, hm⟩ := Option.bind_eq_some_iff.mp h
  have hkind := (funnelEvent_kind he).1
  have hts : e.ts = some r.2 := by
    unfold funnelEvent at he
    split_ifs at he <;> cases he <;> rfl
  refine ⟨Option.some.inj ((mark_time hm).symm.trans hts), ?_⟩
  unfold FunnelEvent.mark at hm
  split at hm
  · obtain ⟨ts, -, rfl⟩ := Option.map_eq_some_iff.mp hm
    rfl
  · exact absurd ‹_› hkind
  · cases hm

/-- The mark that a leg opens with. -/
def Leg.openingMark (R : Runtime) (leg : Leg) : Option Mark :=
  (openingMarker R leg.opening.entry ((leg.readings R).head?.map Prod.snd)).mark

theorem openingMark_time {m : Mark} (h : leg.openingMark R = some m) :
    (leg.readings R).head?.map Prod.snd = some m.time := by
  rw [← mark_time h, openingMarker]
  cases leg.opening.entry.kind <;> rfl

theorem marks_eq (leg : Leg) :
    leg.marks R = (leg.openingMark R).toList ++ (leg.readings R).filterMap readingMark := by
  rw [Leg.marks, Leg.fragment, List.filterMap_cons, List.filterMap_filterMap, Leg.openingMark]
  cases (openingMarker R leg.opening.entry ((leg.readings R).head?.map Prod.snd)).mark <;> rfl

/-- The first reading of a leg in order is its earliest. -/
theorem opening_le {m : Mark} (h : leg.openingMark R = some m)
    (hordered : ((leg.readings R).map Prod.snd).Pairwise (· ≤ ·)) :
    ∀ r ∈ leg.readings R, m.time ≤ r.2 := by
  have hhead := openingMark_time h
  cases hreadings : leg.readings R with
  | nil => simp
  | cons r rs =>
      rw [hreadings] at hhead hordered
      rw [← Option.some.inj hhead]
      intro r' hr'
      rcases List.mem_cons.mp hr' with rfl | hr'
      · exact le_rfl
      · exact (List.pairwise_cons.mp hordered).1 _ (List.mem_map_of_mem hr')

theorem exists_reading_of_mark {m : Mark} (h : m ∈ leg.marks R) :
    ∃ r ∈ leg.readings R, m.time = r.2 := by
  rw [marks_eq] at h
  rcases List.mem_append.mp h with h | h
  · have hhead := openingMark_time (Option.mem_toList.mp h)
    obtain ⟨r, hr, htime⟩ := Option.map_eq_some_iff.mp hhead
    exact ⟨r, List.mem_of_mem_head? hr, htime.symm⟩
  · obtain ⟨r, hr, hm⟩ := List.mem_filterMap.mp h
    exact ⟨r, hr, (readingMark_time hm).1⟩

theorem pairwise_marks (hordered : ((leg.readings R).map Prod.snd).Pairwise (· ≤ ·)) :
    ((leg.marks R).map Mark.time).Pairwise (· ≤ ·) := by
  have hrest : (((leg.readings R).filterMap readingMark).map Mark.time).Pairwise (· ≤ ·) := by
    rw [List.pairwise_map, List.pairwise_filterMap]
    refine (List.pairwise_map.mp hordered).imp fun {r r'} hle m hm m' hm' => ?_
    rw [(readingMark_time hm).1, (readingMark_time hm').1]
    exact hle
  rw [marks_eq]
  cases hopening : leg.openingMark R with
  | none => exact hrest
  | some m =>
      refine List.pairwise_cons.mpr ⟨fun t ht => ?_, hrest⟩
      obtain ⟨m', hm', rfl⟩ := List.mem_map.mp ht
      obtain ⟨r, hr, hrm⟩ := List.mem_filterMap.mp hm'
      rw [(readingMark_time hrm).1]
      exact opening_le hopening hordered r hr

theorem InOrder.pairwise_marks (h : InOrder R session) :
    ((sessionMarks R session).map Mark.time).Pairwise (· ≤ ·) := by
  have hreadings := (List.pairwise_append.mp h).2.1
  rw [List.pairwise_flatMap] at hreadings
  rw [sessionMarks_eq, List.map_flatMap, List.pairwise_flatMap]
  refine ⟨fun leg hleg => Telemetry.pairwise_marks (hreadings.1 leg hleg),
    hreadings.2.imp fun {leg leg'} hle t ht t' ht' => ?_⟩
  obtain ⟨m, hm, rfl⟩ := List.mem_map.mp ht
  obtain ⟨m', hm', rfl⟩ := List.mem_map.mp ht'
  obtain ⟨r, hr, hrm⟩ := exists_reading_of_mark hm
  obtain ⟨r', hr', hrm'⟩ := exists_reading_of_mark hm'
  rw [hrm, hrm']
  exact hle _ (List.mem_map_of_mem hr) _ (List.mem_map_of_mem hr')

theorem InOrder.startedAt_le (h : InOrder R session) {startedAt : ℚ}
    (hstart : session.head?.map Leg.startTs = some startedAt) :
    ∀ m ∈ sessionMarks R session, startedAt ≤ m.time := by
  intro m hm
  rw [sessionMarks_eq] at hm
  obtain ⟨leg, hleg, hm⟩ := List.mem_flatMap.mp hm
  obtain ⟨r, hr, hrm⟩ := exists_reading_of_mark hm
  rw [hrm]
  refine (List.pairwise_append.mp h).2.2 startedAt (by simp [hstart]) r.2 ?_
  exact List.mem_flatMap.mpr ⟨leg, hleg, List.mem_map_of_mem hr⟩

theorem InOrder.resume_le (h : InOrder R session) (hlast : session.getLast? = some leg)
    {r : Event × ℚ} (hr : r ∈ leg.readings R) :
    ∀ ts ∈ resumes (sessionMarks R session), ts ≤ r.2 := by
  obtain ⟨before, rfl⟩ := List.getLast?_eq_some_iff.mp hlast
  have hreadings := (List.pairwise_append.mp h).2.1
  rw [List.pairwise_flatMap] at hreadings
  intro ts hts
  obtain ⟨m, hm, hresume⟩ := List.mem_filterMap.mp hts
  have htime : m.time = ts := by
    cases m with
    | watch ts => cases hresume
    | resume ts => exact Option.some.inj hresume
  rw [sessionMarks_eq] at hm
  obtain ⟨leg', hleg', hmark⟩ := List.mem_flatMap.mp hm
  rw [← htime]
  rcases List.mem_append.mp hleg' with hbefore | hsame
  · obtain ⟨r', hr', hrm⟩ := exists_reading_of_mark hmark
    rw [hrm]
    exact (List.pairwise_append.mp hreadings.2).2.2 leg' hbefore leg List.mem_cons_self _
      (List.mem_map_of_mem hr') _ (List.mem_map_of_mem hr)
  · obtain rfl := List.mem_singleton.mp hsame
    rw [marks_eq] at hmark
    rcases List.mem_append.mp hmark with hopening | hreading
    · exact opening_le (Option.mem_toList.mp hopening)
        (hreadings.1 _ (List.mem_append_right _ List.mem_cons_self)) r hr
    · obtain ⟨r', -, hrm⟩ := List.mem_filterMap.mp hreading
      rw [(readingMark_time hrm).2] at hresume
      cases hresume

/-! ### The record -/

theorem resumeTs_eq (n : ℕ) (funnel : List FunnelEvent) :
    ((renumber n funnel).filter fun e => e.kind = .resumed).filterMap FunnelEvent.ts =
      resumes (funnel.filterMap FunnelEvent.mark) := by
  induction funnel generalizing n with
  | nil => rfl
  | cons e funnel ih =>
      rw [renumber, List.filterMap_cons]
      cases hkind : e.kind with
      | resumed =>
          cases hts : e.ts <;> simp [FunnelEvent.mark, hkind, hts, ih]
      | watchRegistered =>
          cases hts : e.ts <;> simp [FunnelEvent.mark, hkind, hts, ih]
      | _ => simp [FunnelEvent.mark, hkind, ih]

/-- A session whose resumes have a registration each has waited for what its record says. -/
theorem finalize_suspended (hstate : Suspending R session state)
    (htallied : Tallied state (session.flatMap (Leg.fragment R))) (hordered : InOrder R session)
    (hpaired : Paired (sessionMarks R session)) :
    (finalizeSession R state).suspendedS = waited (sessionMarks R session) := by
  have hmarks := hordered.pairwise_marks
  have hintervals : suspendIntervals state = waits none (sessionMarks R session) := by
    rw [suspendIntervals, htallied.numbered, resumeTs_eq, hstate.watchStarts]
    exact intervals_eq_waits hpaired hmarks (List.nil_append _).symm
  have hnonneg : 0 ≤ (waits none (sessionMarks R session)).sum :=
    List.sum_nonneg (waits_nonneg hmarks (by simp))
  have hfits : ∀ total, timeToDecision state = some total → 0 ≤ total →
      (waits none (sessionMarks R session)).sum ≤ total := by
    intro total htotal htotal₀
    obtain ⟨ended, hended, rfl⟩ := Option.map_eq_some_iff.mp htotal
    obtain ⟨leg, r, hlast, hr, rfl⟩ := hstate.ended ended hended
    exact sum_waits_le hpaired hmarks (List.nil_append _).symm
      (hordered.startedAt_le hstate.startedAt) (by simp) (hordered.resume_le hlast hr)
      (by linarith)
  show (rawSuspended state).map (boundSuspended (timeToDecision state)) = _
  rw [rawSuspended, hintervals, hstate.suspendedS, waited]
  by_cases hnone : waits none (sessionMarks R session) = []
  · rw [if_pos hnone, if_pos hnone]
    rfl
  · rw [if_neg hnone, if_neg hnone, Option.map_some]
    unfold boundSuspended
    rw [max_eq_left hnonneg]
    split
    · rename_i total htotal
      rw [if_neg fun h => absurd (hfits total htotal h.1) (not_le.mpr h.2)]
    · rfl

theorem KeptByLegs.and {I J : List Leg → SessionState → Prop} (hI : KeptByLegs R threadId I)
    (hJ : KeptByLegs R threadId J) :
    KeptByLegs R threadId fun session state => I session state ∧ J session state where
  first leg state h := ⟨hI.first leg state h, hJ.first leg state h⟩
  next before leg state state' hbefore hstate h :=
    ⟨hI.next before leg state state' hbefore hstate.1 h,
      hJ.next before leg state state' hbefore hstate.2 h⟩

end

/-- **Suspended time is time spent waiting** wherever every resume has a registration of its own.
In any interleaving of threads, the record after each leg has as `suspended_s` the sum of the waits
of its session, each from the last registration before a resume to that resume. -/
theorem suspended_of_paired (R : Runtime) (observations : List Observation) (threadId : String)
    (legs : List Leg)
    (hlegs : observations.filter (fun obs => decide (obs.threadId = threadId)) =
      legs.flatMap (Leg.observations threadId))
    (i : ℕ) (hi : i < legs.length) (hordered : InOrder R (sessionLegs R (legs.take (i + 1))))
    (hpaired : Paired (sessionMarks R (sessionLegs R (legs.take (i + 1))))) :
    ∃ record, ((saved R observations).filter fun record =>
        decide (record.threadId = threadId))[i]? = some record ∧
      record.suspendedS = waited (sessionMarks R (sessionLegs R (legs.take (i + 1)))) := by
  have hkept : KeptByLegs R threadId _ := suspending_keptByLegs.and tallied_keptByLegs
  obtain ⟨t, records, hrun, -, -, hstates⟩ := run_legs hkept legs
  obtain ⟨state, hrecord, hsuspending, htallied⟩ := hstates i hi
  refine ⟨finalizeSession R state, ?_, finalize_suspended hsuspending htallied hordered hpaired⟩
  rw [saved_thread hlegs, hrun]
  exact hrecord

/-- The marks before each resume, by its position. -/
theorem paired_iff {ms : List Mark} : Paired ms ↔
    ∀ i < ms.length, ∀ ts ∈ ms[i]?.bind Mark.resume?,
      (watches (ms.take i)).length = (resumes (ms.take i)).length + 1 ∨
        watches (ms.take i) = [] ∧
          ∀ start ∈ (watches ms)[(resumes (ms.take i)).length]?, ts < start := by
  constructor
  · intro h i hi ts hts
    obtain ⟨m, hm, hresume⟩ := Option.bind_eq_some_iff.mp hts
    refine h (ms.take i) ts (ms.drop (i + 1)) ?_
    cases m with
    | watch => cases hresume
    | resume ts' =>
        obtain rfl := Option.some.inj hresume
        obtain ⟨hlt, hget⟩ := List.getElem?_eq_some_iff.mp hm
        rw [← hget, ← List.drop_eq_getElem_cons hlt, List.take_append_drop]
  · rintro h pre ts post rfl
    have hpre := h pre.length (by simp) ts (by simp [Mark.resume?])
    rwa [List.take_left] at hpre

instance (ms : List Mark) : Decidable (Paired ms) := decidable_of_iff _ paired_iff.symm

def watchFrame (ts : ℚ) : Frame :=
  { eventName := some "TOOL_CALL_START", payload := some [("tool", .str watchToolName)], ts }

/-- A run that registers a watch, and two resumes; the first of them registers another watch. -/
def awaited : List Leg :=
  [{ opening := .run none none none, startTs := 0, endTs := 3, frames := [watchFrame 2] },
    { opening := .resume .target, startTs := 9, endTs := 14
      frames := [{ eventName := some "REASONING", ts := 10 }, watchFrame 12] },
    { opening := .resume .invalidation, startTs := 20, endTs := 22
      frames := [{ eventName := some "REASONING", ts := 21 }] }]

/-- The same session while another thread waits. -/
def awaitedBoth : List Observation :=
  (awaited.take 1).flatMap (Leg.observations "a") ++
    (awaited.take 2).flatMap (Leg.observations "b") ++
    (awaited.drop 1).flatMap (Leg.observations "a")

theorem suspended_of_paired_awaited :
    waited (sessionMarks .small (sessionLegs .small (awaited.take 3))) = some 17 ∧
    ∃ record, ((saved .small awaitedBoth).filter fun record =>
        decide (record.threadId = "a"))[2]? = some record ∧
      record.suspendedS = waited (sessionMarks .small (sessionLegs .small (awaited.take 3))) := by
  refine ⟨by decide +kernel, ?_⟩
  refine suspended_of_paired .small _ "a" awaited rfl 2 (by decide) ?_ (by decide +kernel)
  unfold InOrder
  decide +kernel

/-- A run that registers a watch and registers it again, and its resume. -/
def rearmed : List Leg :=
  [{ opening := .run none none none, startTs := 0, endTs := 7
     frames := [watchFrame 2, watchFrame 6] },
    { opening := .resume .target, startTs := 9, endTs := 11
      frames := [{ eventName := some "REASONING", ts := 10 }] }]

/-- The wait is counted from the first registration. -/
theorem suspended_rearmed :
    (saved .small (rearmed.flatMap (Leg.observations "a"))).map SessionRecord.suspendedS =
        [none, some 8] ∧
      waited (sessionMarks .small (sessionLegs .small rearmed)) = some 4 ∧
      InOrder .small (sessionLegs .small rearmed) := by
  unfold InOrder
  decide +kernel

end AiTrader.Telemetry
