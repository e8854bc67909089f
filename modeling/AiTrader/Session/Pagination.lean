import AiTrader.Library.Json
import AiTrader.Library.Paging
import AiTrader.Session.Access

/-! # Following the cursor while sessions are touched

A client lists the sessions of a user page by page, each time with the cursor of the page before,
and between two pages any sessions may be touched.  A touched session moves to the front, which the
client has behind it; so what lies behind the cursor only ever loses sessions
(`matchingSessions_touchAll`), and the pages are those of a list that shrinks. -/

namespace AiTrader.Session

open Text Json

namespace Store

/-! ### The cursor as text -/

section
variable (N : NumSyntax Stamp) (I : NumSyntax Id)

/-- `_encode_cursor`: `repr` of the stamp, a bar, the identifier. -/
def encodeCursor (c : Cursor) : String :=
  String.ofList (N.text c.updatedAt ++ '|' :: I.text c.sessionId)

/-- `_decode_cursor`: what does not have the shape of a cursor counts as none. -/
def decodeCursor (cursor : String) : Option Cursor := do
  let sid := (cursor.toList.dropWhile (· ≠ '|')).drop 1
  if sid = [] then none
  else
    let updatedAt ← N.read (cursor.toList.takeWhile (· ≠ '|'))
    let sessionId ← I.read sid
    return ⟨updatedAt, sessionId⟩

/-- The texts of the cursor at a row are read back: `float(repr(x)) == x`, and `repr` writes no
bar. -/
structure CursorReadable (r : SessionRow) : Prop where
  stamp : N.Readable r.updatedAt
  sessionId : I.text r.sessionId ≠ [] ∧ I.read (I.text r.sessionId) = some r.sessionId

variable {N I}

theorem decodeCursor_encodeCursor {r : SessionRow} (h : CursorReadable N I r) :
    decodeCursor N I (encodeCursor N I (cursorOf r)) = some (cursorOf r) := by
  have hbar : ∀ c ∈ N.text r.updatedAt, decide (c ≠ '|') = true := by
    intro c hc
    rw [decide_eq_true_eq]
    rintro rfl
    exact absurd (h.stamp.word '|' hc) (by decide)
  have hstamp : (N.text r.updatedAt ++ '|' :: I.text r.sessionId).takeWhile (· ≠ '|') =
      N.text r.updatedAt := by
    rw [List.takeWhile_append_of_pos hbar, List.takeWhile_cons_of_neg (by decide), List.append_nil]
  have hsid : ((N.text r.updatedAt ++ '|' :: I.text r.sessionId).dropWhile (· ≠ '|')).drop 1 =
      I.text r.sessionId := by
    rw [List.dropWhile_append_of_pos hbar, List.dropWhile_cons_of_neg (by decide)]
    rfl
  unfold decodeCursor encodeCursor cursorOf
  rw [String.toList_ofList, hstamp, hsid, if_neg h.sessionId.1, h.stamp.read_text, h.sessionId.2]
  rfl

end

variable {C : Casing} {s : Store} {userId uid : String} {q : SessionQuery} {r : SessionRow}

/-! ### The order of the list -/

theorem afterCursor_some {c : Cursor} :
    afterCursor (some c) r = true ↔ sortKey r < toLex (c.updatedAt, c.sessionId) := by
  rw [afterCursor, sortKey, Prod.Lex.toLex_lt_toLex, Bool.or_eq_true, Bool.and_eq_true,
    decide_eq_true_eq, decide_eq_true_eq, decide_eq_true_eq]

theorem sessionMatches_iff : sessionMatches C uid q r = true ↔
    (decide (r.userId = uid) && statusMatches q.status r && textMatches C q.query r) = true ∧
      afterCursor q.cursor r = true := by
  rw [sessionMatches, Bool.and_eq_true]

theorem matchingSessions_nodup :
    ((s.matchingSessions C uid q).map SessionRow.sessionId).Nodup := by
  refine ((List.perm_insertionSort newerFirst _).map _).nodup_iff.mpr ?_
  exact s.sessions.nodup.sublist (List.filter_sublist.map _)

/-- The identifier tells rows of one stamp apart, so the order is strict. -/
theorem matchingSessions_sorted :
    (s.matchingSessions C uid q).Pairwise fun a b => sortKey b < sortKey a := by
  refine ((List.pairwise_insertionSort newerFirst _).and
    (List.pairwise_map.mp matchingSessions_nodup)).imp ?_
  rintro a b ⟨hle, hne⟩
  exact lt_of_le_of_ne (newerFirst_iff.mp hle) fun h => hne (sessionId_eq_of_sortKey h).symm

/-- The sessions behind the last one of a page are those that follow the page. -/
theorem matchingSessions_behind {size : ℕ} {last : SessionRow}
    (hlast : ((s.matchingSessions C uid q).take size).getLast? = some last) :
    s.matchingSessions C uid { q with cursor := some (cursorOf last) } =
      (s.matchingSessions C uid q).drop size := by
  refine Paging.eq_of_mem_iff matchingSessions_sorted
    (matchingSessions_sorted.sublist (List.drop_sublist _ _)) fun r => ?_
  rw [Paging.mem_drop_iff matchingSessions_sorted hlast, mem_matchingSessions,
    mem_matchingSessions, sessionMatches_iff, sessionMatches_iff, afterCursor_some]
  obtain ⟨-, hmatches⟩ :=
    mem_matchingSessions.mp (List.mem_of_mem_take (List.mem_of_getLast? hlast))
  rw [sessionMatches_iff] at hmatches
  -- behind the last row is behind the cursor that the page was asked for with
  have hbehind (hlt : sortKey r < sortKey last) : afterCursor q.cursor r = true := by
    cases hcursor : q.cursor with
    | none => rfl
    | some c =>
        rw [hcursor] at hmatches
        exact afterCursor_some.mpr (hlt.trans (afterCursor_some.mp hmatches.2))
  constructor
  · rintro ⟨hr, hp, hlt⟩
    exact ⟨⟨hr, hp, hbehind hlt⟩, hlt⟩
  · rintro ⟨⟨hr, hp, -⟩, hlt⟩
    exact ⟨hr, hp, hlt⟩

/-! ### Touches -/

/-- Sessions are touched, one after the other. -/
def touchAll (s : Store) : List (Id × Stamp) → Store
  | [] => s
  | t :: ts => touchAll (s.touch t.1 t.2) ts

/-- Every stamp is newer than all that are there. -/
def Newest (s : Store) : List (Id × Stamp) → Prop
  | [] => True
  | t :: ts => (∀ r ∈ s.sessions.rows, r.updatedAt < t.2) ∧ Newest (s.touch t.1 t.2) ts

/-- The store when page `k` is asked for. -/
def storeAt (s : Store) (between : ℕ → List (Id × Stamp)) : ℕ → Store
  | 0 => s
  | k + 1 => touchAll (storeAt s between k) (between k)

theorem mem_touch {sid : Id} {stamp : Stamp} :
    r ∈ (s.touch sid stamp).sessions.rows ↔
      ∃ x ∈ s.sessions.rows, r = if x.sessionId = sid then { x with updatedAt := stamp } else x := by
  rw [touch, Table.updateWhere, List.mem_map]
  simp only [decide_eq_true_eq, eq_comm (a := r)]

/-- The identifiers that are touched. -/
def touchedIds (ts : List (Id × Stamp)) : List Id := ts.map Prod.fst

/-- The identifiers that are touched between the first pages. -/
def touchedDuring (between : ℕ → List (Id × Stamp)) (steps : ℕ) : List Id :=
  (List.range steps).flatMap fun k => touchedIds (between k)

theorem mem_touchAll {ts : List (Id × Stamp)} (hid : r.sessionId ∉ touchedIds ts) :
    r ∈ (s.touchAll ts).sessions.rows ↔ r ∈ s.sessions.rows := by
  induction ts generalizing s with
  | nil => rfl
  | cons t ts ih =>
      obtain ⟨hne, hrest⟩ := not_or.mp (fun h => hid (List.mem_cons.mpr h))
      rw [touchAll, ih hrest, mem_touch]
      constructor
      · rintro ⟨x, hx, hr⟩
        split at hr
        · rename_i hx'
          exact absurd (hr ▸ hx') hne
        · rw [hr]
          exact hx
      · exact fun hr => ⟨r, hr, (if_neg hne).symm⟩

theorem updatedAt_touchAll {ts : List (Id × Stamp)} (hnewest : s.Newest ts)
    (hr : r ∈ (s.touchAll ts).sessions.rows) (hid : r.sessionId ∈ touchedIds ts) :
    ∀ x ∈ s.sessions.rows, x.updatedAt < r.updatedAt := by
  induction ts generalizing s with
  | nil => exact absurd hid List.not_mem_nil
  | cons t ts ih =>
      intro x hx
      obtain ⟨hstamp, hrest⟩ := hnewest
      by_cases hlater : r.sessionId ∈ touchedIds ts
      · -- the row is touched again: by then the stamp of `x` has not become less
        have hx' := ih hrest hr hlater _ (mem_touch.mpr ⟨x, hx, rfl⟩)
        split at hx'
        · exact (hstamp x hx).trans hx'
        · exact hx'
      · obtain ⟨y, -, hy⟩ := mem_touch.mp ((mem_touchAll hlater).mp hr)
        have hid' : r.sessionId = t.1 := (List.mem_cons.mp hid).resolve_right hlater
        split at hy
        · rw [hy]
          exact hstamp x hx
        · rename_i hne
          exact absurd (hy ▸ hid') hne

/-- **Touches only take sessions away** from what lies behind the cursor. -/
theorem matchingSessions_touchAll {ts : List (Id × Stamp)} (hnewest : s.Newest ts)
    {last : SessionRow} (hlast : last ∈ s.sessions.rows) (hcursor : q.cursor = some (cursorOf last)) :
    (s.touchAll ts).matchingSessions C uid q =
      (s.matchingSessions C uid q).filter fun r => decide (r.sessionId ∉ touchedIds ts) := by
  refine Paging.eq_of_mem_iff matchingSessions_sorted
    (matchingSessions_sorted.sublist List.filter_sublist) fun r => ?_
  rw [List.mem_filter, mem_matchingSessions, mem_matchingSessions, decide_eq_true_eq]
  constructor
  · rintro ⟨hr, hmatches⟩
    have hkey : sortKey r < sortKey last := by
      rw [sessionMatches_iff, hcursor] at hmatches
      exact afterCursor_some.mp hmatches.2
    have hid : r.sessionId ∉ touchedIds ts := fun hid =>
      absurd hkey (Prod.Lex.toLex_lt_toLex.mpr (.inl (updatedAt_touchAll hnewest hr hid last hlast))).asymm
    exact ⟨⟨(mem_touchAll hid).mp hr, hmatches⟩, hid⟩
  · rintro ⟨⟨hr, hmatches⟩, hid⟩
    exact ⟨(mem_touchAll hid).mpr hr, hmatches⟩

/-! ### A page and a walk -/

/-- The page size that a limit comes to. -/
def pageSize (limit : ℕ) : ℕ := max 1 (min limit 100)

theorem pageSize_pos (limit : ℕ) : 0 < pageSize limit := le_max_left 1 _

theorem listSessions_eq (huser : required userId "user_id" = .ok uid) :
    s.listSessions C userId q = .ok
      ((s.matchingSessions C uid q).take (pageSize q.limit),
        if pageSize q.limit < (s.matchingSessions C uid q).length then
          ((s.matchingSessions C uid q).take (pageSize q.limit)).getLast?.map cursorOf
        else none) := by
  have htake : ((s.matchingSessions C uid q).take (pageSize q.limit + 1)).take (pageSize q.limit) =
      (s.matchingSessions C uid q).take (pageSize q.limit) := by
    rw [List.take_take, min_eq_left (Nat.le_succ _)]
  have hmore : pageSize q.limit < ((s.matchingSessions C uid q).take (pageSize q.limit + 1)).length ↔
      pageSize q.limit < (s.matchingSessions C uid q).length := by
    rw [List.length_take]
    omega
  unfold listSessions
  rw [huser]
  show Except.ok (((s.matchingSessions C uid q).take (pageSize q.limit + 1)).take (pageSize q.limit),
    if pageSize q.limit < ((s.matchingSessions C uid q).take (pageSize q.limit + 1)).length then
      (((s.matchingSessions C uid q).take (pageSize q.limit + 1)).take
        (pageSize q.limit)).getLast?.map cursorOf else none) = _
  rw [htake]
  simp only [hmore]

section
variable (C) (N : NumSyntax Stamp) (I : NumSyntax Id)

/-- What the client asks for on every page. -/
structure Listing where
  userId : String
  status : Option SessionStatus
  limit : ℕ
  query : Option String

/-- The arguments of one page. -/
def Listing.at (l : Listing) (cursor : Option String) : SessionQuery :=
  ⟨l.status, cursor.bind (decodeCursor N I), l.limit, l.query⟩

/-- `list_sessions` with the cursor as the client holds it. -/
def listPage (s : Store) (l : Listing) (cursor : Option String) :
    Except StoreError (List SessionRow × Option String) := do
  let (page, next) ← s.listSessions C l.userId (l.at N I cursor)
  return (page, next.map (encodeCursor N I))

/-- The pages from page `k` on, each asked for with the cursor of the one before, while sessions are
touched `between` pages; `none` when there are more than `fuel`. -/
def walk (s : Store) (between : ℕ → List (Id × Stamp)) (l : Listing) :
    ℕ → ℕ → Option String → Except StoreError (Option (List (List SessionRow)))
  | 0, _, _ => .ok none
  | fuel + 1, k, cursor => do
      let (page, next) ← (s.storeAt between k).listPage C N I l cursor
      match next with
      | none => return some [page]
      | some c => return (← walk s between l fuel (k + 1) (some c)).map (page :: ·)

end

section
variable {N : NumSyntax Stamp} {I : NumSyntax Id} {l : Listing} {between : ℕ → List (Id × Stamp)}

theorem listPage_last {cursor : Option String} (huser : required l.userId "user_id" = .ok uid)
    (hlast : (s.matchingSessions C uid (l.at N I cursor)).length ≤ pageSize l.limit) :
    s.listPage C N I l cursor = .ok (s.matchingSessions C uid (l.at N I cursor), none) := by
  unfold listPage
  rw [listSessions_eq huser]
  show Except.ok ((s.matchingSessions C uid (l.at N I cursor)).take (pageSize l.limit),
    (if pageSize l.limit < (s.matchingSessions C uid (l.at N I cursor)).length then
      ((s.matchingSessions C uid (l.at N I cursor)).take (pageSize l.limit)).getLast?.map cursorOf
      else none).map (encodeCursor N I)) = _
  rw [if_neg (not_lt.mpr hlast), List.take_of_length_le hlast, Option.map_none]

theorem listPage_next {cursor : Option String} (huser : required l.userId "user_id" = .ok uid)
    (hmore : pageSize l.limit < (s.matchingSessions C uid (l.at N I cursor)).length) :
    ∃ last, ((s.matchingSessions C uid (l.at N I cursor)).take (pageSize l.limit)).getLast? =
        some last ∧
      s.listPage C N I l cursor =
        .ok ((s.matchingSessions C uid (l.at N I cursor)).take (pageSize l.limit),
          some (encodeCursor N I (cursorOf last))) := by
  have hne : (s.matchingSessions C uid (l.at N I cursor)).take (pageSize l.limit) ≠ [] := by
    rw [← List.length_pos_iff, List.length_take]
    exact lt_min (pageSize_pos l.limit) ((pageSize_pos l.limit).trans hmore)
  refine ⟨_, List.getLast?_eq_some_getLast hne, ?_⟩
  unfold listPage
  rw [listSessions_eq huser]
  show Except.ok ((s.matchingSessions C uid (l.at N I cursor)).take (pageSize l.limit),
    (if pageSize l.limit < (s.matchingSessions C uid (l.at N I cursor)).length then
      ((s.matchingSessions C uid (l.at N I cursor)).take (pageSize l.limit)).getLast?.map cursorOf
      else none).map (encodeCursor N I)) = _
  rw [if_pos hmore, List.getLast?_eq_some_getLast hne, Option.map_some, Option.map_some]

/-- **A walk hands out the pages of a list that shrinks.** -/
theorem walk_eq_pages (huser : required l.userId "user_id" = .ok uid)
    (hnewest : ∀ k, (s.storeAt between k).Newest (between k))
    (hread : ∀ k, ∀ r ∈ (s.storeAt between k).sessions.rows, CursorReadable N I r)
    (fuel k : ℕ) (cursor : Option String) :
    s.walk C N I between l fuel k cursor = .ok
      (Paging.pages (pageSize l.limit)
        (fun j r => decide (r.sessionId ∉ touchedIds (between j))) fuel k
        ((s.storeAt between k).matchingSessions C uid (l.at N I cursor))) := by
  induction fuel generalizing k cursor with
  | zero => rfl
  | succ fuel ih =>
      rw [walk, Paging.pages]
      by_cases hmore : pageSize l.limit <
          ((s.storeAt between k).matchingSessions C uid (l.at N I cursor)).length
      · obtain ⟨last, hlast, hpage⟩ := listPage_next (N := N) (I := I) huser hmore
        have hrow : last ∈ (s.storeAt between k).sessions.rows :=
          (mem_matchingSessions.mp (List.mem_of_mem_take (List.mem_of_getLast? hlast))).1
        have hat : l.at N I (some (encodeCursor N I (cursorOf last))) =
            { l.at N I cursor with cursor := some (cursorOf last) } := by
          unfold Listing.at
          rw [Option.bind_some, decodeCursor_encodeCursor (hread k last hrow)]
        have hrest := ih (k + 1) (some (encodeCursor N I (cursorOf last)))
        rw [hat, storeAt, matchingSessions_touchAll (hnewest k) hrow rfl,
          matchingSessions_behind hlast] at hrest
        rw [hpage, if_neg (not_le.mpr hmore)]
        show (do return (← s.walk C N I between l fuel (k + 1) _).map _) = _
        rw [hrest]
        rfl
      · rw [listPage_last huser (not_lt.mp hmore), if_pos (not_lt.mp hmore)]
        rfl

end

/-- **Pages under touches.**  A user follows the cursor from the first page on while sessions are
touched between the pages, each time with a stamp newer than all.  The walk ends within one page
more than the matching sessions fill, no session comes twice, and what was not touched during the
walk comes in the order in which it stood at the start. -/
theorem walk_under_touches (C : Casing) (N : NumSyntax Stamp) (I : NumSyntax Id) (s : Store)
    (between : ℕ → List (Id × Stamp)) (l : Listing) (uid : String)
    (huser : required l.userId "user_id" = .ok uid)
    (hnewest : ∀ k, (s.storeAt between k).Newest (between k))
    (hread : ∀ k, ∀ r ∈ (s.storeAt between k).sessions.rows, CursorReadable N I r) :
    let listed := s.matchingSessions C uid (l.at N I none)
    ∃ pages, s.walk C N I between l (listed.length / pageSize l.limit + 1) 0 none =
        .ok (some pages) ∧
      pages.length ≤ listed.length / pageSize l.limit + 1 ∧
      (pages.flatten.map SessionRow.sessionId).Nodup ∧
      pages.flatten.Pairwise (fun a b => sortKey b < sortKey a) ∧
      let untouched := fun r : SessionRow =>
        decide (r.sessionId ∉ touchedDuring between (pages.length - 1))
      pages.flatten.filter untouched = listed.filter untouched := by
  intro listed
  obtain ⟨pages, hpages⟩ := Paging.pages_isSome
    (fun j r => decide (r.sessionId ∉ touchedIds (between j))) 0 listed (pageSize_pos l.limit)
    (Nat.lt_succ_self _)
  have hsublist := Paging.flatten_sublist hpages
  refine ⟨pages, ?_, Paging.length_le hpages, ?_, matchingSessions_sorted.sublist hsublist, ?_⟩
  · rw [walk_eq_pages huser hnewest hread]
    exact congrArg Except.ok hpages
  · exact matchingSessions_nodup.sublist (hsublist.map _)
  · refine Paging.filter_flatten hpages fun k hk r hr => ?_
    rw [decide_eq_true_eq] at hr ⊢
    rw [Nat.zero_add]
    exact fun hid => hr (List.mem_flatMap.mpr ⟨k, List.mem_range.mpr (by omega), hid⟩)

/-! ### Walks of one user -/

/-- The session with identifier `i`. -/
def plainSession (i : Id) (updatedAt : Stamp) : SessionRow where
  sessionId := i
  userId := "u1"
  title := none
  symbol := "EURUSD"
  profile := "FX"
  timeframe := "10m"
  status := .active
  activeRunId := none
  createdAt := 0
  updatedAt := updatedAt
  archivedAt := none

/-- Sessions `0` to `n - 1`, last updated as `updatedAt` says. -/
def plainStore (n : ℕ) (updatedAt : Id → Stamp) : Store :=
  { Store.empty with
    sessions := ⟨(List.range n).map fun i => plainSession i (updatedAt i), by
      rw [List.map_map, show SessionRow.sessionId ∘ (fun i => plainSession i (updatedAt i)) = id from rfl,
        List.map_id]
      exact List.nodup_range⟩ }

/-- Identifiers in unary. -/
def unaryIds : NumSyntax Id where
  text i := List.replicate (i + 1) 'x'
  read cs := some (cs.length - 1)

theorem cursorReadable_unaryIds {N : NumSyntax Stamp} {r : SessionRow}
    (h : N.Readable r.updatedAt) : CursorReadable N unaryIds r where
  stamp := h
  sessionId := ⟨by simp [unaryIds], by simp [unaryIds]⟩

/-- The active sessions, `limit` a page. -/
def activeListing (limit : ℕ) : Listing := ⟨"u1", some .active, limit, none⟩

theorem storeAt_const (k : ℕ) : s.storeAt (fun _ => []) k = s := by
  induction k with
  | zero => rfl
  | succ k ih => rw [storeAt, ih, touchAll]

/-- **A limit above the cap fills more pages than it says**: 101 sessions do not fit on one page,
whatever the limit. -/
theorem capped_limit_needs_second_page :
    ¬ ∀ (C : Casing) (N : NumSyntax Stamp) (I : NumSyntax Id) (s : Store)
      (between : ℕ → List (Id × Stamp)) (l : Listing) (uid : String),
      required l.userId "user_id" = .ok uid →
      (∀ k, (s.storeAt between k).Newest (between k)) →
      (∀ k, ∀ r ∈ (s.storeAt between k).sessions.rows, CursorReadable N I r) →
      ∃ pages, s.walk C N I between l
        ((s.matchingSessions C uid (l.at N I none)).length / l.limit + 1) 0 none =
          .ok (some pages) := by
  intro h
  have huser : required "u1" "user_id" = .ok "u1" := by decide
  have hone : (NumSyntax.ofTable [((1 : Stamp), "1.0".toList)]).Readable 1 := by decide +kernel
  have hread : ∀ k, ∀ r ∈ ((plainStore 101 fun _ => 1).storeAt (fun _ => []) k).sessions.rows,
      CursorReadable (NumSyntax.ofTable [((1 : Stamp), "1.0".toList)]) unaryIds r := by
    intro k r hr
    rw [storeAt_const] at hr
    obtain ⟨i, -, rfl⟩ := List.mem_map.mp hr
    exact cursorReadable_unaryIds hone
  have hnewest : ∀ k, ((plainStore 101 fun _ => 1).storeAt (fun _ => []) k).Newest [] :=
    fun _ => trivial
  have hlisted : ((plainStore 101 fun _ => 1).matchingSessions Casing.ascii "u1"
      ((activeListing 200).at (NumSyntax.ofTable [((1 : Stamp), "1.0".toList)]) unaryIds
        none)).length = 101 := by
    rw [matchingSessions, List.length_insertionSort, List.filter_eq_self.mpr]
    · exact (List.length_map _).trans List.length_range
    · intro r hr
      obtain ⟨i, -, rfl⟩ := List.mem_map.mp hr
      rfl
  obtain ⟨pages, hpages⟩ := h Casing.ascii _ _ _ _ (activeListing 200) "u1" huser hnewest hread
  rw [walk_eq_pages huser hnewest hread, hlisted] at hpages
  have hnone := Except.ok.inj hpages
  rw [show 101 / (activeListing 200).limit + 1 = 1 from rfl, Paging.pages, if_neg] at hnone
  · cases hnone
  · rw [show (plainStore 101 fun _ => 1).storeAt (fun _ => []) 0 = plainStore 101 fun _ => 1 from rfl,
      hlisted]
    decide

/-- Touches before the second page only. -/
def touchedOnce (ts : List (Id × Stamp)) (k : ℕ) : List (Id × Stamp) := if k = 0 then ts else []

theorem storeAt_touchedOnce (ts : List (Id × Stamp)) (k : ℕ) :
    s.storeAt (touchedOnce ts) (k + 1) = s.touchAll ts := by
  induction k with
  | zero => rfl
  | succ k ih => rw [storeAt, ih]; rfl

/-- Three sessions of equal stamps, two a page; the one that is still to come is touched. -/
theorem walk_under_touches_three :
    let N := NumSyntax.ofTable [((1 : Stamp), "1.0".toList), (2, "2.0".toList)]
    let listed := (plainStore 3 fun _ => 1).matchingSessions Casing.ascii "u1"
      ((activeListing 2).at N unaryIds none)
    ∃ pages, (plainStore 3 fun _ => 1).walk Casing.ascii N unaryIds (touchedOnce [(0, 2)])
        (activeListing 2) (listed.length / pageSize 2 + 1) 0 none = .ok (some pages) ∧
      pages.length ≤ listed.length / pageSize 2 + 1 ∧
      (pages.flatten.map SessionRow.sessionId).Nodup ∧
      pages.flatten.Pairwise (fun a b => sortKey b < sortKey a) ∧
      let untouched := fun r : SessionRow =>
        decide (r.sessionId ∉ touchedDuring (touchedOnce [(0, 2)]) (pages.length - 1))
      pages.flatten.filter untouched = listed.filter untouched := by
  have hone : (NumSyntax.ofTable [((1 : Stamp), "1.0".toList), (2, "2.0".toList)]).Readable 1 := by
    decide +kernel
  have htwo : (NumSyntax.ofTable [((1 : Stamp), "1.0".toList), (2, "2.0".toList)]).Readable 2 := by
    decide +kernel
  have hrows : ∀ r ∈ (plainStore 3 fun _ => 1).sessions.rows, r.updatedAt = 1 := by
    intro r hr
    obtain ⟨i, -, rfl⟩ := List.mem_map.mp hr
    rfl
  refine walk_under_touches Casing.ascii _ unaryIds (plainStore 3 fun _ => 1)
    (touchedOnce [(0, 2)]) (activeListing 2) "u1" (by decide) (fun k => ?_) fun k r hr => ?_
  · cases k with
    | zero => exact ⟨fun r hr => by rw [hrows r hr]; decide, trivial⟩
    | succ k => trivial
  · refine cursorReadable_unaryIds ?_
    cases k with
    | zero =>
        rw [hrows r hr]
        exact hone
    | succ k =>
        rw [storeAt_touchedOnce] at hr
        obtain ⟨x, hx, rfl⟩ := mem_touch.mp hr
        split
        · exact htwo
        · rw [hrows x hx]
          exact hone

end Store

end AiTrader.Session
