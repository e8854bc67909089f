import AiTrader.CandleStore.Load
import Mathlib.Tactic.Ring

/-! # Fetching history

`tool-server/src/kite_history.rs`: bars are fetched page by page, back from today, each page within
the number of days that one request may span.  Days are counted from a fixed one.

* `fetch_bars_exact`: which pages are requested, and which bars of them are returned. -/

namespace AiTrader.CandleStore

open Text

structure HistoryBar where
  timeSec : ℤ
  «open» : F64
  high : F64
  low : F64
  close : F64
  volume : ℤ
  deriving DecidableEq, Repr

section
variable (C : Casing)

/-- The loop over the prefixes. -/
def stripExchange (upper : String) : List String → String
  | [] => upper
  | pre :: prefixes =>
      if startsWith upper pre then
        trim (String.ofList (upper.toList.drop pre.toList.length))
      else stripExchange upper prefixes

/-- `normalize_symbol`. -/
def normalizeSymbol (symbol : String) : String :=
  stripExchange (C.upper (trim symbol)) ["NSE:", "BSE:", "NFO:", "MCX:"]

/-- `kite_interval_for_tf`. -/
def kiteIntervalForTf (tf : String) : String × ℤ :=
  let tf := C.lower tf
  if tf ∈ ["1m", "1min", "2m", "2min", "4m", "4min"] then ("minute", 7)
  else if tf ∈ ["3m", "3min"] then ("3minute", 30)
  else if tf ∈ ["5m", "5min"] then ("5minute", 30)
  else if tf ∈ ["10m", "10min"] then ("10minute", 30)
  else if tf ∈ ["15m", "15min", "75m", "75min", "125m", "125min"] then ("15minute", 60)
  else if tf ∈ ["30m", "30min"] then ("30minute", 60)
  else if tf ∈ ["1h", "60m", "2h", "120m", "3h", "180m", "4h", "240m"] then ("60minute", 60)
  else if tf ∈ ["1d", "day", "1w", "1week", "week", "1mth", "1month", "1mon", "month"] then
    ("day", 2000)
  else ("10minute", 30)

end

/-- Bars by time, of one time the first. -/
def mergeBars (bars : List HistoryBar) : List HistoryBar :=
  Merge.merge HistoryBar.timeSec (fun _ => 0) bars

/-- The pages of a request, by its first and its last day. -/
abbrev Pages := ℤ → ℤ → Except String (List HistoryBar)

/-- The loop of `fetch_bars`, with the number of pages left. -/
def fetchPages (page : Pages) (maxDays : ℤ) (need : ℕ) :
    ℕ → ℤ → List HistoryBar → Except String (List HistoryBar)
  | 0, _, collected => .ok collected
  | left + 1, upTo, collected =>
      match page (upTo - maxDays) upTo with
      | .error e => .error e
      | .ok [] => .ok collected
      | .ok (bar :: bars) =>
          let collected := mergeBars (collected ++ bar :: bars)
          if need ≤ collected.length then .ok collected
          else fetchPages page maxDays need left (upTo - maxDays - 1) collected

/-- `need.max(30).min(2000)`. -/
def clampNeed (need : ℕ) : ℕ := min (max need 30) 2000

/-- `fetch_bars`; `page` is `fetch_page`, by symbol and interval. -/
def fetchBars (C : Casing) (page : String → String → Pages) (today : ℤ) (symbol displayTf : String)
    (need : ℕ) : Except String (List HistoryBar) :=
  let symbol := normalizeSymbol C symbol
  if symbol = "" then .error "empty symbol"
  else
    match kiteIntervalForTf C displayTf with
    | (interval, maxDays) =>
        (fetchPages (page symbol interval) maxDays (clampNeed need) 4 today []).map
          (Merge.latest (clampNeed need))

/-! ### The pages that are read -/

/-- The last day of the page of number `j`. -/
def pageEnd (today maxDays : ℤ) (j : ℕ) : ℤ := today - j * (maxDays + 1)

/-- The answer to the request for the page of number `j`. -/
def pageAt (page : Pages) (today maxDays : ℤ) (j : ℕ) : Except String (List HistoryBar) :=
  page (pageEnd today maxDays j - maxDays) (pageEnd today maxDays j)

/-- The first pages, which have bars. -/
def Read (page : Pages) (today maxDays : ℤ) (pages : List (List HistoryBar)) : Prop :=
  ∀ j bars, pages[j]? = some bars → bars ≠ [] ∧ pageAt page today maxDays j = .ok bars

/-- None of the pages but the last had brought enough. -/
def Wanting (need : ℕ) (pages : List (List HistoryBar)) : Prop :=
  ∀ j, 0 < j → j < pages.length → (mergeBars (pages.take j).flatten).length < need

variable {page : Pages} {today maxDays : ℤ} {need left : ℕ} {bars : List HistoryBar}
  {pages : List (List HistoryBar)}

theorem pageEnd_succ (today maxDays : ℤ) (j : ℕ) :
    pageEnd today maxDays (j + 1) = pageEnd today maxDays j - maxDays - 1 := by
  rw [pageEnd, pageEnd]
  push_cast
  ring

/-- The pages tile the days: the next one ends on the day before. -/
theorem pages_tile (today maxDays : ℤ) (j : ℕ) :
    pageEnd today maxDays (j + 1) + 1 = pageEnd today maxDays j - maxDays := by
  rw [pageEnd_succ]
  ring

theorem mergeBars_append (xs ys : List HistoryBar) :
    mergeBars (mergeBars xs ++ ys) = mergeBars (xs ++ ys) := Merge.merge_append xs ys

theorem Read.concat (h : Read page today maxDays pages) (hne : bars ≠ [])
    (hpage : pageAt page today maxDays pages.length = .ok bars) :
    Read page today maxDays (pages ++ [bars]) := by
  intro j bs hj
  rw [List.getElem?_append] at hj
  split at hj
  · exact h j bs hj
  · rename_i hge
    obtain ⟨hzero, rfl⟩ : j - pages.length = 0 ∧ bars = bs := by
      cases hsub : j - pages.length with
      | zero =>
          rw [hsub] at hj
          exact ⟨rfl, Option.some.inj hj⟩
      | succ m =>
          rw [hsub] at hj
          cases hj
    obtain rfl : j = pages.length := by omega
    exact ⟨hne, hpage⟩

theorem Wanting.concat (h : Wanting need pages)
    (hmore : pages = [] ∨ (mergeBars pages.flatten).length < need) :
    Wanting need (pages ++ [bars]) := by
  intro j hpos hj
  rw [List.length_append, List.length_singleton] at hj
  rw [List.take_append_of_le_length (by omega)]
  rcases Nat.lt_or_ge j pages.length with hlt | hge
  · exact h j hpos hlt
  · rw [List.take_of_length_le hge]
    rcases hmore with rfl | hmore
    · rw [List.length_nil] at hj
      omega
    · exact hmore

theorem fetchPages_cases (hread : Read page today maxDays pages) (hwant : Wanting need pages)
    (hmore : pages = [] ∨ (mergeBars pages.flatten).length < need) :
    match fetchPages page maxDays need left (pageEnd today maxDays pages.length)
        (mergeBars pages.flatten) with
    | .ok bars => ∃ all, Read page today maxDays all ∧ Wanting need all ∧
        all.length ≤ pages.length + left ∧ bars = mergeBars all.flatten ∧
        (all.length = pages.length + left ∨ need ≤ bars.length ∨
          pageAt page today maxDays all.length = .ok [])
    | .error e => ∃ all, Read page today maxDays all ∧ Wanting need all ∧
        all.length < pages.length + left ∧ (all = [] ∨ (mergeBars all.flatten).length < need) ∧
        pageAt page today maxDays all.length = .error e := by
  induction left generalizing pages with
  | zero => exact ⟨pages, hread, hwant, le_refl _, rfl, Or.inl rfl⟩
  | succ left ih =>
      rw [fetchPages]
      cases hpage : pageAt page today maxDays pages.length with
      | error e =>
          rw [pageAt] at hpage
          rw [hpage]
          exact ⟨pages, hread, hwant, by omega, hmore, hpage⟩
      | ok answer =>
          have hpage' := hpage
          rw [pageAt] at hpage
          rw [hpage]
          cases answer with
          | nil => exact ⟨pages, hread, hwant, by omega, rfl, Or.inr (Or.inr hpage')⟩
          | cons bar bars =>
              have hread' := hread.concat (List.cons_ne_nil bar bars) hpage'
              have hwant' : Wanting need (pages ++ [bar :: bars]) := hwant.concat hmore
              have hflat : (pages ++ [bar :: bars]).flatten = pages.flatten ++ bar :: bars := by
                rw [List.flatten_append, List.flatten_singleton]
              have hlength : (pages ++ [bar :: bars]).length = pages.length + 1 := by
                rw [List.length_append, List.length_singleton]
              dsimp only
              rw [mergeBars_append, ← hflat]
              by_cases henough : need ≤ (mergeBars (pages ++ [bar :: bars]).flatten).length
              · rw [if_pos henough]
                exact ⟨_, hread', hwant', by omega, rfl, Or.inr (Or.inl henough)⟩
              · rw [if_neg henough]
                have hrest := ih hread' hwant' (Or.inr (not_le.mp henough))
                rw [hlength, pageEnd_succ] at hrest
                have hadd : pages.length + 1 + left = pages.length + (left + 1) := by omega
                rw [hadd] at hrest
                exact hrest

/-- The answer, for the pages that were read. -/
structure Fetched (page : Pages) (today maxDays : ℤ) (need left : ℕ) (bars : List HistoryBar)
    (pages : List (List HistoryBar)) : Prop where
  read : Read page today maxDays pages
  wanting : Wanting need pages
  length_le : pages.length ≤ left
  stop : bars.length < need → pages.length = left ∨ pageAt page today maxDays pages.length = .ok []
  strict : bars.Pairwise fun a b => a.timeSec < b.timeSec
  length : bars.length = min (mergeBars pages.flatten).length need
  mem : ∀ bar, bar ∈ bars ↔
    pages.flatten.find? (fun b => decide (b.timeSec = bar.timeSec)) = some bar ∧
      ((pages.flatten.map HistoryBar.timeSec).toFinset.filter (bar.timeSec < ·)).card < need

/-- The page that could not be read, while there were bars to want. -/
structure Failed (page : Pages) (today maxDays : ℤ) (need left : ℕ) (e : String)
    (pages : List (List HistoryBar)) : Prop where
  read : Read page today maxDays pages
  wanting : Wanting need pages
  length_lt : pages.length < left
  few : pages = [] ∨ (mergeBars pages.flatten).length < need
  failed : pageAt page today maxDays pages.length = .error e

theorem mem_latest_mergeBars {bar : HistoryBar} (bars : List HistoryBar) :
    bar ∈ Merge.latest need (mergeBars bars) ↔
      bars.find? (fun b => decide (b.timeSec = bar.timeSec)) = some bar ∧
        ((bars.map HistoryBar.timeSec).toFinset.filter (bar.timeSec < ·)).card < need := by
  have hcard : ((bars.map HistoryBar.timeSec).toFinset.filter (bar.timeSec < ·)).card =
      ((mergeBars bars).filter fun b => decide (bar.timeSec < b.timeSec)).length :=
    Merge.card_times_filter bars (bar.timeSec < ·)
  rw [hcard, mergeBars, Merge.mem_latest (Merge.merge_sorted _), Merge.mem_merge, Merge.Wins,
    List.head?_filter]
  simp

theorem fetchPages_exact (page : Pages) (today maxDays : ℤ) (need left : ℕ) :
    match (fetchPages page maxDays need left today []).map (Merge.latest need) with
    | .ok bars => ∃ pages, Fetched page today maxDays need left bars pages
    | .error e => ∃ pages, Failed page today maxDays need left e pages := by
  have hread : Read page today maxDays [] := fun j bars hj => by simp at hj
  have hwant : Wanting need [] := fun j _ hj => absurd hj (Nat.not_lt_zero j)
  have hcases := @fetchPages_cases page today maxDays need left [] hread hwant (Or.inl rfl)
  have hstart : pageEnd today maxDays ([] : List (List HistoryBar)).length = today := by
    simp [pageEnd]
  rw [hstart, List.length_nil, Nat.zero_add] at hcases
  have hnil : mergeBars ([] : List (List HistoryBar)).flatten = [] := rfl
  rw [hnil] at hcases
  cases hfetch : fetchPages page maxDays need left today [] with
  | error e =>
      rw [hfetch] at hcases
      obtain ⟨pages, hread, hwant, hlt, hfew, hpage⟩ := hcases
      exact ⟨pages, hread, hwant, hlt, hfew, hpage⟩
  | ok bars =>
      rw [hfetch] at hcases
      obtain ⟨pages, hread, hwant, hle, rfl, hstop⟩ := hcases
      refine ⟨pages, hread, hwant, hle, fun hfew => ?_, ?_, Merge.length_latest _ _, fun bar => ?_⟩
      · rw [Merge.length_latest] at hfew
        rcases hstop with hall | henough | hlast
        · exact Or.inl hall
        · omega
        · exact Or.inr hlast
      · exact (Merge.merge_sorted _).sublist (Merge.latest_sublist _ _)
      · exact mem_latest_mergeBars _

/-- **What is fetched.**  At most four pages are read, back from today without a gap or an overlap,
until they have enough bars or a page is empty.  The latest bars are returned, in strict order of
their times, each from the first page that has its time.  The error of a page is given only where
the pages before it left bars to want. -/
theorem fetch_bars_exact (C : Casing) (page : String → String → Pages) (today : ℤ)
    (symbol displayTf : String) (need : ℕ) :
    match fetchBars C page today symbol displayTf need with
    | .ok bars => ∃ pages, Fetched
        (page (normalizeSymbol C symbol) (kiteIntervalForTf C displayTf).1) today
        (kiteIntervalForTf C displayTf).2 (clampNeed need) 4 bars pages
    | .error e => normalizeSymbol C symbol = "" ∧ e = "empty symbol" ∨
        ∃ pages, Failed
          (page (normalizeSymbol C symbol) (kiteIntervalForTf C displayTf).1) today
          (kiteIntervalForTf C displayTf).2 (clampNeed need) 4 e pages := by
  have hfetch : fetchBars C page today symbol displayTf need =
      if normalizeSymbol C symbol = "" then .error "empty symbol"
      else match kiteIntervalForTf C displayTf with
        | (interval, maxDays) =>
            (fetchPages (page (normalizeSymbol C symbol) interval) maxDays (clampNeed need) 4
              today []).map (Merge.latest (clampNeed need)) := by
    rw [fetchBars]
  generalize kiteIntervalForTf C displayTf = request at hfetch ⊢
  obtain ⟨interval, maxDays⟩ := request
  generalize normalizeSymbol C symbol = symbol' at hfetch ⊢
  rw [hfetch]
  by_cases hempty : symbol' = ""
  · rw [if_pos hempty]
    exact Or.inl ⟨hempty, rfl⟩
  · rw [if_neg hempty]
    have hloop := fetchPages_exact (page symbol' interval) today maxDays (clampNeed need) 4
    dsimp only
    generalize (fetchPages (page symbol' interval) maxDays (clampNeed need) 4 today []).map
      (Merge.latest (clampNeed need)) = result at hloop ⊢
    cases result with
    | error e => exact Or.inr hloop
    | ok bars => exact hloop

end AiTrader.CandleStore
