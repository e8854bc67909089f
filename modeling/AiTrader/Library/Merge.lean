import Mathlib.Data.Finset.Card
import Mathlib.Data.List.Induction
import Mathlib.Data.List.Sort
import Mathlib.Data.Prod.Lex

/-! # Merging rows by time and priority

Rows are sorted by time and priority, the sort is stable, and of the rows of one time the first with
the greatest priority is kept.

* `Wins`: the row that is kept for its time.
* `merge_sorted`, `mem_merge`: the merge holds the winners, in strict order of their times.
* `mem_latest`: the last `n` of the merge are those with fewer than `n` later ones. -/

namespace AiTrader.Merge

variable {α τ π : Type*} [LinearOrder τ] [LinearOrder π] (time : α → τ) (priority : α → π)

/-- Sorted by time and then by priority; rows that agree in both keep their order. -/
def sorted (rows : List α) : List α :=
  rows.insertionSort fun a b => toLex (time a, priority a) ≤ toLex (time b, priority b)

/-- The next row in that order: it replaces the last one if that has its time and less priority. -/
def push (kept : List α) (a : α) : List α :=
  match kept.getLast? with
  | none => kept ++ [a]
  | some last =>
      if time last = time a then
        if priority last < priority a then kept.dropLast ++ [a] else kept
      else kept ++ [a]

/-- One row for every time. -/
def merge (rows : List α) : List α := (sorted time priority rows).foldl (push time priority) []

/-- The last `n` rows. -/
def latest (n : ℕ) (rows : List α) : List α := rows.drop (rows.length - n)

/-- The first row of its time and priority, and no row of its time has a greater priority. -/
def Wins (rows : List α) (a : α) : Prop :=
  (rows.filter fun b => decide (time b = time a ∧ priority b = priority a)).head? = some a ∧
    ∀ b ∈ rows, time b = time a → priority b ≤ priority a

variable {time : α → τ} {priority : α → π} {rows : List α} {a b : α}

theorem Wins.mem (h : Wins time priority rows a) : a ∈ rows :=
  (List.mem_filter.mp (List.mem_of_head? h.1)).1

theorem Wins.unique (ha : Wins time priority rows a) (hb : Wins time priority rows b)
    (h : time a = time b) : a = b := by
  have hprio : priority a = priority b :=
    le_antisymm (hb.2 a ha.mem h) (ha.2 b hb.mem h.symm)
  have hhead := ha.1
  rw [h, hprio, hb.1] at hhead
  exact (Option.some.inj hhead).symm

/-! ### The sort -/

theorem pairwise_sorted (rows : List α) : (sorted time priority rows).Pairwise
    fun a b => toLex (time a, priority a) ≤ toLex (time b, priority b) :=
  @List.pairwise_insertionSort _ (fun a b => toLex (time a, priority a) ≤ toLex (time b, priority b))
    _ ⟨fun _ _ => le_total _ _⟩ ⟨fun _ _ _ => le_trans⟩ rows

theorem mem_sorted : a ∈ sorted time priority rows ↔ a ∈ rows := List.mem_insertionSort _

/-- An insertion goes before its equals. -/
theorem filter_orderedInsert {r : α → α → Prop} [DecidableRel r] {p : α → Bool} (a : α)
    (rows : List α) (h : ∀ b, p a = true → p b = true → r a b) :
    (rows.orderedInsert r a).filter p = (a :: rows).filter p := by
  induction rows with
  | nil => rfl
  | cons b rows ih =>
      rw [List.orderedInsert_cons]
      split
      · rfl
      · rename_i hab
        rw [List.filter_cons, ih]
        by_cases hb : p b = true
        · have ha : ¬ p a = true := fun ha => hab (h b ha hb)
          rw [if_pos hb, List.filter_cons_of_neg ha, List.filter_cons_of_neg ha,
            List.filter_cons_of_pos hb]
        · rw [if_neg hb, List.filter_cons, List.filter_cons, List.filter_cons_of_neg hb]

/-- **The sort is stable.** -/
theorem filter_sorted (t : τ) (q : π) :
    (sorted time priority rows).filter (fun b => decide (time b = t ∧ priority b = q)) =
      rows.filter fun b => decide (time b = t ∧ priority b = q) := by
  rw [sorted]
  induction rows with
  | nil => rfl
  | cons a rows ih =>
      rw [List.insertionSort_cons, filter_orderedInsert, List.filter_cons, ih, List.filter_cons]
      intro b ha hb
      obtain ⟨hta, hqa⟩ := of_decide_eq_true ha
      obtain ⟨htb, hqb⟩ := of_decide_eq_true hb
      rw [hta, hqa, htb, hqb]

theorem wins_sorted : Wins time priority (sorted time priority rows) a ↔ Wins time priority rows a := by
  rw [Wins, Wins, filter_sorted]
  simp only [mem_sorted]

/-! ### One row more -/

theorem wins_concat_other (hne : time b ≠ time a) :
    Wins time priority (rows ++ [b]) a ↔ Wins time priority rows a := by
  have hfilter : [b].filter (fun c => decide (time c = time a ∧ priority c = priority a)) = [] := by
    simp [hne]
  rw [Wins, Wins, List.filter_append, hfilter, List.append_nil, and_congr_right_iff]
  intro _
  constructor
  · exact fun hmax c hc => hmax c (List.mem_append_left _ hc)
  · intro hmax c hc heq
    rcases List.mem_append.mp hc with hc | hc
    · exact hmax c hc heq
    · rw [List.mem_singleton.mp hc] at heq
      exact absurd heq hne

/-- A row above those of its time wins it. -/
theorem wins_concat_above (h : ∀ c ∈ rows, time c = time a → priority c < priority a)
    (hb : time b = time a) : Wins time priority (rows ++ [a]) b ↔ b = a := by
  constructor
  · intro hwins
    have hle : priority a ≤ priority b := hwins.2 a (by simp) hb.symm
    rcases List.mem_append.mp hwins.mem with hmem | hmem
    · exact absurd hle (not_le.mpr (h b hmem hb))
    · exact List.mem_singleton.mp hmem
  · rintro rfl
    have hnone : rows.filter (fun c => decide (time c = time b ∧ priority c = priority b)) = [] := by
      refine List.filter_eq_nil_iff.mpr fun c hc => ?_
      simpa using fun heq => (h c hc heq).ne
    refine ⟨?_, fun c hc heq => ?_⟩
    · rw [List.filter_append, hnone, List.nil_append, List.filter_cons_of_pos (by simp),
        List.head?_cons]
    rcases List.mem_append.mp hc with hc | hc
    · exact (h c hc heq).le
    · rw [List.mem_singleton.mp hc]

/-- A row level with the winner of its time changes nothing. -/
theorem wins_concat_level {l : α} (hl : Wins time priority rows l) (htime : time l = time a)
    (hprio : priority l = priority a) :
    Wins time priority (rows ++ [a]) b ↔ Wins time priority rows b := by
  by_cases hb : time b = time a
  case neg => exact wins_concat_other (Ne.symm hb)
  have hself : Wins time priority (rows ++ [a]) l := by
    refine ⟨?_, fun c hc heq => ?_⟩
    · rw [List.filter_append, List.head?_append, hl.1]
      rfl
    · rcases List.mem_append.mp hc with hc | hc
      · exact hl.2 c hc heq
      · rw [List.mem_singleton.mp hc, hprio]
  constructor
  · intro h
    rwa [h.unique hself (hb.trans htime.symm)]
  · intro h
    rwa [h.unique hl (hb.trans htime.symm)]

/-! ### The rows that are kept -/

/-- What is kept of the rows read so far. -/
structure Kept (time : α → τ) (priority : α → π) (rows kept : List α) : Prop where
  strict : kept.Pairwise fun a b => time a < time b
  wins : ∀ a, a ∈ kept ↔ Wins time priority rows a
  covers : ∀ b ∈ rows, ∃ a ∈ kept, time a = time b

theorem Kept.le_last {kept : List α} (h : Kept time priority rows kept) {l : α}
    (hl : kept.getLast? = some l) (hb : b ∈ rows) :
    toLex (time b, priority b) ≤ toLex (time l, priority l) := by
  obtain ⟨a, ha, hat⟩ := h.covers b hb
  obtain ⟨init, rfl⟩ := List.getLast?_eq_some_iff.mp hl
  have hle : priority b ≤ priority a := ((h.wins a).mp ha).2 b hb hat.symm
  rcases List.mem_append.mp ha with ha | ha
  · have hlt := (List.pairwise_append.mp h.strict).2.2 a ha l (by simp)
    exact Prod.Lex.toLex_le_toLex.mpr (Or.inl (hat ▸ hlt))
  · rw [List.mem_singleton.mp ha] at hat hle
    exact Prod.Lex.toLex_le_toLex.mpr (Or.inr ⟨hat.symm, hle⟩)

theorem Kept.push {kept : List α} (h : Kept time priority rows kept)
    (ha : ∀ b ∈ rows, toLex (time b, priority b) ≤ toLex (time a, priority a)) :
    Kept time priority (rows ++ [a]) (push time priority kept a) := by
  cases hlast : kept.getLast? with
  | none =>
      obtain rfl := List.getLast?_eq_none_iff.mp hlast
      have hrows : rows = [] := List.eq_nil_iff_forall_not_mem.mpr fun b hb => by
        obtain ⟨c, hc, -⟩ := h.covers b hb
        cases hc
      subst hrows
      refine ⟨List.pairwise_singleton _ _, fun b => ?_, fun b hb => ⟨a, by simp [Merge.push], ?_⟩⟩
      · by_cases hb : time b = time a
        · rw [wins_concat_above (by simp) hb]
          simp [Merge.push]
        · rw [wins_concat_other (Ne.symm hb), ← h.wins]
          simpa [Merge.push] using fun heq : b = a => hb (congrArg time heq)
      · rw [List.mem_singleton.mp hb]
  | some l =>
      obtain ⟨init, rfl⟩ := List.getLast?_eq_some_iff.mp hlast
      have hlwins := (h.wins l).mp (by simp)
      have hle := ha l hlwins.mem
      have hinit : ∀ b ∈ init, time b < time l := fun b hb =>
        (List.pairwise_append.mp h.strict).2.2 b hb l (by simp)
      rw [Merge.push, hlast]
      dsimp only
      split
      · rename_i htime
        split
        · -- the row takes the place of the last one
          rename_i hprio
          have habove : ∀ c ∈ rows, time c = time a → priority c < priority a := by
            intro c hc hct
            exact (hlwins.2 c hc (hct.trans htime.symm)).trans_lt hprio
          rw [List.dropLast_concat]
          refine ⟨?_, fun b => ?_, fun b hb => ?_⟩
          · refine List.pairwise_append.mpr ⟨(List.pairwise_append.mp h.strict).1,
              List.pairwise_singleton _ _, fun b hb c hc => ?_⟩
            rw [List.mem_singleton.mp hc, ← htime]
            exact hinit b hb
          · by_cases hb : time b = time a
            · rw [wins_concat_above habove hb, List.mem_append, List.mem_singleton]
              exact or_iff_right fun hmem => (hinit b hmem).ne (hb.trans htime.symm)
            · rw [wins_concat_other (Ne.symm hb), ← h.wins, List.mem_append, List.mem_append,
                List.mem_singleton, List.mem_singleton]
              have hbl : b ≠ l := fun heq => hb (heq ▸ htime)
              have hba : b ≠ a := fun heq => hb (congrArg time heq)
              simp [hbl, hba]
          · rcases List.mem_append.mp hb with hb | hb
            · obtain ⟨c, hc, hct⟩ := h.covers b hb
              rcases List.mem_append.mp hc with hc | hc
              · exact ⟨c, List.mem_append_left _ hc, hct⟩
              · rw [List.mem_singleton.mp hc] at hct
                exact ⟨a, by simp, htime.symm.trans hct⟩
            · exact ⟨a, by simp, congrArg time (List.mem_singleton.mp hb).symm⟩
        · -- the last one stays
          rename_i hprio
          have hlevel : priority l = priority a := by
            rcases Prod.Lex.toLex_le_toLex.mp hle with hlt | ⟨-, hle⟩
            · exact absurd htime hlt.ne
            · exact le_antisymm hle (not_lt.mp hprio)
          refine ⟨h.strict, fun b => ?_, fun b hb => ?_⟩
          · rw [wins_concat_level hlwins htime hlevel, h.wins]
          · rcases List.mem_append.mp hb with hb | hb
            · exact h.covers b hb
            · rw [List.mem_singleton.mp hb]
              exact ⟨l, by simp, htime⟩
      · -- a later time
        rename_i htime
        have hlt : time l < time a := by
          rcases Prod.Lex.toLex_le_toLex.mp hle with hlt | ⟨heq, -⟩
          · exact hlt
          · exact absurd heq htime
        have hbefore : ∀ b ∈ rows, time b < time a := by
          intro b hb
          rcases Prod.Lex.toLex_le_toLex.mp (h.le_last hlast hb) with hbl | ⟨hbl, -⟩
          · exact hbl.trans hlt
          · exact hbl.trans_lt hlt
        refine ⟨?_, fun b => ?_, fun b hb => ?_⟩
        · refine List.pairwise_append.mpr ⟨h.strict, List.pairwise_singleton _ _, fun b hb c hc => ?_⟩
          rw [List.mem_singleton.mp hc]
          exact hbefore b ((h.wins b).mp hb).mem
        · by_cases hb : time b = time a
          · rw [wins_concat_above (fun c hc hct => absurd hct (hbefore c hc).ne) hb,
              List.mem_append, List.mem_singleton]
            exact or_iff_right fun hmem => (hbefore b ((h.wins b).mp hmem).mem).ne hb
          · rw [wins_concat_other (Ne.symm hb), ← h.wins, List.mem_append, List.mem_singleton]
            exact or_iff_left fun heq => hb (congrArg time heq)
        · rcases List.mem_append.mp hb with hb | hb
          · obtain ⟨c, hc, hct⟩ := h.covers b hb
            exact ⟨c, List.mem_append_left _ hc, hct⟩
          · exact ⟨a, by simp, congrArg time (List.mem_singleton.mp hb).symm⟩

theorem kept_foldl
    (h : rows.Pairwise fun a b => toLex (time a, priority a) ≤ toLex (time b, priority b)) :
    Kept time priority rows (rows.foldl (push time priority) []) := by
  induction rows using List.reverseRecOn with
  | nil => exact ⟨.nil, fun a => by simp [Wins], fun b hb => by cases hb⟩
  | append_singleton rows a ih =>
      rw [List.foldl_append, List.foldl_cons, List.foldl_nil]
      obtain ⟨hrows, -, hlast⟩ := List.pairwise_append.mp h
      exact (ih hrows).push fun b hb => hlast b hb a (by simp)

/-- The merge stands in strict order of its times. -/
theorem merge_sorted (rows : List α) :
    (merge time priority rows).Pairwise fun a b => time a < time b :=
  (kept_foldl (pairwise_sorted rows)).strict

/-- **The merge holds the winners.** -/
theorem mem_merge : a ∈ merge time priority rows ↔ Wins time priority rows a := by
  rw [← wins_sorted]
  exact (kept_foldl (pairwise_sorted rows)).wins a

theorem nodup_times (h : rows.Pairwise fun a b => time a < time b) : (rows.map time).Nodup :=
  List.pairwise_map.mpr (h.imp fun hlt => hlt.ne)

/-- Rows in strict order of their times are told apart by their members. -/
theorem eq_of_mem_iff {xs ys : List α} (hx : xs.Pairwise fun a b => time a < time b)
    (hy : ys.Pairwise fun a b => time a < time b) (h : ∀ a, a ∈ xs ↔ a ∈ ys) : xs = ys :=
  ((List.perm_ext_iff_of_nodup (nodup_times hx).of_map (nodup_times hy).of_map).mpr h).eq_of_pairwise
    (fun _ _ _ _ hab hba => absurd hab hba.asymm) hx hy

theorem exists_mem_merge (h : b ∈ rows) : ∃ a ∈ merge time priority rows, time a = time b :=
  (kept_foldl (pairwise_sorted rows)).covers b (mem_sorted.mpr h)

theorem filter_eq_singleton (h : rows.Pairwise fun a b => time a < time b) (ha : a ∈ rows) :
    rows.filter (fun b => decide (time b = time a ∧ priority b = priority a)) = [a] := by
  refine eq_of_mem_iff (h.sublist List.filter_sublist) (List.pairwise_singleton _ _) fun b => ?_
  rw [List.mem_filter, List.mem_singleton, decide_eq_true_iff]
  constructor
  · rintro ⟨hb, htime, -⟩
    exact List.inj_on_of_nodup_map (nodup_times h) hb ha htime
  · rintro rfl
    exact ⟨ha, rfl, rfl⟩

/-- Merging in two steps. -/
theorem merge_append (xs ys : List α) :
    merge time priority (merge time priority xs ++ ys) = merge time priority (xs ++ ys) := by
  have hwins : ∀ a, Wins time priority (merge time priority xs ++ ys) a →
      Wins time priority (xs ++ ys) a := by
    rintro a ⟨hhead, hmax⟩
    have hmaxx : ∀ b ∈ xs, time b = time a → priority b ≤ priority a := by
      intro b hb htime
      obtain ⟨w, hw, hwb⟩ : ∃ w ∈ merge time priority xs, time w = time b := exists_mem_merge hb
      exact ((mem_merge.mp hw).2 b hb hwb.symm).trans
        (hmax w (List.mem_append_left _ hw) (hwb.trans htime))
    refine ⟨?_, fun b hb htime => ?_⟩
    · rw [List.filter_append, List.head?_append] at hhead ⊢
      cases hx : (xs.filter fun b => decide (time b = time a ∧ priority b = priority a)).head? with
      | some x =>
          obtain ⟨hxmem, hkey⟩ := List.mem_filter.mp (List.mem_of_head? hx)
          obtain ⟨htime, hprio⟩ := of_decide_eq_true hkey
          have hwinsx : Wins time priority xs x := by
            refine ⟨by rw [htime, hprio]; exact hx, fun b hb hbt => ?_⟩
            rw [hprio]
            exact hmaxx b hb (hbt.trans htime)
          have hsingle : (merge time priority xs).filter (fun b =>
              decide (time b = time x ∧ priority b = priority x)) = [x] :=
            filter_eq_singleton (merge_sorted xs) (mem_merge.mpr hwinsx)
          rw [htime, hprio] at hsingle
          rw [hsingle] at hhead
          exact hhead
      | none =>
          have hnone : ((merge time priority xs).filter fun b =>
              decide (time b = time a ∧ priority b = priority a)) = [] := by
            refine List.filter_eq_nil_iff.mpr fun b hb hkey => ?_
            have hbx := (mem_merge.mp hb).mem
            exact absurd hkey (List.filter_eq_nil_iff.mp (List.head?_eq_none_iff.mp hx) b hbx)
          rw [hnone] at hhead
          exact hhead
    · rcases List.mem_append.mp hb with hb | hb
      · exact hmaxx b hb htime
      · exact hmax b (List.mem_append_right _ hb) htime
  refine eq_of_mem_iff (merge_sorted _) (merge_sorted _) fun a => ?_
  rw [mem_merge, mem_merge]
  refine ⟨hwins a, fun ha => ?_⟩
  obtain ⟨b, hb, hbt⟩ : ∃ b ∈ merge time priority xs ++ ys, time b = time a := by
    rcases List.mem_append.mp ha.mem with hmem | hmem
    · obtain ⟨w, hw, hwa⟩ : ∃ w ∈ merge time priority xs, time w = time a := exists_mem_merge hmem
      exact ⟨w, List.mem_append_left _ hw, hwa⟩
    · exact ⟨a, List.mem_append_right _ hmem, rfl⟩
  obtain ⟨w, hw, hwb⟩ : ∃ w ∈ merge time priority (merge time priority xs ++ ys), time w = time b :=
    exists_mem_merge hb
  have hw := mem_merge.mp hw
  rwa [← (hwins w hw).unique ha (hwb.trans hbt)]

theorem card_times_filter (rows : List α) (p : τ → Prop) [DecidablePred p] :
    ((rows.map time).toFinset.filter p).card =
      ((merge time priority rows).filter fun a => decide (p (time a))).length := by
  have hnodup : ((merge time priority rows).map time).Nodup := nodup_times (merge_sorted rows)
  have htimes : (rows.map time).toFinset = ((merge time priority rows).map time).toFinset := by
    ext t
    simp only [List.mem_toFinset, List.mem_map]
    constructor
    · rintro ⟨b, hb, rfl⟩
      exact exists_mem_merge hb
    · rintro ⟨a, ha, rfl⟩
      exact ⟨a, (mem_merge.mp ha).mem, rfl⟩
  have hfilter : ((merge time priority rows).map time).toFinset.filter p =
      (((merge time priority rows).filter fun a => decide (p (time a))).map time).toFinset := by
    ext t
    simp only [Finset.mem_filter, List.mem_toFinset, List.mem_map, List.mem_filter,
      decide_eq_true_eq]
    constructor
    · rintro ⟨⟨a, ha, rfl⟩, hp⟩
      exact ⟨a, ⟨ha, hp⟩, rfl⟩
    · rintro ⟨a, ⟨ha, hp⟩, rfl⟩
      exact ⟨⟨a, ha, rfl⟩, hp⟩
  rw [htimes, hfilter, List.toFinset_card_of_nodup (hnodup.sublist (List.filter_sublist.map time)),
    List.length_map]

/-- The last `n` rows are those with fewer than `n` later ones. -/
theorem mem_latest {n : ℕ} (h : rows.Pairwise fun a b => time a < time b) :
    a ∈ latest n rows ↔ a ∈ rows ∧ (rows.filter fun b => decide (time a < time b)).length < n := by
  induction rows with
  | nil => simp [latest]
  | cons b rows ih =>
      obtain ⟨hb, hrows⟩ := List.pairwise_cons.mp h
      rcases Nat.lt_or_ge rows.length n with hn | hn
      · -- all of them
        have hall : (b :: rows).length - n = 0 := by
          rw [List.length_cons]
          omega
        rw [latest, hall, List.drop_zero, iff_self_and]
        intro ha
        have hlater : (b :: rows).filter (fun c => decide (time a < time c)) =
            rows.filter fun c => decide (time a < time c) := by
          rw [List.filter_cons_of_neg]
          rcases List.mem_cons.mp ha with rfl | ha
          · simp
          · simpa using (hb a ha).le
        rw [hlater]
        exact (List.length_filter_le _ _).trans_lt hn
      · have hsame : latest n (b :: rows) = latest n rows := by
          rw [latest, List.length_cons, Nat.succ_sub hn, List.drop_succ_cons, latest]
        rw [hsame, ih hrows, List.mem_cons]
        constructor
        · rintro ⟨ha, hlater⟩
          rw [List.filter_cons_of_neg (by simpa using (hb a ha).le)]
          exact ⟨Or.inr ha, hlater⟩
        · rintro ⟨rfl | ha, hlater⟩
          · rw [List.filter_cons_of_neg (by simp), List.filter_eq_self.mpr fun c hc => by
              simpa using hb c hc] at hlater
            exact absurd hlater (not_lt.mpr hn)
          · rw [List.filter_cons_of_neg (by simpa using (hb a ha).le)] at hlater
            exact ⟨ha, hlater⟩

theorem latest_sublist (n : ℕ) (rows : List α) : (latest n rows).Sublist rows := List.drop_sublist _ _

theorem length_latest (n : ℕ) (rows : List α) : (latest n rows).length = min rows.length n := by
  rw [latest, List.length_drop]
  omega

end AiTrader.Merge
