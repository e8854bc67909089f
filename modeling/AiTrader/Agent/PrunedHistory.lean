import AiTrader.Agent.Pruning
import Mathlib.Algebra.BigOperators.Group.Finset.Basic
import Mathlib.Algebra.Order.BigOperators.Group.Finset
import Mathlib.Data.List.GetD

/-! # What pruning keeps

The pruned history consists of whole turn groups in their order, so every tool result in it
follows its call (`pruneMessages_wellFormed`).  The system messages stay, the newest group stays
where it fits beside them, and nothing that `keep` names is dropped where it fits as a whole.

The two loops drop groups from the oldest on until the rest fits (`evict_spec`); what they leave
out is read off from that description alone. -/

namespace AiTrader.Agent

/-! ### The specification -/

/-- A result of the tool stands in the group. -/
def AnswersFor (groups : List (List HistoryMessage)) (name : String) (gi : ℕ) : Prop :=
  ∃ m ∈ groups.getD gi [], m.isTool = true ∧ msgToolName m = some name

/-- The group of the latest result of a named tool. -/
def HasLatest (groups : List (List HistoryMessage)) (gi : ℕ) : Prop :=
  ∃ name, AnswersFor groups name gi ∧ ∀ gj, gi < gj → ¬ AnswersFor groups name gj

/-- The group holds a system message. -/
def HasSystem (groups : List (List HistoryMessage)) (gi : ℕ) : Prop :=
  ∃ m ∈ groups.getD gi [], m.isSystem = true

/-- If the groups that meet `p` fit together, all of them are selected. -/
def SelectsIfFit (groups : List (List HistoryMessage)) (maxMessages : ℤ) (selected : List ℕ)
    (p : ℕ → Prop) : Prop :=
  ∀ wanted : Finset ℕ, (∀ gi, gi ∈ wanted ↔ gi < groups.length ∧ p gi) →
    ((∑ gi ∈ wanted, (groups.getD gi []).length : ℕ) : ℤ) ≤ maxMessages →
    ∀ gi ∈ wanted, gi ∈ selected

/-- A selection of turn groups, by their indices, that pruning may leave. -/
structure PrunedTo (groups : List (List HistoryMessage)) (maxMessages keepRecent : ℤ)
    (selected : List ℕ) : Prop where
  ordered : selected.Sublist (List.range groups.length)
  fits : flatLen groups selected ≤ maxMessages
  system : ∀ gi, HasSystem groups gi → gi ∈ selected
  newest : SelectsIfFit groups maxMessages selected fun gi =>
    HasSystem groups gi ∨ gi + 1 = groups.length
  wanted : SelectsIfFit groups maxMessages selected fun gi =>
    HasSystem groups gi ∨ groups.length ≤ gi + keepRecent ∨ HasLatest groups gi

section
variable {msgs : List HistoryMessage} {groups : List (List HistoryMessage)} {gi : ℕ} {gis : List ℕ}
  {maxMessages keepRecent : ℤ} {stays : ℕ → Bool}

/-! ### Indices of groups -/

theorem map_getD_range (groups : List (List HistoryMessage)) :
    (List.range groups.length).map (fun gi => groups.getD gi []) = groups := by
  apply List.ext_getElem
  · simp
  · intro i _ h
    simp [h]

theorem flatMessages_eq_flatten :
    flatMessages groups gis = (gis.map fun gi => groups.getD gi []).flatten := List.flatMap_def ..

theorem flatMessages_range (groups : List (List HistoryMessage)) :
    flatMessages groups (List.range groups.length) = groups.flatten := by
  rw [flatMessages_eq_flatten, map_getD_range]

theorem flatMessages_sublist (h : gis.Sublist (List.range groups.length)) :
    (flatMessages groups gis).Sublist groups.flatten := by
  rw [← flatMessages_range]
  exact h.flatMap _

theorem length_flatMessages : (flatMessages groups gis).length = flatLen groups gis := by
  unfold flatMessages flatLen
  rw [List.length_flatMap]

theorem mem_of_mem_getD {m : HistoryMessage} (h : m ∈ groups.getD gi []) :
    gi < groups.length ∧ groups.getD gi [] ∈ groups := by
  by_cases hgi : gi < groups.length
  · rw [List.getD_eq_getElem _ _ hgi]
    exact ⟨hgi, List.getElem_mem hgi⟩
  · rw [List.getD_eq_default _ _ (by omega)] at h
    cases h

theorem isTurn_getD (hturns : ∀ g ∈ groups, IsTurn g) (h : gi < groups.length) :
    IsTurn (groups.getD gi []) := by
  rw [List.getD_eq_getElem _ _ h]
  exact hturns _ (List.getElem_mem h)

theorem flatLen_eq_sum (h : gis.Nodup) :
    flatLen groups gis = ∑ gi ∈ gis.toFinset, (groups.getD gi []).length :=
  (List.sum_toFinset _ h).symm

theorem nodup_of_sublist_range {n : ℕ} (h : gis.Sublist (List.range n)) : gis.Nodup :=
  List.nodup_range.sublist h

/-! ### The system groups -/

theorem isSystemGroup_iff (hturns : ∀ g ∈ groups, IsTurn g) :
    isSystemGroup groups gi = true ↔ HasSystem groups gi := by
  unfold isSystemGroup HasSystem
  constructor
  · intro h
    obtain ⟨m, hm, hsystem⟩ := (Option.any_eq_true _ _).mp h
    exact ⟨m, List.mem_of_mem_head? hm, hsystem⟩
  · rintro ⟨m, hm, hsystem⟩
    have hturn := isTurn_getD hturns (mem_of_mem_getD hm).1
    by_contra hno
    have hzero := hturn.countP_system
    rw [if_neg hno, List.countP_eq_zero] at hzero
    exact hzero m hm hsystem

theorem flatLen_system (hturns : ∀ g ∈ groups, IsTurn g) :
    flatLen groups ((List.range groups.length).filter (isSystemGroup groups)) =
      groups.flatten.countP HistoryMessage.isSystem := by
  have hgroup : ∀ gis : List ℕ, (∀ gi ∈ gis, gi < groups.length) →
      flatLen groups (gis.filter (isSystemGroup groups)) =
        (flatMessages groups gis).countP HistoryMessage.isSystem := by
    intro gis hgis
    induction gis with
    | nil => rfl
    | cons gi gis ih =>
        have hturn := (isTurn_getD hturns (hgis gi (by simp))).countP_system
        have ih := ih fun gj hgj => hgis gj (by simp [hgj])
        unfold flatLen flatMessages at *
        rw [List.flatMap_cons, List.countP_append, ← ih, hturn, List.filter_cons]
        unfold isSystemGroup
        split <;> simp
  rw [hgroup _ (by simp), flatMessages_range]

/-! ### The latest result of a tool -/

theorem mem_namedResults {name : String} :
    (name, gi) ∈ namedResults groups ↔ AnswersFor groups name gi := by
  unfold namedResults AnswersFor
  simp only [List.mem_flatMap, List.mem_range, List.mem_filterMap, Option.ite_none_right_eq_some,
    Option.map_eq_some_iff, Prod.mk.injEq]
  constructor
  · rintro ⟨_, -, m, hm, htool, _, hname, rfl, rfl⟩
    exact ⟨m, hm, htool, hname⟩
  · rintro ⟨m, hm, htool, hname⟩
    exact ⟨gi, (mem_of_mem_getD hm).1, m, hm, htool, name, hname, rfl, rfl⟩

theorem namedResults_ordered (groups : List (List HistoryMessage)) :
    (namedResults groups).Pairwise fun a b => a.2 ≤ b.2 := by
  have hsnd : ∀ gi a, a ∈ (groups.getD gi []).filterMap (fun m =>
      if m.isTool then (msgToolName m).map fun name => (name, gi) else none) → a.2 = gi := by
    intro gi a ha
    obtain ⟨m, -, hm⟩ := List.mem_filterMap.mp ha
    simp only [Option.ite_none_right_eq_some, Option.map_eq_some_iff] at hm
    obtain ⟨-, _, -, rfl⟩ := hm
    rfl
  unfold namedResults
  rw [List.pairwise_flatMap]
  constructor
  · intro gi _
    apply List.pairwise_of_forall_mem_list
    intro a ha b hb
    rw [hsnd gi a ha, hsnd gi b hb]
  · apply List.pairwise_lt_range.imp
    intro gi gj hlt a ha b hb
    rw [hsnd gi a ha, hsnd gj b hb]
    omega

theorem mem_latestToolGroup :
    gi ∈ (latestToolGroup groups).rows.map Prod.snd ↔ HasLatest groups gi := by
  have hlast : ∀ name row, (latestToolGroup groups).find? name = some row →
      ∀ gj, AnswersFor groups name gj → gj ≤ row.2 := by
    intro name row hfind gj hgj
    unfold latestToolGroup at hfind
    rw [Table.find?_latest] at hfind
    have hpair := (namedResults_ordered groups).filter fun r => decide (r.1 = name)
    have hmem : (name, gj) ∈ (namedResults groups).filter fun r => decide (r.1 = name) :=
      List.mem_filter.mpr ⟨mem_namedResults.mpr hgj, by simp⟩
    obtain ⟨front, hfront⟩ := List.getLast?_eq_some_iff.mp hfind
    rw [hfront] at hpair hmem
    rcases List.mem_append.mp hmem with hin | hin
    · exact (List.pairwise_append.mp hpair).2.2 _ hin row (by simp)
    · rw [← List.mem_singleton.mp hin]
  constructor
  · intro h
    obtain ⟨⟨name, _⟩, hrow, rfl⟩ := List.mem_map.mp h
    refine ⟨name, mem_namedResults.mp (Table.mem_latest hrow), fun gj hlt hgj => ?_⟩
    have := hlast name _ (Table.find?_of_mem hrow rfl) gj hgj
    omega
  · rintro ⟨name, hname, hmax⟩
    cases hfind : (latestToolGroup groups).find? name with
    | none =>
        unfold latestToolGroup at hfind
        rw [Table.find?_latest, List.getLast?_eq_none_iff, List.filter_eq_nil_iff] at hfind
        exact absurd (decide_eq_true rfl) (hfind (name, gi) (mem_namedResults.mpr hname))
    | some row =>
        have hrow := Table.mem_of_find? hfind
        have hkey : row.1 = name := Table.find?_key hfind
        have hle := hlast name row hfind gi hname
        have hanswers : AnswersFor groups name row.2 := by
          rw [← hkey]
          exact mem_namedResults.mp (Table.mem_latest hrow)
        have hnot : ¬ gi < row.2 := fun hlt => hmax row.2 hlt hanswers
        exact List.mem_map.mpr ⟨row, hrow, by omega⟩

/-! ### The loops that drop groups -/

/-- A loop drops the groups that need not stay from a first part of the indices, the shortest
after which the rest fits. -/
theorem evict_spec (groups : List (List HistoryMessage)) (maxMessages : ℤ) (stays : ℕ → Bool)
    (passed rest : List ℕ) : ∃ pre suf, rest = pre ++ suf ∧
    evict groups maxMessages stays passed rest = passed ++ pre.filter stays ++ suf ∧
    (flatLen groups (passed ++ pre.filter stays ++ suf) ≤ maxMessages ∨ suf = []) ∧
    ∀ front gi back, pre = front ++ gi :: back →
      maxMessages < flatLen groups (passed ++ front.filter stays ++ gi :: (back ++ suf)) := by
  induction rest generalizing passed with
  | nil => exact ⟨[], [], rfl, by simp [evict], .inr rfl, by simp⟩
  | cons gi rest ih =>
      unfold evict
      by_cases hover : maxMessages < flatLen groups (passed ++ gi :: rest)
      · obtain ⟨pre, suf, rfl, hevict, hfits, hover'⟩ := ih (passed ++ [gi].filter stays)
        have hstays : ∀ gis : List ℕ,
            passed ++ (gi :: gis).filter stays = passed ++ [gi].filter stays ++ gis.filter stays := by
          intro gis
          rw [List.append_assoc, ← List.filter_append, List.singleton_append]
        refine ⟨gi :: pre, suf, rfl, ?_, ?_, ?_⟩
        · rw [if_pos hover, hstays, ← hevict]
          cases h : stays gi <;> simp [h]
        · rwa [hstays]
        · intro front gj back hpre
          cases front with
          | nil =>
              obtain ⟨rfl, rfl⟩ := List.cons.inj hpre
              simpa using hover
          | cons _ front =>
              obtain ⟨rfl, hpre'⟩ := List.cons.inj hpre
              rw [hstays]
              exact hover' front gj back hpre'
      · rw [if_neg hover]
        exact ⟨[], gi :: rest, rfl, by simp, .inl (by simpa using hover), by simp⟩

theorem evict_sublist : (evict groups maxMessages stays [] gis).Sublist gis := by
  obtain ⟨pre, suf, rfl, hevict, -, -⟩ := evict_spec groups maxMessages stays [] gis
  rw [hevict]
  exact List.filter_sublist.append_right suf

theorem mem_evict (h : gi ∈ gis) (hstays : stays gi = true) :
    gi ∈ evict groups maxMessages stays [] gis := by
  obtain ⟨pre, suf, rfl, hevict, -, -⟩ := evict_spec groups maxMessages stays [] gis
  rw [hevict]
  simp only [List.nil_append, List.mem_append, List.mem_filter] at h ⊢
  exact h.imp_left fun h => ⟨h, hstays⟩

theorem evict_fits (h : flatLen groups (gis.filter stays) ≤ maxMessages) :
    flatLen groups (evict groups maxMessages stays [] gis) ≤ maxMessages := by
  obtain ⟨pre, suf, rfl, hevict, hfits, -⟩ := evict_spec groups maxMessages stays [] gis
  rw [hevict]
  rcases hfits with hfits | rfl
  · exact hfits
  · simpa using h

/-- The last group is dropped only if it does not fit beside those that stay. -/
theorem last_mem_evict
    (h : flatLen groups (gis.filter stays ++ [gi]) ≤ maxMessages) :
    gi ∈ evict groups maxMessages stays [] (gis ++ [gi]) := by
  obtain ⟨pre, suf, hgis, hevict, hfits, hover⟩ := evict_spec groups maxMessages stays []
    (gis ++ [gi])
  rw [hevict]
  rcases List.eq_nil_or_concat suf with rfl | ⟨suf, last, rfl⟩
  · have := hover gis gi [] (by simpa using hgis.symm)
    simp only [List.nil_append, List.append_nil] at this
    omega
  · rw [List.concat_eq_append, ← List.append_assoc] at hgis
    obtain ⟨-, hlast⟩ := List.append_inj' hgis rfl
    simp [List.singleton_inj.mp hlast]

/-! ### The selected groups -/

/-- The groups in `keep`. -/
def keptGroups (groups : List (List HistoryMessage)) (keepRecent : ℤ) : List ℕ :=
  (List.range groups.length).filter (isKept groups keepRecent)

/-- The indices of the groups whose messages `prune_messages` returns. -/
def selectedGroups (groups : List (List HistoryMessage)) (maxMessages keepRecent : ℤ) : List ℕ :=
  if flatLen groups (List.range groups.length) ≤ maxMessages then List.range groups.length
  else if flatLen groups (keptGroups groups keepRecent) ≤ maxMessages then
    keptGroups groups keepRecent
  else
    evict groups maxMessages (isSystemGroup groups) []
      (evict groups maxMessages (isMandatory groups keepRecent) [] (keptGroups groups keepRecent))

theorem keptGroups_sublist :
    (keptGroups groups keepRecent).Sublist (List.range groups.length) := List.filter_sublist

theorem recentStart_le_iff :
    recentStart groups keepRecent ≤ gi ↔ (groups.length : ℤ) ≤ gi + keepRecent := by
  unfold recentStart
  omega

theorem mem_keptGroups (hturns : ∀ g ∈ groups, IsTurn g) :
    gi ∈ keptGroups groups keepRecent ↔ gi < groups.length ∧
      (HasSystem groups gi ∨ groups.length ≤ gi + keepRecent ∨ HasLatest groups gi) := by
  unfold keptGroups isKept
  rw [List.mem_filter, List.mem_range, Bool.or_eq_true, Bool.or_eq_true, isSystemGroup_iff hturns,
    decide_eq_true_eq, decide_eq_true_eq, mem_latestToolGroup, recentStart_le_iff]
  tauto

theorem selectedGroups_sublist :
    (selectedGroups groups maxMessages keepRecent).Sublist (List.range groups.length) := by
  unfold selectedGroups
  split
  · exact .refl _
  · split
    · exact keptGroups_sublist
    · exact (evict_sublist.trans evict_sublist).trans keptGroups_sublist

theorem mem_selectedGroups (hkept : gi ∈ keptGroups groups keepRecent)
    (h : isSystemGroup groups gi = true) : gi ∈ selectedGroups groups maxMessages keepRecent := by
  unfold selectedGroups
  split
  · exact keptGroups_sublist.subset hkept
  · split
    · exact hkept
    · exact mem_evict (mem_evict hkept (by simp [isMandatory, h])) h

theorem system_mem (hturns : ∀ g ∈ groups, IsTurn g) (h : HasSystem groups gi) :
    gi ∈ selectedGroups groups maxMessages keepRecent := by
  obtain ⟨m, hm, -⟩ := id h
  have hgi := (mem_of_mem_getD hm).1
  exact mem_selectedGroups ((mem_keptGroups hturns).mpr ⟨hgi, .inl h⟩)
    ((isSystemGroup_iff hturns).mpr h)

theorem flatLen_le_of_subset {gjs : List ℕ} (h : gis.Sublist (List.range groups.length))
    (hsub : ∀ gi ∈ gis, gi ∈ gjs) (hgjs : gjs.Nodup) : flatLen groups gis ≤ flatLen groups gjs := by
  rw [flatLen_eq_sum (nodup_of_sublist_range h), flatLen_eq_sum hgjs]
  apply Finset.sum_le_sum_of_subset
  intro gi hgi
  simp only [List.mem_toFinset] at hgi ⊢
  exact hsub gi hgi

theorem selectedGroups_fits (hturns : ∀ g ∈ groups, IsTurn g)
    (hsystem : groups.flatten.countP HistoryMessage.isSystem ≤ maxMessages) :
    flatLen groups (selectedGroups groups maxMessages keepRecent) ≤ maxMessages := by
  unfold selectedGroups
  split
  · assumption
  · split
    · assumption
    · apply evict_fits
      rw [← flatLen_system hturns] at hsystem
      have hsub : (evict groups maxMessages (isMandatory groups keepRecent) []
          (keptGroups groups keepRecent)).Sublist (List.range groups.length) :=
        evict_sublist.trans keptGroups_sublist
      have hle := flatLen_le_of_subset (List.filter_sublist.trans hsub)
        (fun gi hgi => List.mem_filter.mpr
          ⟨hsub.subset (List.mem_of_mem_filter hgi), (List.mem_filter.mp hgi).2⟩)
        (List.nodup_range.filter (isSystemGroup groups))
      omega

/-- The newest group among groups in their order is the last of them. -/
theorem eq_concat_of_newest (hgis : gis.Sublist (List.range groups.length)) (hmem : gi ∈ gis)
    (hnewest : gi + 1 = groups.length) : ∃ front, gis = front ++ [gi] := by
  rcases List.eq_nil_or_concat gis with rfl | ⟨front, last, rfl⟩
  · cases hmem
  · rw [List.concat_eq_append] at hgis hmem ⊢
    refine ⟨front, ?_⟩
    rcases List.mem_append.mp hmem with hin | hin
    · have hlt : gi < last := (List.pairwise_append.mp
        (List.pairwise_lt_range.sublist hgis)).2.2 gi hin last (List.mem_singleton_self last)
      have := List.mem_range.mp (hgis.subset (List.mem_append_right front (List.mem_singleton_self last)))
      omega
    · rw [List.mem_singleton.mp hin]

theorem newest_selected (hturns : ∀ g ∈ groups, IsTurn g) (hrecent : 1 ≤ keepRecent) :
    SelectsIfFit groups maxMessages (selectedGroups groups maxMessages keepRecent) fun gi =>
      HasSystem groups gi ∨ gi + 1 = groups.length := by
  intro wanted hwanted hfit gi hgi
  obtain ⟨hlt, hsystem | hnewest⟩ := (hwanted gi).mp hgi
  · exact system_mem hturns hsystem
  · have hrecently : recentStart groups keepRecent ≤ gi := by
      rw [recentStart_le_iff]
      omega
    have hkept : gi ∈ keptGroups groups keepRecent :=
      (mem_keptGroups hturns).mpr ⟨hlt, .inr (.inl (recentStart_le_iff.mp hrecently))⟩
    unfold selectedGroups
    split
    · exact List.mem_range.mpr hlt
    · split
      · exact hkept
      · have hsub : (evict groups maxMessages (isMandatory groups keepRecent) []
            (keptGroups groups keepRecent)).Sublist (List.range groups.length) :=
          evict_sublist.trans keptGroups_sublist
        have hmem : gi ∈ evict groups maxMessages (isMandatory groups keepRecent) []
            (keptGroups groups keepRecent) := mem_evict hkept (by simp [isMandatory, hrecently])
        obtain ⟨front, hfront⟩ := eq_concat_of_newest hsub hmem hnewest
        rw [hfront] at hsub ⊢
        apply last_mem_evict
        -- beside the newest group only system groups are left
        have hleft : (front.filter (isSystemGroup groups) ++ [gi]).Sublist
            (List.range groups.length) := (List.filter_sublist.append_right [gi]).trans hsub
        have hin : ∀ gj ∈ front.filter (isSystemGroup groups) ++ [gi], gj ∈ wanted.toList := by
          intro gj hgj
          rw [Finset.mem_toList, hwanted]
          refine ⟨List.mem_range.mp (hleft.subset hgj), ?_⟩
          rcases List.mem_append.mp hgj with hgj | hgj
          · exact .inl ((isSystemGroup_iff hturns).mp (List.mem_filter.mp hgj).2)
          · exact .inr (by rwa [List.mem_singleton.mp hgj])
        have hle := flatLen_le_of_subset hleft hin wanted.nodup_toList
        rw [flatLen_eq_sum wanted.nodup_toList, Finset.toList_toFinset] at hle
        omega

theorem wanted_selected (hturns : ∀ g ∈ groups, IsTurn g) :
    SelectsIfFit groups maxMessages (selectedGroups groups maxMessages keepRecent) fun gi =>
      HasSystem groups gi ∨ groups.length ≤ gi + keepRecent ∨ HasLatest groups gi := by
  intro wanted hwanted hfit gi hgi
  have heq : (keptGroups groups keepRecent).toFinset = wanted := by
    ext gj
    rw [List.mem_toFinset, hwanted, mem_keptGroups hturns]
  rw [← heq, ← flatLen_eq_sum (nodup_of_sublist_range keptGroups_sublist)] at hfit
  rw [← heq, List.mem_toFinset] at hgi
  unfold selectedGroups
  rw [if_pos hfit]
  split
  · exact keptGroups_sublist.subset hgi
  · exact hgi

/-- What pruning leaves is a selection that the specification allows. -/
theorem selectedGroups_pruned (hturns : ∀ g ∈ groups, IsTurn g) (hrecent : 1 ≤ keepRecent)
    (hsystem : groups.flatten.countP HistoryMessage.isSystem ≤ maxMessages) :
    PrunedTo groups maxMessages keepRecent (selectedGroups groups maxMessages keepRecent) where
  ordered := selectedGroups_sublist
  fits := selectedGroups_fits hturns hsystem
  system _ h := system_mem hturns h
  newest := newest_selected hturns hrecent
  wanted := wanted_selected hturns

/-- Where the system messages fit the last resort, a slice of the result, is not reached. -/
theorem pruneTo_eq (hans : Answered msgs)
    (hsystem : msgs.countP HistoryMessage.isSystem ≤ maxMessages) :
    pruneTo msgs maxMessages keepRecent =
      flatMessages (groupMessages msgs) (selectedGroups (groupMessages msgs) maxMessages keepRecent)
    := by
  have hfits : flatLen (groupMessages msgs)
      (selectedGroups (groupMessages msgs) maxMessages keepRecent) ≤ maxMessages := by
    apply selectedGroups_fits (isTurn_of_mem_groupMessages hans)
    rwa [groupMessages_flatten]
  have hall : flatLen (groupMessages msgs) (List.range (groupMessages msgs).length) = msgs.length := by
    rw [← length_flatMessages, flatMessages_range, groupMessages_flatten]
  unfold selectedGroups keptGroups at hfits ⊢
  unfold pruneTo
  rw [hall] at hfits ⊢
  by_cases hshort : (msgs.length : ℤ) ≤ maxMessages
  · rw [if_pos hshort, if_pos hshort, flatMessages_range, groupMessages_flatten]
  · rw [if_neg hshort] at hfits ⊢
    rw [if_neg hshort]
    dsimp only
    split
    · rfl
    · rename_i hkept
      rw [if_neg hkept, ← length_flatMessages] at hfits
      rw [if_neg (by omega)]

theorem pruneBound_pos {value : PyVal} {default bound : ℤ}
    (h : pruneBound value default = some bound) (hdefault : 1 ≤ default) : 1 ≤ bound := by
  unfold pruneBound pruneMin at h
  obtain ⟨n, -, hn⟩ := Option.bind_eq_some_iff.mp h
  have := Option.some.inj hn
  split at this <;> omega

/-- With the bounds that the code reads from its configuration, pruning gives a well-formed
history. -/
theorem pruneMessages_wellFormed {cfg : PruneConfig}
    (hmax : pruneBound cfg.pruneMaxMessages defaultPruneMaxMessages = some maxMessages)
    (hrecent : pruneBound cfg.pruneKeepRecentTurns defaultPruneKeepRecentTurns = some keepRecent)
    (hans : Answered msgs) (hsystem : msgs.countP HistoryMessage.isSystem ≤ maxMessages) :
    ∃ groups selected, groups.flatten = msgs ∧ (∀ g ∈ groups, IsTurn g) ∧
      PrunedTo groups maxMessages keepRecent selected ∧
      pruneMessages msgs cfg = some (flatMessages groups selected) ∧
      (flatMessages groups selected).Sublist msgs ∧
      (flatMessages groups selected).length ≤ maxMessages ∧
      Answered (flatMessages groups selected) := by
  have hturns := isTurn_of_mem_groupMessages hans
  have hpruned : PrunedTo (groupMessages msgs) maxMessages keepRecent
      (selectedGroups (groupMessages msgs) maxMessages keepRecent) := by
    apply selectedGroups_pruned hturns (pruneBound_pos hrecent (by decide))
    rwa [groupMessages_flatten]
  refine ⟨_, _, groupMessages_flatten msgs, hturns, hpruned, ?_, ?_, ?_, ?_⟩
  · unfold pruneMessages
    rw [hmax, hrecent]
    exact congrArg some (pruneTo_eq hans hsystem)
  · simpa [groupMessages_flatten] using flatMessages_sublist hpruned.ordered
  · rw [length_flatMessages]
    exact hpruned.fits
  · rw [flatMessages_eq_flatten]
    apply answered_flatten
    intro g hg
    obtain ⟨gi, hgi, rfl⟩ := List.mem_map.mp hg
    exact isTurn_getD hturns (List.mem_range.mp (hpruned.ordered.subset hgi))

end

/-! ### A history of eight messages -/

def sampleMessage (type : String) (calls : Bool) (name : Option String) : HistoryMessage :=
  ⟨some type, calls, false, name, ""⟩

/-- A question, then the calls of `quotes`, `news` and `quotes` again. -/
def sampleTurns : List (List HistoryMessage) :=
  [[sampleMessage "system" false none], [sampleMessage "human" false none],
    [sampleMessage "ai" true none, sampleMessage "tool" false (some "quotes")],
    [sampleMessage "ai" true none, sampleMessage "tool" false (some "news")],
    [sampleMessage "ai" true none, sampleMessage "tool" false (some "quotes")]]

theorem sampleTurns_answered : Answered sampleTurns.flatten := by
  apply answered_flatten
  intro g hg
  simp only [sampleTurns, List.mem_cons, List.not_mem_nil, or_false] at hg
  rcases hg with rfl | rfl | rfl | rfl | rfl <;>
    exact .intro _ _ (by decide) (by decide) (by decide)

theorem pruneMessages_wellFormed_sample : ∃ groups selected,
    groups.flatten = sampleTurns.flatten ∧ (∀ g ∈ groups, IsTurn g) ∧
      PrunedTo groups 5 1 selected ∧
      pruneMessages sampleTurns.flatten ⟨.int 5, .int 1⟩ = some (flatMessages groups selected) ∧
      (flatMessages groups selected).Sublist sampleTurns.flatten ∧
      ((flatMessages groups selected).length : ℤ) ≤ 5 ∧ Answered (flatMessages groups selected) :=
  pruneMessages_wellFormed (by decide +kernel) (by decide +kernel) sampleTurns_answered
    (by decide +kernel)

/-- A ceiling of zero reads as the default, so one message stays. -/
theorem pruneMessages_zero_keeps : Answered [sampleMessage "human" false none] ∧
    (([sampleMessage "human" false none].countP HistoryMessage.isSystem : ℕ) : ℤ) ≤ 0 ∧
    pruneMessages [sampleMessage "human" false none] ⟨.int 0, .int 8⟩ =
      some [sampleMessage "human" false none] ∧
    ¬ (([sampleMessage "human" false none].length : ℕ) : ℤ) ≤ 0 :=
  ⟨answered_concat.mpr ⟨answered_nil, fun h => absurd h (by decide)⟩, by decide,
    by decide +kernel, by decide⟩

end AiTrader.Agent
