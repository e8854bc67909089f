import AiTrader.OptionChain.Selector

/-! # What ingestion was last told

The decision to push compares ATM strikes only, while the expiries of a selection also change
with the date and with the instrument lists.  After a cycle the selection last pushed for an
underlying is the one of the cycle as far as its expiries go (`Fresh`) exactly when every change
of the expiries came with a move of the ATM strike (`Recentered`). -/

namespace AiTrader.OptionChain

section
variable {R : Runtime} {cfg : SelectorConfig} {c : Cycle} {spots : String → Option F64}
  {s t : State} {name configured : String} {sel p : ChainSelection}

/-! ### The selection of a name -/

theorem selectionFor_underlying (h : selectionFor R cfg c spots configured = some sel) :
    sel.underlying = nfoName R configured := by
  unfold selectionFor at h
  dsimp only at h
  split at h
  · cases h
  split at h
  · cases h
  split at h
  · cases h
  · cases h
    exact buildChainSelection_underlying _ _

theorem today_le_of_selectionFor (h : selectionFor R cfg c spots configured = some sel)
    {exp : Date} (hexp : exp ∈ sel.expiries) : c.today ≤ exp := by
  unfold selectionFor at h
  dsimp only at h
  split at h
  · cases h
  split at h
  · cases h
  split at h
  · cases h
  · cases h
    exact today_le_of_mem_expiries hexp

/-- One turn pushes the selection it built, or changes nothing because there was none or its
ATM strike had not moved. -/
theorem evaluate_cases (R : Runtime) (cfg : SelectorConfig) (c : Cycle)
    (spots : String → Option F64) (s : State) (configured : String) :
    (s.evaluate R cfg c spots configured = s ∧
      ∀ sel, selectionFor R cfg c spots configured = some sel → sel.entries ≠ [] →
        s.shouldPush R cfg (nfoName R configured) sel = false) ∨
    ∃ sel, selectionFor R cfg c spots configured = some sel ∧ sel.entries ≠ [] ∧
      s.shouldPush R cfg (nfoName R configured) sel = true ∧
      s.evaluate R cfg c spots configured = s.push (nfoName R configured) sel := by
  unfold State.evaluate
  dsimp only
  cases hsel : selectionFor R cfg c spots configured with
  | none => exact .inl ⟨rfl, by simp⟩
  | some sel =>
      dsimp only
      split
      · rename_i hempty
        refine .inl ⟨rfl, fun sel' h hne => ?_⟩
        cases h
        exact absurd (List.isEmpty_iff.mp hempty) hne
      · rename_i hempty
        rw [List.isEmpty_iff] at hempty
        split
        · rename_i hpush
          exact .inr ⟨sel, rfl, hempty, hpush, rfl⟩
        · rename_i hpush
          refine .inl ⟨rfl, fun sel' h _ => ?_⟩
          cases h
          exact eq_false_of_ne_true hpush

/-! ### The memory -/

/-- The ATM strike remembered for a name is that of the selection last pushed for it. -/
def State.Remembers (s : State) : Prop :=
  ∀ name, s.lastAtm.lookup name = (s.lastPushed name).map ChainSelection.atmStrike

theorem lastPushed_push_self (h : sel.underlying = name) :
    (s.push name sel).lastPushed name = some sel := by
  simp [State.lastPushed, State.push, h]

theorem lastPushed_push_of_ne (h : sel.underlying ≠ name) (other : String) :
    (s.push other sel).lastPushed name = s.lastPushed name := by
  simp [State.lastPushed, State.push, h]

theorem Remembers_init : State.Remembers {} := by
  intro name
  simp [State.lastPushed]

theorem State.Remembers.push (hs : s.Remembers) (h : sel.underlying = name) :
    (s.push name sel).Remembers := by
  intro other
  by_cases ho : other = name
  · subst ho
    rw [lastPushed_push_self h, Option.map_some]
    exact Finmap.lookup_insert _
  · rw [lastPushed_push_of_ne (by rw [h]; exact Ne.symm ho), ← hs other]
    exact Finmap.lookup_insert_of_ne _ ho

theorem State.Remembers.evaluate (hs : s.Remembers) :
    (s.evaluate R cfg c spots configured).Remembers := by
  rcases evaluate_cases R cfg c spots s configured with ⟨heq, -⟩ | ⟨sel, hsel, -, -, heq⟩
  · rw [heq]
    exact hs
  · rw [heq]
    exact hs.push (selectionFor_underlying hsel)

theorem State.Remembers.foldl_evaluate (hs : s.Remembers) (us : List String) :
    (us.foldl (State.evaluate R cfg c spots) s).Remembers := by
  induction us generalizing s with
  | nil => exact hs
  | cons u us ih => exact ih hs.evaluate

theorem State.Remembers.cycle (hs : s.Remembers) : (s.cycle R cfg c).Remembers := by
  unfold State.cycle
  split
  · exact hs
  · split
    · exact hs
    · exact hs.foldl_evaluate _

theorem shouldPush_eq_false (hs : s.Remembers) : s.shouldPush R cfg name sel = false ↔
    ∃ p, s.lastPushed name = some p ∧
      shouldRecenter R.rnd p.atmStrike sel.atmStrike cfg.chain.recenterThreshold = false := by
  unfold State.shouldPush
  rw [hs name]
  cases s.lastPushed name with
  | none => simp
  | some p => simp

/-! ### One pass over the configured underlyings -/

/-- A configured underlying of the list selects `sel` under `name`. -/
def Offered (R : Runtime) (cfg : SelectorConfig) (c : Cycle) (spots : String → Option F64)
    (us : List String) (name : String) (sel : ChainSelection) : Prop :=
  ∃ u ∈ us, nfoName R u = name ∧ selectionFor R cfg c spots u = some sel ∧ sel.entries ≠ []

theorem Offered.append_left {us vs : List String} (h : Offered R cfg c spots us name sel) :
    Offered R cfg c spots (us ++ vs) name sel := by
  obtain ⟨u, hu, hname, hsel, hne⟩ := h
  exact ⟨u, List.mem_append_left vs hu, hname, hsel, hne⟩

/-- The pass leaves `name` alone because nothing offered under it has moved, or it ends with
one of the offered selections as the last one pushed, and the first it pushed had moved. -/
theorem foldl_evaluate_cases (hs : s.Remembers) (us : List String) (name : String) :
    let t := us.foldl (State.evaluate R cfg c spots) s
    (t.lastPushed name = s.lastPushed name ∧
      ∀ sel, Offered R cfg c spots us name sel → s.shouldPush R cfg name sel = false) ∨
    ((∃ sel, Offered R cfg c spots us name sel ∧ t.lastPushed name = some sel) ∧
      ∃ sel, Offered R cfg c spots us name sel ∧ s.shouldPush R cfg name sel = true) := by
  induction us using List.reverseRecOn with
  | nil =>
      refine .inl ⟨rfl, ?_⟩
      rintro sel ⟨u, hu, -⟩
      cases hu
  | append_singleton us u ih =>
      have ht : (us.foldl (State.evaluate R cfg c spots) s).Remembers := hs.foldl_evaluate us
      simp only [List.foldl_append, List.foldl_cons, List.foldl_nil] at ih ⊢
      set t := us.foldl (State.evaluate R cfg c spots) s with htdef
      by_cases hname : nfoName R u = name
      · have hlast : ∀ sel, selectionFor R cfg c spots u = some sel → sel.entries ≠ [] →
            Offered R cfg c spots (us ++ [u]) name sel :=
          fun sel hsel hne => ⟨u, List.mem_append_right us List.mem_cons_self, hname, hsel, hne⟩
        rcases evaluate_cases R cfg c spots t u with ⟨heq, hkept⟩ | ⟨sel, hsel, hne, hpush, heq⟩
        · rw [heq]
          rcases ih with ⟨hsame, hheld⟩ | ⟨⟨sel, hsel, hpushed⟩, sel', hsel', hmoved⟩
          · refine .inl ⟨hsame, ?_⟩
            rintro sel ⟨v, hv, hvname, hvsel, hvne⟩
            rcases List.mem_append.mp hv with hv | hv
            · exact hheld sel ⟨v, hv, hvname, hvsel, hvne⟩
            · rw [List.mem_singleton.mp hv] at hvsel
              have hheldu := hkept sel hvsel hvne
              rw [hname, shouldPush_eq_false ht, hsame, ← shouldPush_eq_false hs] at hheldu
              exact hheldu
          · exact .inr ⟨⟨sel, hsel.append_left, hpushed⟩, sel', hsel'.append_left, hmoved⟩
        · rw [heq, hname]
          have hunder : sel.underlying = name := (selectionFor_underlying hsel).trans hname
          refine .inr ⟨⟨sel, hlast sel hsel hne, lastPushed_push_self hunder⟩, ?_⟩
          rcases ih with ⟨hsame, -⟩ | ⟨-, sel', hsel', hmoved⟩
          · -- nothing was pushed before this turn, so the state at its start decides
            refine ⟨sel, hlast sel hsel hne, ?_⟩
            by_contra hheld
            rw [Bool.not_eq_true, shouldPush_eq_false hs, ← hsame,
              ← shouldPush_eq_false ht, ← hname] at hheld
            rw [hheld] at hpush
            cases hpush
          · exact ⟨sel', hsel'.append_left, hmoved⟩
      · have hother : (t.evaluate R cfg c spots u).lastPushed name = t.lastPushed name := by
          rcases evaluate_cases R cfg c spots t u with ⟨heq, -⟩ | ⟨sel, hsel, -, -, heq⟩
          · rw [heq]
          · rw [heq, lastPushed_push_of_ne]
            rw [selectionFor_underlying hsel]
            exact hname
        rw [hother]
        rcases ih with ⟨hsame, hheld⟩ | ⟨⟨sel, hsel, hpushed⟩, sel', hsel', hmoved⟩
        · refine .inl ⟨hsame, ?_⟩
          rintro sel ⟨v, hv, hvname, hvsel, hvne⟩
          rcases List.mem_append.mp hv with hv | hv
          · exact hheld sel ⟨v, hv, hvname, hvsel, hvne⟩
          · rw [List.mem_singleton.mp hv] at hvname
            exact absurd hvname hname
        · exact .inr ⟨⟨sel, hsel.append_left, hpushed⟩, sel', hsel'.append_left, hmoved⟩

/-! ### One cycle -/

/-- In a cycle that comes to the underlyings, what a name selects is what is offered under it. -/
theorem selects_iff_offered (hm : (masters R cfg c).all (fun m => m.2.isEmpty) = false)
    (hspots : c.lastPrices = some spots) :
    (∃ u, Selects R cfg c u sel ∧ nfoName R u = name) ↔
      Offered R cfg c spots cfg.underlyings name sel := by
  constructor
  · rintro ⟨u, ⟨hu, -, spots', hspots', hsel, hne⟩, hname⟩
    rw [hspots, Option.some.injEq] at hspots'
    subst hspots'
    exact ⟨u, hu, hname, hsel, hne⟩
  · rintro ⟨u, hu, hname, hsel, hne⟩
    exact ⟨u, ⟨hu, hm, spots, hspots, hsel, hne⟩, hname⟩

theorem Selects.underlying (h : Selects R cfg c configured sel) :
    sel.underlying = nfoName R configured := by
  obtain ⟨-, -, spots, -, hsel, -⟩ := h
  exact selectionFor_underlying hsel

/-- A cycle leaves a name alone because nothing selected under it has moved, or it ends with a
selection of the cycle as the last one pushed, and one of them had moved. -/
theorem cycle_cases (hs : s.Remembers) (c : Cycle) (name : String) :
    ((s.cycle R cfg c).lastPushed name = s.lastPushed name ∧
      ∀ u sel, Selects R cfg c u sel → nfoName R u = name →
        s.shouldPush R cfg name sel = false) ∨
    ((∃ u sel, Selects R cfg c u sel ∧ nfoName R u = name ∧
        (s.cycle R cfg c).lastPushed name = some sel) ∧
      ∃ u sel, Selects R cfg c u sel ∧ nfoName R u = name ∧
        s.shouldPush R cfg name sel = true) := by
  unfold State.cycle
  cases hm : (masters R cfg c).all (fun m => m.2.isEmpty) with
  | true =>
      refine .inl ⟨by rw [if_pos rfl], ?_⟩
      rintro u sel ⟨-, hm', -⟩
      rw [hm] at hm'
      cases hm'
  | false =>
      rw [if_neg Bool.false_ne_true]
      cases hspots : c.lastPrices with
      | none =>
          refine .inl ⟨rfl, ?_⟩
          rintro u sel ⟨-, -, spots, hspots', -⟩
          rw [hspots] at hspots'
          cases hspots'
      | some spots =>
          have hiff : ∀ sel, (∃ u, Selects R cfg c u sel ∧ nfoName R u = name) ↔
              Offered R cfg c spots cfg.underlyings name sel :=
            fun sel => selects_iff_offered hm hspots
          rcases @foldl_evaluate_cases R cfg c spots s hs cfg.underlyings name with
            ⟨hsame, hheld⟩ | ⟨⟨sel, hsel, hpushed⟩, sel', hsel', hmoved⟩
          · exact .inl ⟨hsame, fun u sel hu hname => hheld sel ((hiff sel).mp ⟨u, hu, hname⟩)⟩
          · obtain ⟨u, hu, hname⟩ := (hiff sel).mpr hsel
            obtain ⟨u', hu', hname'⟩ := (hiff sel').mpr hsel'
            exact .inr ⟨⟨u, sel, hu, hname, hpushed⟩, u', sel', hu', hname', hmoved⟩

end

section
variable (R : Runtime) (cfg : SelectorConfig)

/-- After cycle `c`, taken from `s`: for every underlying that selected something in the cycle,
the selection last pushed has no instrument that expired before the cycle's date, and the
expiries of the cycle's selection. -/
def Fresh (s : State) (c : Cycle) : Prop :=
  ∀ configured sel, Selects R cfg c configured sel →
    ∃ p, (s.cycle R cfg c).lastPushed (nfoName R configured) = some p ∧
      (∀ e ∈ p.entries, c.today ≤ e.expiry) ∧ p.expiries = sel.expiries

/-- Configured underlyings with one name select the same expiries in the cycle, and where these
are not the expiries last pushed, one of their ATM strikes has moved by at least the threshold
since that push. -/
def Recentered (s : State) (c : Cycle) : Prop :=
  ∀ configured sel, Selects R cfg c configured sel →
    (∀ other sel', Selects R cfg c other sel' → nfoName R other = nfoName R configured →
      sel'.expiries = sel.expiries) ∧
    ∀ p, s.lastPushed (nfoName R configured) = some p → p.expiries ≠ sel.expiries →
      ∃ other sel', Selects R cfg c other sel' ∧ nfoName R other = nfoName R configured ∧
        shouldRecenter R.rnd p.atmStrike sel'.atmStrike cfg.chain.recenterThreshold = true

/-- The loop after the given cycles. -/
def run (cycles : List Cycle) : State := cycles.foldl (State.cycle R cfg) {}

variable {R cfg} {s : State} {c : Cycle}

theorem Remembers_run (cycles : List Cycle) : (run R cfg cycles).Remembers := by
  induction cycles using List.reverseRecOn with
  | nil => exact Remembers_init
  | append_singleton cycles c ih =>
      rw [run, List.foldl_append]
      exact ih.cycle

theorem Selects.today_le {configured : String} {sel : ChainSelection}
    (h : Selects R cfg c configured sel) {exp : Date} (hexp : exp ∈ sel.expiries) :
    c.today ≤ exp := by
  obtain ⟨-, -, spots, -, hsel, -⟩ := h
  exact today_le_of_selectionFor hsel hexp

/-- **One cycle.** -/
theorem fresh_iff_recentered_of (hs : s.Remembers) : Fresh R cfg s c ↔ Recentered R cfg s c := by
  constructor
  · intro hfresh configured sel hsel
    obtain ⟨q, hq, -, hqexp⟩ := hfresh configured sel hsel
    refine ⟨fun other sel' hsel' hname => ?_, fun p hp hne => ?_⟩
    · obtain ⟨q', hq', -, hqexp'⟩ := hfresh other sel' hsel'
      rw [hname, hq, Option.some.injEq] at hq'
      rw [← hqexp', ← hq', hqexp]
    · rcases @cycle_cases R cfg s hs c (nfoName R configured) with
        ⟨hsame, -⟩ | ⟨-, u, sel', hu, hname, hmoved⟩
      · rw [hsame, hp, Option.some.injEq] at hq
        rw [hq] at hne
        exact absurd hqexp hne
      · refine ⟨u, sel', hu, hname, ?_⟩
        by_contra hheld
        rw [Bool.not_eq_true] at hheld
        rw [(shouldPush_eq_false hs).mpr ⟨p, hp, hheld⟩] at hmoved
        cases hmoved
  · intro hrec configured sel hsel
    obtain ⟨hagree, hmoved⟩ := hrec configured sel hsel
    have hlive : ∀ p : ChainSelection, p.expiries = sel.expiries →
        ∀ e ∈ p.entries, c.today ≤ e.expiry := by
      intro p hp e he
      refine hsel.today_le ?_
      rw [← hp, ChainSelection.expiries, List.mem_toFinset]
      exact List.mem_map_of_mem he
    rcases @cycle_cases R cfg s hs c (nfoName R configured) with
      ⟨hsame, hheld⟩ | ⟨⟨u, sel', hu, hname, hpushed⟩, -⟩
    · -- nothing was pushed, so what was pushed before must have had these expiries
      obtain ⟨p, hp, -⟩ := (shouldPush_eq_false hs).mp (hheld configured sel hsel rfl)
      have hexp : p.expiries = sel.expiries := by
        by_contra hne
        obtain ⟨other, sel', hsel', hname, hrecenter⟩ := hmoved p hp hne
        obtain ⟨p', hp', hstill⟩ := (shouldPush_eq_false hs).mp (hheld other sel' hsel' hname)
        rw [hp, Option.some.injEq] at hp'
        rw [← hp', hrecenter] at hstill
        cases hstill
      exact ⟨p, hsame.trans hp, hlive p hexp, hexp⟩
    · have hexp := hagree u sel' hu hname
      exact ⟨sel', hpushed, hlive sel' hexp, hexp⟩

end

/-- **The pushed chain is fresh exactly as long as the expiries move with the ATM strike.**  Of
any sequence of cycles: after every cycle what ingestion was last told has the expiries of the
cycle's selections, none of them past, if and only if in every cycle each change of an
underlying's expiries comes with a move of its ATM strike by at least the threshold. -/
theorem fresh_iff_recentered (R : Runtime) (cfg : SelectorConfig) (cycles : List Cycle) :
    (∀ pre c, pre ++ [c] <+: cycles → Fresh R cfg (run R cfg pre) c) ↔
      ∀ pre c, pre ++ [c] <+: cycles → Recentered R cfg (run R cfg pre) c :=
  forall₂_congr fun pre _ => imp_congr_right fun _ => fresh_iff_recentered_of (Remembers_run pre)

/-! ### An expiry with the spot price at rest -/

/-- Exact arithmetic, and the two dates of the example. -/
def exampleRuntime : Runtime where
  casing := Text.Casing.ascii
  parseDate text :=
    if text = "2024-01-25" then some 19747 else if text = "2024-02-01" then some 19754 else none
  sort := StrikeSort.merge
  rnd := F64.fin

/-- One underlying, its nearest expiry, a threshold of one strike point. -/
def exampleConfig : SelectorConfig := ⟨["ITC"], ⟨1, 10, .fin 1, 60⟩⟩

/-- A cycle of the given day: calls of two expiries at 440, and the spot price there. -/
def quietCycle (today : Date) : Cycle where
  today := today
  instrumentsFor _ := some [⟨1, "ITC24JAN440CE", "ITC", "2024-01-25", .fin 440, "CE"⟩,
    ⟨2, "ITC24FEB440CE", "ITC", "2024-02-01", .fin 440, "CE"⟩]
  lastPrices := some fun key => if key = "NSE:ITC" then some (.fin 440) else none

/-- The day after the first expiry ingestion still follows the expired contract. -/
theorem quiet_expiry_not_fresh : ¬ ∀ (R : Runtime) (cfg : SelectorConfig) (cycles : List Cycle),
    (cycles.map Cycle.today).Pairwise (· ≤ ·) →
      ∀ pre c, pre ++ [c] <+: cycles → Fresh R cfg (run R cfg pre) c := by
  intro hall
  have hfresh := hall exampleRuntime exampleConfig [quietCycle 19747, quietCycle 19748]
    (by decide) [quietCycle 19747] (quietCycle 19748) (List.prefix_refl _)
  have hsel : selectionFor exampleRuntime exampleConfig (quietCycle 19748)
      (fun key => if key = "NSE:ITC" then some (.fin 440) else none) "ITC" =
        some ⟨"ITC", .fin 440, [⟨2, "ITC24FEB440CE", "ITC", 19754, .fin 440, .ce⟩]⟩ := by
    decide +kernel
  have hpushed : ((run exampleRuntime exampleConfig [quietCycle 19747]).cycle exampleRuntime
      exampleConfig (quietCycle 19748)).lastPushed (nfoName exampleRuntime "ITC") =
        some ⟨"ITC", .fin 440, [⟨1, "ITC24JAN440CE", "ITC", 19747, .fin 440, .ce⟩]⟩ := by
    decide +kernel
  have hmasters : (masters exampleRuntime exampleConfig (quietCycle 19748)).all
      (fun m => m.2.isEmpty) = false := by
    decide +kernel
  obtain ⟨p, hp, hlive, -⟩ := hfresh "ITC" _
    ⟨List.mem_cons_self, hmasters, _, rfl, hsel, List.cons_ne_nil _ _⟩
  rw [hpushed, Option.some.injEq] at hp
  rw [← hp] at hlive
  exact absurd (hlive _ List.mem_cons_self) (by decide)

end AiTrader.OptionChain
