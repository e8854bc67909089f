import AiTrader.Ingestion.Control
import AiTrader.Library.Transition

/-! # Who owns a subscription

What the service should be subscribed to is a function of the commands it was given: the
tokens named in `subscribe` commands and, for each underlying, the tokens of its last
`option_chain_set`.  `Consistent` compares the shared maps with that.

The difference taken by `option_chain_set` is per underlying while the maps are shared, so a
token that leaves one selection is dropped for everybody.  A run keeps the maps consistent
exactly when no command drops a token that somebody else still owns
(`consistent_iff_owned`). -/

namespace AiTrader.Ingestion

open Transition

section
variable (C : Text.Casing) (fromStr : String → Option OptionChainSetCmd)

/-! ### What the commands ask for -/

/-- The line an event delivers. -/
def Event.controlLine : Event → ControlLine
  | .line text => parseControlLine C fromStr text
  | _ => .empty

/-- `token` is named in a `subscribe` command. -/
def Named (events : List Event) (token : Token) : Prop :=
  ∃ e ∈ events, ∃ symbol, e.controlLine C fromStr = .subscribe token symbol

/-- The tokens of an `option_chain_set` for `u`. -/
def Event.selects (u : String) (e : Event) : Option (List Token) :=
  match e.controlLine C fromStr with
  | .optionChainSet cmd =>
      if u = cmd.underlying then some (cmd.tokens.map OptionTokenSpec.token) else none
  | _ => none

/-- The tokens of the last `option_chain_set` for `u`. -/
def lastSelection (events : List Event) (u : String) : List Token :=
  ((events.filterMap (Event.selects C fromStr u)).getLast?).getD []

/-- `token` is in the selection of some underlying. -/
def Selected (events : List Event) (token : Token) : Prop :=
  ∃ u, token ∈ lastSelection C fromStr events u

/-- The subscription on the socket, the symbol map and the option metadata are what the
commands ask for. -/
structure Consistent (events : List Event) (s : State) : Prop where
  subscribed : ∀ t, t ∈ s.subscribed ↔ t ∈ s.symbolMap
  symbols : ∀ t, t ∈ s.symbolMap ↔ Named C fromStr events t ∨ Selected C fromStr events t
  metadata : ∀ t, t ∈ s.optionMeta ↔ Selected C fromStr events t

/-- No token that the event takes out of a selection is named in a `subscribe` command or is
in the selection of another underlying. -/
def DropsOnlyOwn (events : List Event) (e : Event) : Prop :=
  ∀ cmd, e.controlLine C fromStr = .optionChainSet cmd →
    ∀ t ∈ lastSelection C fromStr events cmd.underlying,
      t ∉ cmd.tokens.map OptionTokenSpec.token →
        ¬ Named C fromStr events t ∧
          ∀ u, u ≠ cmd.underlying → t ∉ lastSelection C fromStr events u

variable {C fromStr} {events : List Event} {e : Event} {s : State} {t : Token} {u : String}
  {cmd : OptionChainSetCmd} {symbol : String}

theorem named_concat : Named C fromStr (events ++ [e]) t ↔
    Named C fromStr events t ∨ ∃ symbol, e.controlLine C fromStr = .subscribe t symbol := by
  unfold Named
  simp only [List.mem_append, List.mem_singleton, or_and_right, exists_or, exists_eq_left]

theorem lastSelection_concat_none (h : e.selects C fromStr u = none) :
    lastSelection C fromStr (events ++ [e]) u = lastSelection C fromStr events u := by
  simp [lastSelection, h]

theorem lastSelection_concat_some {ts : List Token} (h : e.selects C fromStr u = some ts) :
    lastSelection C fromStr (events ++ [e]) u = ts := by
  simp [lastSelection, h]

/-- Only an `option_chain_set` changes a selection. -/
theorem lastSelection_concat (h : ∀ cmd, e.controlLine C fromStr ≠ .optionChainSet cmd) :
    lastSelection C fromStr (events ++ [e]) u = lastSelection C fromStr events u := by
  apply lastSelection_concat_none
  unfold Event.selects
  split
  · rename_i cmd hcmd
    exact absurd hcmd (h cmd)
  · rfl

theorem lastSelection_concat_set (h : e.controlLine C fromStr = .optionChainSet cmd) :
    lastSelection C fromStr (events ++ [e]) u =
      if u = cmd.underlying then cmd.tokens.map OptionTokenSpec.token
      else lastSelection C fromStr events u := by
  split
  · rename_i hu
    apply lastSelection_concat_some
    simp [Event.selects, h, hu]
  · rename_i hu
    apply lastSelection_concat_none
    simp [Event.selects, h, hu]

theorem selected_concat (h : ∀ cmd, e.controlLine C fromStr ≠ .optionChainSet cmd) :
    Selected C fromStr (events ++ [e]) t ↔ Selected C fromStr events t := by
  unfold Selected
  simp only [lastSelection_concat h]

theorem selected_concat_set (h : e.controlLine C fromStr = .optionChainSet cmd) :
    Selected C fromStr (events ++ [e]) t ↔ t ∈ cmd.tokens.map OptionTokenSpec.token ∨
      ∃ v, v ≠ cmd.underlying ∧ t ∈ lastSelection C fromStr events v := by
  unfold Selected
  simp only [lastSelection_concat_set h]
  constructor
  · rintro ⟨v, hv⟩
    split at hv
    · exact .inl hv
    · rename_i hne
      exact .inr ⟨v, hne, hv⟩
  · rintro (ht | ⟨v, hne, hv⟩)
    · exact ⟨cmd.underlying, by rw [if_pos rfl]; exact ht⟩
    · exact ⟨v, by rw [if_neg hne]; exact hv⟩

/-! ### One event -/

/-- The service after the given events, from empty maps. -/
def run (C : Text.Casing) (fromStr : String → Option OptionChainSetCmd) (events : List Event) :
    State :=
  events.foldl (State.handle C fromStr) {}

theorem run_concat : run C fromStr (events ++ [e]) = (run C fromStr events).handle C fromStr e := by
  simp [run]

/-- What a control line does not do, the maps' keys do not see. -/
theorem handle_cases (s : State) (e : Event) :
    (∃ token symbol, e.controlLine C fromStr = .subscribe token symbol ∧
      s.handle C fromStr e = s.addToken token symbol) ∨
    (∃ cmd, e.controlLine C fromStr = .optionChainSet cmd ∧
      s.handle C fromStr e = s.optionChainSet C cmd) ∨
    ((∀ token symbol, e.controlLine C fromStr ≠ .subscribe token symbol) ∧
      (∀ cmd, e.controlLine C fromStr ≠ .optionChainSet cmd) ∧
      (s.handle C fromStr e).symbolMap = s.symbolMap ∧
      (s.handle C fromStr e).optionMeta = s.optionMeta ∧
      (∀ u, (s.handle C fromStr e).selectionOf u = s.selectionOf u) ∧
      ((s.handle C fromStr e).subscribed = s.subscribed ∨
        (s.handle C fromStr e).subscribed = s.symbolMap.keys)) := by
  cases e with
  | line text =>
      simp only [Event.controlLine, State.handle]
      cases hline : parseControlLine C fromStr text with
      | subscribe token symbol => exact .inl ⟨token, symbol, rfl, rfl⟩
      | optionChainSet cmd => exact .inr (.inl ⟨cmd, rfl, rfl⟩)
      | _ => exact .inr (.inr ⟨by simp, by simp, rfl, rfl, fun _ => rfl, .inl rfl⟩)
  | reconnect =>
      exact .inr (.inr ⟨by simp [Event.controlLine], by simp [Event.controlLine], rfl, rfl,
        fun _ => rfl, .inr rfl⟩)
  | tick token lastPrice openInterest =>
      exact .inr (.inr ⟨by simp [Event.controlLine], by simp [Event.controlLine],
        State.routeTick_symbolMap, State.routeTick_optionMeta,
        fun _ => State.routeTick_selectionOf, .inl State.routeTick_subscribed⟩)

/-- The recorded selections are the last ones asked for, whoever else owns their tokens. -/
theorem mem_selectionOf_run : t ∈ (run C fromStr events).selectionOf u ↔
    t ∈ lastSelection C fromStr events u := by
  induction events using List.reverseRecOn with
  | nil => simp [run, lastSelection, State.selectionOf]
  | append_singleton events e ih =>
      rw [run_concat]
      rcases handle_cases (run C fromStr events) e with
        ⟨token, symbol, hline, heq⟩ | ⟨cmd, hline, heq⟩ | ⟨-, hset, -, -, hsel, -⟩
      · rw [heq, State.addToken_selectionOf, lastSelection_concat (by simp [hline]), ih]
      · rw [heq, State.mem_optionChainSet_selectionOf, lastSelection_concat_set hline, ih]
        split <;> rfl
      · rw [hsel, lastSelection_concat hset, ih]

theorem consistent_addToken {s : State} {token : Token}
    (hline : e.controlLine C fromStr = .subscribe token symbol)
    (h : Consistent C fromStr events s) :
    Consistent C fromStr (events ++ [e]) (s.addToken token symbol) := by
  have hnoset : ∀ cmd, e.controlLine C fromStr ≠ .optionChainSet cmd := by simp [hline]
  constructor
  case subscribed =>
    intro t
    rw [State.mem_addToken_subscribed, State.mem_addToken_symbolMap, h.subscribed]
    constructor
    · rintro (ht | ⟨rfl, -⟩)
      · exact .inr ht
      · exact .inl rfl
    · rintro (rfl | ht)
      · by_cases hmem : t ∈ s.symbolMap
        · exact .inl hmem
        · exact .inr ⟨rfl, hmem⟩
      · exact .inl ht
  case symbols =>
    intro t
    rw [State.mem_addToken_symbolMap, h.symbols, named_concat, selected_concat hnoset]
    simp only [hline, ControlLine.subscribe.injEq]
    constructor
    · rintro (rfl | hn | hsel)
      · exact .inl (.inr ⟨symbol, rfl, rfl⟩)
      · exact .inl (.inl hn)
      · exact .inr hsel
    · rintro ((hn | ⟨_, rfl, -⟩) | hsel)
      · exact .inr (.inl hn)
      · exact .inl rfl
      · exact .inr (.inr hsel)
  case metadata =>
    intro t
    rw [State.addToken_optionMeta, h.metadata, selected_concat hnoset]

theorem selected_iff (u : String) : Selected C fromStr events t ↔
    t ∈ lastSelection C fromStr events u ∨
      ∃ v, v ≠ u ∧ t ∈ lastSelection C fromStr events v := by
  constructor
  · rintro ⟨v, hv⟩
    by_cases hvu : v = u
    · exact .inl (hvu ▸ hv)
    · exact .inr ⟨v, hvu, hv⟩
  · rintro (hu | ⟨v, -, hv⟩)
    · exact ⟨u, hu⟩
    · exact ⟨v, hv⟩

/-- A token that stays in the selection or enters it is never in doubt.  One that leaves it goes
from all the maps, so it must be nobody else's. -/
theorem consistent_optionChainSet {s : State}
    (hline : e.controlLine C fromStr = .optionChainSet cmd)
    (hsel : ∀ t, t ∈ s.selectionOf cmd.underlying ↔
      t ∈ lastSelection C fromStr events cmd.underlying)
    (h : Consistent C fromStr events s) :
    Consistent C fromStr (events ++ [e]) (s.optionChainSet C cmd) ↔
      DropsOnlyOwn C fromStr events e := by
  have hnamed : ∀ t, Named C fromStr (events ++ [e]) t ↔ Named C fromStr events t := by
    intro t
    rw [named_concat]
    simp [hline]
  constructor
  · intro h' cmd' hline' t hprev hnew
    obtain rfl : cmd = cmd' := by
      rw [hline] at hline'
      cases hline'
      rfl
    have hgone : t ∉ (s.optionChainSet C cmd).symbolMap := by
      rw [State.mem_optionChainSet_symbolMap, hsel]
      tauto
    rw [h'.symbols, hnamed, selected_concat_set hline] at hgone
    push Not at hgone
    exact ⟨hgone.1, hgone.2.2⟩
  · intro hown
    have hdrop : ∀ t ∈ lastSelection C fromStr events cmd.underlying,
        t ∉ cmd.tokens.map OptionTokenSpec.token → ¬ Named C fromStr events t ∧
          ¬ ∃ v, v ≠ cmd.underlying ∧ t ∈ lastSelection C fromStr events v := by
      intro t hprev hnew
      obtain ⟨hnot, hother⟩ := hown cmd hline t hprev hnew
      exact ⟨hnot, fun ⟨v, hv, hmem⟩ => hother v hv hmem⟩
    constructor
    case subscribed =>
      intro t
      rw [State.mem_optionChainSet_subscribed, State.mem_optionChainSet_symbolMap, h.subscribed]
      by_cases hnew : t ∈ cmd.tokens.map OptionTokenSpec.token
      · by_cases hprev : t ∈ s.selectionOf cmd.underlying
        · have hmem : t ∈ s.symbolMap :=
            (h.symbols t).mpr (.inr ⟨cmd.underlying, (hsel t).mp hprev⟩)
          simp only [hnew, hmem, hprev, true_or, implies_true, and_self, or_true]
        · simp only [hnew, hprev, not_false_eq_true, and_self, true_or]
      · by_cases hprev : t ∈ s.selectionOf cmd.underlying
        · simp [hnew, hprev]
        · simp [hnew, hprev]
    case symbols =>
      intro t
      rw [State.mem_optionChainSet_symbolMap, hsel, h.symbols, hnamed,
        selected_iff cmd.underlying, selected_concat_set hline]
      have hgone := hdrop t
      generalize (∃ v, v ≠ cmd.underlying ∧ t ∈ lastSelection C fromStr events v) = O at *
      tauto
    case metadata =>
      intro t
      rw [State.mem_optionChainSet_optionMeta, hsel, h.metadata,
        selected_iff cmd.underlying, selected_concat_set hline]
      have hgone := hdrop t
      generalize (∃ v, v ≠ cmd.underlying ∧ t ∈ lastSelection C fromStr events v) = O at *
      tauto

/-- **One event.** In a consistent state the maps stay consistent exactly when the event drops
no token that somebody else owns. -/
theorem consistent_concat (h : Consistent C fromStr events (run C fromStr events)) :
    Consistent C fromStr (events ++ [e]) (run C fromStr (events ++ [e])) ↔
      DropsOnlyOwn C fromStr events e := by
  rw [run_concat]
  rcases handle_cases (run C fromStr events) e with
    ⟨token, symbol, hline, heq⟩ | ⟨cmd, hline, heq⟩ | ⟨hsub, hset, hsym, hmeta, -, hws⟩
  · rw [heq]
    refine iff_of_true (consistent_addToken hline h) fun cmd hcmd => ?_
    rw [hline] at hcmd
    cases hcmd
  · rw [heq]
    exact consistent_optionChainSet hline (fun t => mem_selectionOf_run) h
  · refine iff_of_true ⟨fun t => ?_, fun t => ?_, fun t => ?_⟩ fun cmd hcmd => absurd hcmd (hset cmd)
    · rw [hsym]
      rcases hws with hws | hws
      · rw [hws, h.subscribed]
      · rw [hws, Finmap.mem_keys]
    · rw [hsym, h.symbols, named_concat, selected_concat hset]
      simp [hsub]
    · rw [hmeta, h.metadata, selected_concat hset]

theorem consistent_nil : Consistent C fromStr [] (run C fromStr []) := by
  constructor <;> simp [run, Named, Selected, lastSelection, Finmap.notMem_empty]

end

/-- **The subscription state is consistent exactly as long as nothing shared is dropped.**  The
maps and the socket agree with the commands after every event of a run if and only if no
`option_chain_set` of the run takes out of its underlying's selection a token that is named in a
`subscribe` command or is in the selection of another underlying. -/
theorem consistent_iff_owned (C : Text.Casing) (fromStr : String → Option OptionChainSetCmd)
    (events : List Event) :
    (∀ pre, pre <+: events → Consistent C fromStr pre (run C fromStr pre)) ↔
      ∀ pre e, pre ++ [e] <+: events → DropsOnlyOwn C fromStr pre e :=
  forall_prefix_iff consistent_nil fun _ _ _ h => consistent_concat h

/-! ### A token that is watched and selected -/

theorem notBlank_last {body : String} (h : body.toList.getLast? = some '\x7d') :
    ∀ c ∈ body.toList.getLast?, Text.isWhitespace c = false := by
  rintro c hc
  rw [h] at hc
  cases hc
  decide

/-- A body that makes token 1 the whole selection of `U`. -/
def selectBody : String :=
  "\x7b\"underlying\":\"U\",\"snapshot_interval_secs\":60,\"tokens\":[\x7b\"token\":1," ++
    "\"tradingsymbol\":\"UCE\",\"expiry\":\"2024-01-25\",\"strike\":100.0,\"type\":\"CE\"\x7d]\x7d"

/-- A body that selects nothing for `U`. -/
def clearBody : String :=
  "\x7b\"underlying\":\"U\",\"snapshot_interval_secs\":60,\"tokens\":[]\x7d"

/-- The decoder on these two bodies. -/
def decodeBodies (json : String) : Option OptionChainSetCmd :=
  if json = selectBody then some ⟨"U", 60, [⟨1, "UCE", "2024-01-25", .fin 100, "CE"⟩]⟩
  else if json = clearBody then some ⟨"U", 60, []⟩
  else none

/-- A watched token enters a selection and leaves it again. -/
def watchedThenSelected : List Event :=
  [.line "subscribe:1:A", .line (OPTION_CHAIN_SET_PREFIX ++ selectBody),
    .line (OPTION_CHAIN_SET_PREFIX ++ clearBody)]

/-- The token named in the `subscribe` command is no longer in the symbol map. -/
theorem watched_token_dropped : ¬ ∀ (C : Text.Casing)
    (fromStr : String → Option OptionChainSetCmd) (events : List Event),
    Consistent C fromStr events (run C fromStr events) := by
  intro hall
  have hcons := hall Text.Casing.ascii decodeBodies watchedThenSelected
  have hsubscribe : parseControlLine Text.Casing.ascii decodeBodies "subscribe:1:A" =
      .subscribe 1 "A" := by decide +kernel
  have hselect : parseControlLine Text.Casing.ascii decodeBodies
      (OPTION_CHAIN_SET_PREFIX ++ selectBody) =
        .optionChainSet ⟨"U", 60, [⟨1, "UCE", "2024-01-25", .fin 100, "CE"⟩]⟩ := by
    rw [parseControlLine_chain (notBlank_last (by decide +kernel)), decodeBodies, if_pos rfl]
  have hclear : parseControlLine Text.Casing.ascii decodeBodies
      (OPTION_CHAIN_SET_PREFIX ++ clearBody) = .optionChainSet ⟨"U", 60, []⟩ := by
    rw [parseControlLine_chain (notBlank_last (by decide +kernel)), decodeBodies,
      if_neg (by decide +kernel), if_pos rfl]
  have hgone : 1 ∉ (run Text.Casing.ascii decodeBodies watchedThenSelected).symbolMap := by
    simp only [run, watchedThenSelected, List.foldl_cons, List.foldl_nil, State.handle,
      hsubscribe, hselect, hclear]
    decide +kernel
  rw [hcons.symbols] at hgone
  exact hgone (.inl ⟨.line "subscribe:1:A", List.mem_cons_self, "A", hsubscribe⟩)

end AiTrader.Ingestion
