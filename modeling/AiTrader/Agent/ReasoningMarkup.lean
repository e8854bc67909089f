import AiTrader.Agent.TextCallRecovery
import AiTrader.Library.Scrub

/-! # Markup in the reasoning stream

`strip_tool_call_markup` (`src/agents/deep-quant-loop/stream_events.py`) cuts the call blocks, then
segment by segment what a separator introduces, then the tokens that are left.  The last pass is
made once, and what it cuts can have stood inside another token.

* `length_cut_lt`: every turn of the middle loop shortens the text, so that it ends.
* `onePass_callBlock_iff`, `repeated_segment_iff`: what the first two passes leave, by what stands
  in the text.
* `stripToolCallMarkup_clean_iff`: the result is free of tokens, and stripping it again changes
  nothing, unless the text closes up around a token; it does not where no token is broken off by
  a `<`.
* `stripToolCallMarkup_interrupted`: a separator comes out of a text that closes up. -/

namespace AiTrader.Agent

open Text Scan Json

/-! ### Three passes -/

/-- The words of `_ORPHAN_TOKEN_RE`. -/
def orphanTokens : List (List Char) := [callBegin, toolSep, callEnd]

/-- `end_idx`. -/
def segmentStop (text : List Char) (m : Match (List Char)) : ℕ :=
  match extractBalancedJson text m.stop with
  | some rawArgs =>
      match (findIter (literal rawArgs) 0 m.stop (text.drop m.stop)).head? with
      | some found => found.start + rawArgs.length
      | none => m.stop
  | none => m.stop

theorem stop_le_segmentStop (text : List Char) (m : Match (List Char)) :
    m.stop ≤ segmentStop text m := by
  unfold segmentStop
  split
  · split
    · rename_i rawArgs _ found hfound
      obtain ⟨pre, suf, len, -, -, hstart, -⟩ := mem_findIter (List.mem_of_mem_head? hfound)
      omega
    · exact le_rfl
  · exact le_rfl

theorem sepName_pos {cs v : List Char} {len : ℕ} (h : sepName cs = some (v, len)) : 0 < len := by
  unfold sepName at h
  split at h
  · simp only at h
    split at h
    · cases h
    · have hlen : toolSep.length = 12 := rfl
      cases h
      omega
  · cases h

/-- What is cut is at least the separator and the name. -/
theorem length_cut_lt {text : List Char} {m : Match (List Char)}
    (h : (findIter sepName 0 0 text).head? = some m) :
    (text.take m.start ++ text.drop (segmentStop text m)).length < text.length := by
  obtain ⟨pre, suf, len, rfl, hm, hstart, hstop⟩ := mem_findIter (List.mem_of_mem_head? h)
  have hpos := sepName_pos hm
  have hne : suf ≠ [] := by
    rintro rfl
    cases hm
  have hsuf := List.length_pos_iff.mpr hne
  have hle := stop_le_segmentStop (pre ++ suf) m
  rw [List.length_append, List.length_take, List.length_drop, List.length_append]
  omega

/-- `_strip_standalone_sep_calls`. -/
def stripStandaloneSepCalls (text : List Char) : List Char :=
  match _h : (findIter sepName 0 0 text).head? with
  | none => text
  | some m => stripStandaloneSepCalls (text.take m.start ++ text.drop (segmentStop text m))
termination_by text.length
decreasing_by exact length_cut_lt _h

/-- The text that the last pass is given. -/
def withoutCalls (content : String) : List Char :=
  stripStandaloneSepCalls (remove callBlock 0 content.toList)

def stripToolCallMarkup (content : String) : String :=
  if content = "" then ""
  else strip (String.ofList (scrub orphanTokens (withoutCalls content)))

/-! ### What stands in the text -/

/-- A block stands at the head of the text, `post` after it. -/
inductive CallBlock : List Char → List Char → Prop where
  | mk {inner post : List Char} (hinner : ¬ callEnd <:+: inner) :
      CallBlock (callBegin ++ (inner ++ (callEnd ++ post))) post

/-- A separator and a name stand at the head of the text, `post` after them and after the first
object that follows, if its braces match. -/
inductive Segment : List Char → List Char → Prop where
  | bare {blank name post : List Char} (h : Introduces blank name post)
      (hargs : extractBalancedJson post 0 = none) :
      Segment (toolSep ++ (blank ++ (name ++ post))) post
  | withArgs {blank name skipped rawArgs post : List Char}
      (h : Introduces blank name (skipped ++ (rawArgs ++ post))) (hskipped : '\x7b' ∉ skipped)
      (hopen : rawArgs.head? = some '\x7b')
      (hargs : matchBraces 0 false false (rawArgs ++ post) = some rawArgs) :
      Segment (toolSep ++ (blank ++ (name ++ (skipped ++ (rawArgs ++ post))))) post

/-- Around whole tokens, which the last pass cuts, a text closes up to a token: its blocks gone, and
then, one by one, the first of its segments, the characters of a token stand in order with nothing
but whole tokens between them, and at least one. -/
def ClosesUp (text : List Char) : Prop :=
  ∃ mid rest, OnePass CallBlock text mid ∧ Repeated Segment mid rest ∧
    Interrupted orphanTokens rest

/-! ### Tokens as marks -/

theorem orphanTokens_marks : Marks '<' orphanTokens where
  head := by decide
  once := by decide
  apart := by decide

theorem tokenFree_iff {cs : List Char} : TokenFree cs ↔ ∀ w ∈ orphanTokens, ¬ w <:+: cs := by
  simp [TokenFree, orphanTokens, and_comm]

theorem infix_trimBoth_iff {w cs : List Char} (hw : w ∈ orphanTokens) :
    w <:+: trimBoth isSpace cs ↔ w <:+: cs := by
  have hends : w.head? = some '<' ∧ w.reverse.head? = some '>' := by
    revert w
    decide
  obtain ⟨l, r, hcs, hl, hr⟩ := trimBoth_split isSpace cs
  constructor
  · intro h
    rw [hcs]
    exact h.trans ⟨l, r, rfl⟩
  · intro h
    rw [hcs, List.append_assoc] at h
    have hright := infix_of_infix_append hends.1 (fun hin => absurd (hl _ hin) (by decide)) h
    rw [← List.reverse_infix, List.reverse_append] at hright
    have hnone : '>' ∉ r.reverse := fun hin =>
      absurd (hr _ (List.mem_reverse.mp hin)) (by decide)
    exact List.reverse_infix.mp (infix_of_infix_append hends.2 hnone hright)

/-! ### Blocks -/

theorem callBlock_eq_some {s v : List Char} {len : ℕ} (h : callBlock s = some (v, len)) :
    ∃ inner post, ¬ callEnd <:+: inner ∧ s = callBegin ++ (inner ++ (callEnd ++ post)) := by
  unfold callBlock at h
  split at h
  · rename_i hbegin
    obtain ⟨rest, rfl⟩ := List.isPrefixOf_iff_prefix.mp hbegin
    simp only [List.drop_left] at h
    obtain ⟨found, hfound, -⟩ := Option.map_eq_some_iff.mp h
    have hend : callEnd <:+: rest :=
      (mem_findIter_literal (List.mem_of_mem_head? hfound)).1.isInfix.trans
        (List.drop_suffix _ _).isInfix
    obtain ⟨inner, post, rfl, hinner⟩ := exists_first_infix (by decide) hend
    exact ⟨inner, post, hinner, rfl⟩
  · cases h

theorem drop_block (inner post : List Char) :
    (callBegin ++ (inner ++ (callEnd ++ post))).drop
      (callBegin.length + (inner.length + callEnd.length)) = post := by
  rw [← List.append_assoc inner, ← List.append_assoc callBegin]
  exact List.drop_left' (by simp only [List.length_append])

theorem takes_callBlock : Takes callBlock CallBlock := by
  intro s post
  constructor
  · rintro ⟨hinner⟩
    exact ⟨_, _, callBlock_closed hinner post, (drop_block _ _).symm⟩
  · rintro ⟨v, len, hsome, rfl⟩
    obtain ⟨inner, post, hinner, rfl⟩ := callBlock_eq_some hsome
    rw [callBlock_closed hinner] at hsome
    obtain ⟨-, rfl⟩ := Prod.mk.inj (Option.some.inj hsome)
    rw [drop_block]
    exact .mk hinner

theorem callBlock_proper : Proper callBlock := by
  intro s v len hsome
  obtain ⟨inner, post, hinner, rfl⟩ := callBlock_eq_some hsome
  rw [callBlock_closed hinner] at hsome
  obtain ⟨-, rfl⟩ := Prod.mk.inj (Option.some.inj hsome)
  have hpos : 0 < callBegin.length := by decide
  simp only [List.length_append]
  omega

/-- The first pass, by the blocks that stand in the text. -/
theorem onePass_callBlock_iff {text rest : List Char} :
    OnePass CallBlock text rest ↔ rest = remove callBlock 0 text :=
  onePass_iff takes_callBlock callBlock_proper

/-! ### Segments -/

theorem sepName_eq_some {s name : List Char} {len : ℕ} (h : sepName s = some (name, len)) :
    ∃ blank after, Introduces blank name after ∧ s = toolSep ++ (blank ++ (name ++ after)) := by
  unfold sepName at h
  split at h
  · rename_i hsep
    obtain ⟨rest, rfl⟩ := List.isPrefixOf_iff_prefix.mp hsep
    simp only [List.drop_left] at h
    split at h
    · cases h
    · rename_i hne
      obtain ⟨rfl, -⟩ := Prod.mk.inj (Option.some.inj h)
      refine ⟨rest.takeWhile isSpace, (rest.dropWhile isSpace).dropWhile isNameChar,
        ⟨fun ch => List.mem_takeWhile_imp, hne, fun ch => List.mem_takeWhile_imp, ?_⟩, ?_⟩
      · intro ch hch
        have hnot := List.head?_dropWhile_not isNameChar (rest.dropWhile isSpace)
        rwa [hch] at hnot
      · rw [List.takeWhile_append_dropWhile, List.takeWhile_append_dropWhile]
  · cases h

theorem extractBalancedJson_eq_some {after rawArgs : List Char}
    (h : extractBalancedJson after 0 = some rawArgs) : ∃ skipped post,
      after = skipped ++ (rawArgs ++ post) ∧ '\x7b' ∉ skipped ∧ rawArgs.head? = some '\x7b' ∧
        matchBraces 0 false false (rawArgs ++ post) = some rawArgs := by
  unfold extractBalancedJson at h
  rw [List.drop_zero] at h
  obtain ⟨hne, post, hpost⟩ := matchBraces_begins h
  refine ⟨after.takeWhile fun c => c ≠ '\x7b', post, ?_, ?_, ?_, ?_⟩
  · rw [hpost, List.takeWhile_append_dropWhile]
  · intro hmem
    simpa using List.mem_takeWhile_imp hmem
  · obtain ⟨ch, w, rfl⟩ := List.exists_cons_of_ne_nil hne
    have hnot := List.head?_dropWhile_not (fun c => decide (c ≠ '\x7b')) after
    rw [← hpost] at hnot
    simpa using hnot
  · rw [hpost, h]

theorem segmentStop_withArgs {front skipped rawArgs post name : List Char} {start : ℕ}
    (hskipped : '\x7b' ∉ skipped) (hopen : rawArgs.head? = some '\x7b')
    (hargs : matchBraces 0 false false (rawArgs ++ post) = some rawArgs) :
    segmentStop (front ++ (skipped ++ (rawArgs ++ post))) ⟨start, name, front.length⟩ =
      front.length + skipped.length + rawArgs.length := by
  obtain ⟨w, rfl⟩ := List.head?_eq_some_iff.mp hopen
  have hread : extractBalancedJson (front ++ (skipped ++ ('\x7b' :: w ++ post))) front.length =
      some ('\x7b' :: w) := by
    unfold extractBalancedJson
    rw [List.drop_left, List.dropWhile_append_of_pos, List.cons_append,
      List.dropWhile_cons_of_neg (by decide), ← List.cons_append, hargs]
    intro c hc
    have hne : c ≠ '\x7b' := fun h => hskipped (h ▸ hc)
    simpa using hne
  have hfind : findIter (literal ('\x7b' :: w)) 0 front.length
      (skipped ++ ('\x7b' :: w ++ post)) =
      ⟨front.length + skipped.length, (), front.length + skipped.length + ('\x7b' :: w).length⟩ ::
        findIter (literal ('\x7b' :: w)) 0
          (front.length + skipped.length + ('\x7b' :: w).length) post := by
    rw [findIter_append, findIter_match (literal_eq_some.mpr ⟨List.prefix_append _ _, rfl⟩)
      (by simp) (by simp), List.drop_left]
    intro t ht hne
    apply literal_startsWith
    obtain ⟨c, t, rfl⟩ := List.exists_cons_of_ne_nil hne
    intro hpre
    rw [List.cons_append, List.cons_prefix_cons] at hpre
    exact hskipped (hpre.1 ▸ ht.subset List.mem_cons_self)
  unfold segmentStop
  dsimp only
  rw [hread]
  dsimp only
  rw [List.drop_left, hfind]
  rfl

theorem segmentStop_bare {front post name : List Char} {start : ℕ}
    (hargs : extractBalancedJson post 0 = none) :
    segmentStop (front ++ post) ⟨start, name, front.length⟩ = front.length := by
  have hread : extractBalancedJson (front ++ post) front.length = none := by
    unfold extractBalancedJson at hargs ⊢
    rwa [List.drop_left]
  unfold segmentStop
  dsimp only
  rw [hread]

theorem introduced_eq (pre blank name after : List Char) :
    pre ++ (toolSep ++ (blank ++ (name ++ after))) =
        (pre ++ (toolSep ++ blank ++ name)) ++ after ∧
      pre.length + (toolSep.length + blank.length + name.length) =
        (pre ++ (toolSep ++ blank ++ name)).length := by
  constructor
  · simp only [List.append_assoc]
  · simp only [List.length_append]

/-- A segment is what the loop cuts. -/
theorem Segment.cut_eq {s post : List Char} (h : Segment s post) (pre : List Char) :
    ∃ name len, sepName s = some (name, len) ∧
      (pre ++ s).drop (segmentStop (pre ++ s) ⟨pre.length, name, pre.length + len⟩) = post := by
  cases h with
  | @bare blank name post h hargs =>
      obtain ⟨hsplit, hlen⟩ := introduced_eq pre blank name post
      refine ⟨_, _, sepName_introduces h, ?_⟩
      rw [hsplit, hlen, segmentStop_bare hargs, List.drop_left]
  | @withArgs blank name skipped rawArgs post h hskipped hopen hargs =>
      obtain ⟨hsplit, hlen⟩ := introduced_eq pre blank name (skipped ++ (rawArgs ++ post))
      refine ⟨_, _, sepName_introduces h, ?_⟩
      rw [hsplit, hlen, segmentStop_withArgs hskipped hopen hargs, Nat.add_assoc,
        ← List.drop_drop, List.drop_left, ← List.append_assoc]
      exact List.drop_left' (List.length_append ..)

theorem beginsWith_segment : BeginsWith '<' Segment := by
  intro s post h
  cases h with
  | @bare blank name =>
      exact ⟨toolSep.tail ++ (blank ++ name), by simp [toolSep]⟩
  | @withArgs blank name skipped rawArgs =>
      exact ⟨toolSep.tail ++ (blank ++ (name ++ (skipped ++ rawArgs))), by simp [toolSep]⟩

theorem exists_segment {s name : List Char} {len : ℕ} (h : sepName s = some (name, len)) :
    ∃ post, Segment s post := by
  obtain ⟨blank, after, hintro, rfl⟩ := sepName_eq_some h
  cases hargs : extractBalancedJson after 0 with
  | none => exact ⟨after, .bare hintro hargs⟩
  | some rawArgs =>
      obtain ⟨skipped, post, rfl, hskipped, hopen, hread⟩ := extractBalancedJson_eq_some hargs
      exact ⟨post, .withArgs hintro hskipped hopen hread⟩

theorem finds_segment : Finds sepName Segment := by
  intro s
  constructor
  · rintro ⟨post, h⟩
    obtain ⟨name, len, hsome, -⟩ := h.cut_eq []
    exact ⟨name, len, hsome⟩
  · rintro ⟨name, len, hsome⟩
    exact exists_segment hsome

theorem findIter_first {pre s name : List Char} {len : ℕ} (hsome : sepName s = some (name, len))
    (hfirst : ∀ t, t <:+ pre → t ≠ [] → sepName (t ++ s) = none) :
    (findIter sepName 0 0 (pre ++ s)).head? = some ⟨pre.length, name, pre.length + len⟩ := by
  have hs : s ≠ [] := by
    rintro rfl
    cases hsome
  rw [findIter_append s hfirst, findIter_match hsome (sepName_pos hsome) hs, Nat.zero_add]
  rfl

theorem stripStandaloneSepCalls_segment {pre s post : List Char} (h : Segment s post)
    (hfirst : NoneIn Segment pre s) :
    stripStandaloneSepCalls (pre ++ s) = stripStandaloneSepCalls (pre ++ post) := by
  obtain ⟨name, len, hsome, hpost⟩ := h.cut_eq pre
  have hhead := findIter_first hsome (finds_segment.noneIn_iff.mp hfirst)
  rw [stripStandaloneSepCalls]
  split
  · rename_i hnone
    rw [hhead] at hnone
    cases hnone
  · rename_i m hm
    rw [hhead] at hm
    obtain rfl := Option.some.inj hm
    dsimp only
    rw [hpost, List.take_left]

theorem stripStandaloneSepCalls_noneIn {text : List Char} (h : NoneIn Segment text []) :
    stripStandaloneSepCalls text = text := by
  have hnone : findIter sepName 0 0 (text ++ []) = findIter sepName 0 (0 + text.length) [] :=
    findIter_append [] (finds_segment.noneIn_iff.mp h)
  rw [List.append_nil, findIter] at hnone
  rw [stripStandaloneSepCalls]
  split
  · rfl
  · rename_i m hm
    rw [hnone] at hm
    cases hm

theorem repeated_stripStandaloneSepCalls (text : List Char) :
    Repeated Segment text (stripStandaloneSepCalls text) := by
  induction hlen : text.length using Nat.strong_induction_on generalizing text with
  | _ n ih =>
      rcases exists_first sepName text with hnone | ⟨pre, s, name, len, rfl, hne, hsome, hfirst⟩
      · have hfree : NoneIn Segment text [] :=
          finds_segment.noneIn_iff.mpr (by simpa using hnone)
        rw [stripStandaloneSepCalls_noneIn hfree]
        exact .none hfree
      · obtain ⟨post, hsegment⟩ := exists_segment hsome
        have hnone := finds_segment.noneIn_iff.mpr hfirst
        rw [stripStandaloneSepCalls_segment hsegment hnone]
        refine .cut hnone hsegment (ih _ ?_ _ rfl)
        obtain ⟨w, hw⟩ := beginsWith_segment _ _ hsegment
        rw [← hlen, hw]
        simp only [List.length_append, List.length_cons]
        omega

/-- The loop, by the segments that stand in the text. -/
theorem repeated_segment_iff {text rest : List Char} :
    Repeated Segment text rest ↔ rest = stripStandaloneSepCalls text := by
  constructor
  · intro h
    induction h with
    | none hnone => exact (stripStandaloneSepCalls_noneIn hnone).symm
    | cut hfirst hsegment _ ih => rw [ih, stripStandaloneSepCalls_segment hsegment hfirst]
  · rintro rfl
    exact repeated_stripStandaloneSepCalls text

theorem closesUp_iff (content : String) :
    ClosesUp content.toList ↔ Interrupted orphanTokens (withoutCalls content) := by
  unfold ClosesUp withoutCalls
  simp only [onePass_callBlock_iff, repeated_segment_iff]
  constructor
  · rintro ⟨mid, rest, rfl, rfl, h⟩
    exact h
  · exact fun h => ⟨_, _, rfl, rfl, h⟩

theorem beginsWith_callBlock : BeginsWith '<' CallBlock := by
  intro s post h
  cases h with
  | @mk inner => exact ⟨callBegin.tail ++ (inner ++ callEnd), by simp [callBegin]⟩

/-- A text that no token is broken off in does not close up. -/
theorem not_closesUp_of_unbroken {text : List Char} (h : Unbroken '<' orphanTokens text) :
    ¬ ClosesUp text := by
  rintro ⟨mid, rest, hblocks, hsegments, hinterrupted⟩
  have hmid := h.onePass beginsWith_callBlock hblocks
  exact orphanTokens_marks.not_interrupted (hmid.repeated beginsWith_segment hsegments)
    hinterrupted

/-! ### A text without tokens -/

theorem stripStandaloneSepCalls_free {text : List Char} (h : ¬ toolSep <:+: text) :
    stripStandaloneSepCalls text = text := by
  apply stripStandaloneSepCalls_noneIn
  rw [finds_segment.noneIn_iff]
  intro t ht _
  apply sepName_startsWith
  rw [List.append_nil]
  exact fun hpre => h (hpre.isInfix.trans ht.isInfix)

theorem stripToolCallMarkup_free {content : String} (h : TokenFree content.toList) :
    stripToolCallMarkup content = strip content := by
  have hrest : withoutCalls content = content.toList := by
    rw [withoutCalls, remove_eq_self callBlock_startsWith h.1, stripStandaloneSepCalls_free h.2.2]
  unfold stripToolCallMarkup
  split
  · rename_i hempty
    rw [hempty]
    rfl
  · rw [hrest, scrub_eq_self (tokenFree_iff.mp h), String.ofList_toList]

/-! ### The last pass -/

theorem stripToolCallMarkup_eq (content : String) :
    stripToolCallMarkup content =
      strip (String.ofList (scrub orphanTokens (withoutCalls content))) := by
  unfold stripToolCallMarkup
  split
  · rename_i hempty
    rw [hempty, withoutCalls, remove_eq_self callBlock_startsWith (by decide),
      stripStandaloneSepCalls_free (by decide)]
    rfl
  · rfl

theorem tokenFree_stripToolCallMarkup_iff (content : String) :
    TokenFree (stripToolCallMarkup content).toList ↔
      ¬ Interrupted orphanTokens (withoutCalls content) := by
  rw [stripToolCallMarkup_eq, strip, String.toList_ofList, String.toList_ofList, tokenFree_iff,
    ← orphanTokens_marks.exists_infix_scrub_iff]
  constructor
  · rintro h ⟨w, hw, hin⟩
    exact h w hw ((infix_trimBoth_iff hw).mpr hin)
  · exact fun h w hw hin => h ⟨w, hw, (infix_trimBoth_iff hw).mp hin⟩

theorem strip_stripToolCallMarkup (content : String) :
    strip (stripToolCallMarkup content) = stripToolCallMarkup content := by
  rw [stripToolCallMarkup_eq, strip, strip, String.toList_ofList, trimBoth_trimBoth]

/-- **The guarantee, and where it ends.**  No token survives, stripping the result changes nothing,
and a text without tokens only loses the blanks at its ends, exactly if the text does not close up
to a token.  No text does in which no token is broken off by a `<`. -/
theorem stripToolCallMarkup_clean_iff (content : String) :
    ((TokenFree (stripToolCallMarkup content).toList ∧
        stripToolCallMarkup (stripToolCallMarkup content) = stripToolCallMarkup content ∧
        (TokenFree content.toList → stripToolCallMarkup content = strip content)) ↔
      ¬ ClosesUp content.toList) ∧
    (Unbroken '<' orphanTokens content.toList → ¬ ClosesUp content.toList) := by
  refine ⟨?_, not_closesUp_of_unbroken⟩
  rw [closesUp_iff, ← tokenFree_stripToolCallMarkup_iff]
  constructor
  · exact fun h => h.1
  · intro h
    refine ⟨h, ?_, stripToolCallMarkup_free⟩
    rw [stripToolCallMarkup_free h, strip_stripToolCallMarkup]

/-- A separator with a token in it. -/
def interruptedSep : List Char :=
  ['<', '｜', 't', 'o', 'o', 'l', '▁'] ++ callBegin ++ ['s', 'e', 'p', '｜', '>']

theorem stripToolCallMarkup_interrupted : ∃ content : String,
    (stripToolCallMarkup content).toList = toolSep ∧
      ¬ TokenFree (stripToolCallMarkup content).toList := by
  have hrest : withoutCalls (String.ofList interruptedSep) = interruptedSep := by
    have hblocks : remove callBlock 0 interruptedSep = interruptedSep := by decide
    rw [withoutCalls, String.toList_ofList, hblocks, stripStandaloneSepCalls_free (by decide)]
  have hsep : (stripToolCallMarkup (String.ofList interruptedSep)).toList = toolSep := by
    rw [stripToolCallMarkup_eq, hrest, strip, String.toList_ofList, String.toList_ofList]
    decide
  refine ⟨String.ofList interruptedSep, hsep, ?_⟩
  rw [hsep]
  exact fun h => h.2.2 List.infix_rfl

end AiTrader.Agent
