import AiTrader.Agent.TextCalls

/-! # Calls written in a text are recovered

A response whose text consists of call blocks and of other text without tokens gives exactly the
calls that the blocks were written for (`extractToolCalls_rendered`).  The matcher of braces gives
back the printed object whatever is nested in it, and the tokens cannot begin anywhere but where
they stand, since `<` is in none of them but at its head. -/

namespace AiTrader.Agent

open Text Scan PyJson Json

/-! ### Writing calls -/

/-- No token stands in the text. -/
def TokenFree (cs : List Char) : Prop :=
  ¬ callBegin <:+: cs ∧ ¬ callEnd <:+: cs ∧ ¬ toolSep <:+: cs

/-- A call, and the text before it. -/
structure WrittenCall where
  before : List Char
  name : String
  args : Kwargs

section
variable (S : Style) (N : NumSyntax PyNum)

/-- The arguments as they are written. -/
def WrittenCall.json (c : WrittenCall) : List Char := (dumps S N (.dict c.args)).toList

/-- What stands between the tokens of the block. -/
def WrittenCall.inner (c : WrittenCall) : List Char :=
  ['f', 'u', 'n', 'c', 't', 'i', 'o', 'n'] ++ toolSep ++ c.name.toList ++ '\n' :: c.json S N

/-- The block of a call. -/
def WrittenCall.block (c : WrittenCall) : List Char := callBegin ++ c.inner S N ++ callEnd

/-- Calls in the text, and the text after the last. -/
def writtenText : List WrittenCall → List Char → List Char
  | [], after => after
  | c :: calls, after => c.before ++ (c.block S N ++ writtenText calls after)

/-- The call that should be found. -/
def WrittenCall.expected (idx : ℕ) (c : WrittenCall) : ExtractedCall :=
  if c.name ∈ registeredToolNames then
    ⟨c.name, some c.args, String.ofList (c.json S N), .ok, callId c.name idx⟩
  else ⟨c.name, none, String.ofList (c.json S N), .invalidTool, callId c.name idx⟩

/-- A call that can be told from its block. -/
structure WrittenCall.Legible (c : WrittenCall) : Prop where
  before_free : TokenFree c.before
  before_braces : '\x7b' ∉ c.before ∧ '\x7d' ∉ c.before
  name_ne : c.name ≠ ""
  name_chars : ∀ ch ∈ c.name.toList, isSpace ch = false ∧ ch ≠ '\x60' ∧ ch ≠ '\x7b' ∧ ch ≠ '\x7d'
  name_end : ¬ callEnd <:+: c.name.toList
  json_free : TokenFree (c.json S N)
  numbers : (toValue (.dict c.args)).Forall N.Readable
  keys : Distinct (.dict c.args)

end

section
variable {S : Style} {N : NumSyntax PyNum} {c : WrittenCall}

/-! ### Tokens -/

theorem lt_notMem_callBegin : '<' ∉ callBegin.tail := by decide

theorem lt_notMem_callEnd : '<' ∉ callEnd.tail := by decide

theorem lt_notMem_toolSep : '<' ∉ toolSep.tail := by decide

theorem newline_notMem_callEnd : '\n' ∉ callEnd := by decide

theorem callBegin_eq : callBegin = '<' :: callBegin.tail := by decide

theorem callEnd_eq : callEnd = '<' :: callEnd.tail := by decide

theorem toolSep_eq : toolSep = '<' :: toolSep.tail := by decide

theorem callEnd_notInfix {cs : List Char} (h : '<' ∉ cs) : ¬ callEnd <:+: cs := fun hin =>
  h (hin.subset (by decide))

/-- Every token begins with `<`. -/
theorem tokenFree_of_notMem {cs : List Char} (h : '<' ∉ cs) : TokenFree cs :=
  ⟨fun hin => h (hin.subset (by decide)), callEnd_notInfix h, fun hin => h (hin.subset (by decide))⟩

theorem callBlock_startsWith : StartsWith callBegin callBlock := by
  intro cs h
  unfold callBlock
  rw [← List.isPrefixOf_iff_prefix] at h
  exact if_neg h

theorem sepName_startsWith : StartsWith toolSep sepName := by
  intro cs h
  unfold sepName
  rw [← List.isPrefixOf_iff_prefix] at h
  exact if_neg h

/-! ### One block -/

theorem json_eq (c : WrittenCall) : c.json S N = print S N (.obj (toMembers c.args)) := by
  unfold WrittenCall.json dumps
  rw [String.toList_ofList]
  rfl

theorem extractBalancedJson_block (h : c.Legible S N) (front : List Char) :
    extractBalancedJson (front ++ '\n' :: c.json S N) front.length = some (c.json S N) := by
  have hopen : ∃ rest, c.json S N = '\x7b' :: rest := by
    rw [json_eq]
    cases toMembers c.args with
    | nil => exact ⟨_, rfl⟩
    | cons kv kvs => exact ⟨_, rfl⟩
  obtain ⟨rest, hrest⟩ := hopen
  unfold extractBalancedJson
  rw [List.drop_left, List.dropWhile_cons_of_pos (by decide), hrest,
    List.dropWhile_cons_of_neg (by decide), ← hrest, json_eq]
  have hnumbers : (Value.obj (toMembers c.args)).Forall N.Readable := h.numbers
  simpa using matchBraces_print S hnumbers []

/-- Blanks and a name after a separator, where the text goes on with `after`. -/
structure Introduces (blank name after : List Char) : Prop where
  blank_chars : ∀ ch ∈ blank, isSpace ch = true
  name_ne : name ≠ []
  name_chars : ∀ ch ∈ name, isNameChar ch = true
  name_end : ∀ ch ∈ after.head?, isNameChar ch = false

theorem sepName_introduces {blank name after : List Char} (h : Introduces blank name after) :
    sepName (toolSep ++ (blank ++ (name ++ after))) =
      some (name, toolSep.length + blank.length + name.length) := by
  obtain ⟨d, tail, hd⟩ := List.exists_cons_of_ne_nil h.name_ne
  have hspace : isSpace d = false := by
    have hname := h.name_chars d (by simp [hd])
    simp only [isNameChar, Bool.and_eq_true, Bool.not_eq_true'] at hname
    exact hname.1.1
  unfold sepName
  rw [if_pos (by simp), List.drop_left]
  have htake : (blank ++ (name ++ after)).takeWhile isSpace = blank := by
    rw [List.takeWhile_append_of_pos h.blank_chars, hd, List.cons_append,
      List.takeWhile_cons_of_neg (by simp [hspace]), List.append_nil]
  have hdrop : (blank ++ (name ++ after)).dropWhile isSpace = name ++ after := by
    rw [List.dropWhile_append_of_pos h.blank_chars, hd, List.cons_append,
      List.dropWhile_cons_of_neg (by simp [hspace])]
  have hread : (name ++ after).takeWhile isNameChar = name := by
    rw [List.takeWhile_append_of_pos h.name_chars]
    cases after with
    | nil => simp
    | cons ch after =>
        have hend : isNameChar ch = false := h.name_end ch rfl
        rw [List.takeWhile_cons_of_neg (by simp [hend]), List.append_nil]
  dsimp only
  rw [htake, hdrop, hread, if_neg h.name_ne]

theorem sepName_block (h : c.Legible S N) (rest : List Char) :
    sepName (toolSep ++ c.name.toList ++ '\n' :: rest) =
      some (c.name.toList, toolSep.length + c.name.toList.length) := by
  have hname : Introduces [] c.name.toList ('\n' :: rest) := by
    refine ⟨by simp, by simpa using h.name_ne, ?_, ?_⟩
    · intro ch hch
      obtain ⟨hspace, htick, hbrace, -⟩ := h.name_chars ch hch
      simp [isNameChar, hspace, htick, hbrace]
    · intro ch hch
      obtain rfl := Option.some.inj hch
      decide
  rw [List.append_assoc]
  exact sepName_introduces hname

theorem strip_name (h : c.Legible S N) : strip (String.ofList c.name.toList) = c.name := by
  unfold strip
  rw [String.toList_ofList, trimBoth_eq_self, String.ofList_toList]
  · intro ch hch
    exact (h.name_chars ch (List.mem_of_mem_head? hch)).1
  · intro ch hch
    exact (h.name_chars ch (List.mem_of_mem_getLast? hch)).1

theorem blockCall_inner (h : c.Legible S N) :
    blockCall (c.inner S N) = some (c.name, c.json S N) := by
  have hfunction := (tokenFree_of_notMem
    (show '<' ∉ ['f', 'u', 'n', 'c', 't', 'i', 'o', 'n'] by decide)).2.2
  have hsep := sepName_block h (c.json S N)
  unfold WrittenCall.inner blockCall
  have hfind : findIter sepName 0 0
      (['f', 'u', 'n', 'c', 't', 'i', 'o', 'n'] ++ toolSep ++ c.name.toList ++ '\n' :: c.json S N) =
      ⟨8, c.name.toList, 8 + (toolSep.length + c.name.toList.length)⟩ ::
        findIter sepName 0 (8 + (toolSep.length + c.name.toList.length))
          ((toolSep ++ c.name.toList ++ '\n' :: c.json S N).drop
            (toolSep.length + c.name.toList.length)) := by
    rw [List.append_assoc, List.append_assoc, ← List.append_assoc toolSep,
      findIter_startsWith sepName_startsWith hfunction]
    · exact findIter_match hsep (by rw [toolSep_eq]; simp) (by rw [toolSep_eq]; simp)
    · intro ch hch
      rw [toolSep_eq] at hch
      obtain rfl : '<' = ch := by simpa using hch
      exact lt_notMem_toolSep
  have hfront : (['f', 'u', 'n', 'c', 't', 'i', 'o', 'n'] ++ toolSep ++ c.name.toList).length =
      8 + (toolSep.length + c.name.toList.length) := by
    simp only [List.length_append]
    rw [Nat.add_assoc]
    rfl
  rw [hfind]
  simp only [List.head?_cons, namedArgs]
  rw [strip_name h, ← hfront, extractBalancedJson_block h]
  rfl

/-- The two tokens part at their eighth character. -/
theorem callEnd_not_prefix_toolSep (rest : List Char) : ¬ callEnd <+: toolSep ++ rest := by
  have hend : callEnd = callEnd.take 7 ++ 'c' :: callEnd.drop 8 := rfl
  have hsep : toolSep = callEnd.take 7 ++ 's' :: toolSep.drop 8 := rfl
  intro h
  rw [hsep, List.append_assoc, List.cons_append] at h
  nth_rewrite 1 [hend] at h
  rw [List.prefix_append_right_inj, List.cons_prefix_cons] at h
  exact absurd h.1 (by decide)

/-- The closing token does not begin inside a block. -/
theorem callEnd_notInfix_inner (h : c.Legible S N) : ¬ callEnd <:+: c.inner S N := by
  intro hin
  have hhead : callEnd.head? = some '<' := rfl
  unfold WrittenCall.inner at hin
  rw [List.append_assoc, List.append_assoc] at hin
  have hsep := infix_of_infix_append hhead (by decide) hin
  have hname : callEnd <:+: c.name.toList ++ '\n' :: c.json S N := by
    rw [toolSep_eq, List.cons_append] at hsep
    rcases List.infix_cons_iff.mp hsep with hpre | hin
    · rw [← List.cons_append, ← toolSep_eq] at hpre
      exact absurd hpre (callEnd_not_prefix_toolSep _)
    · exact infix_of_infix_append hhead lt_notMem_toolSep hin
  have hnewline : '\n' ∉ callEnd.tail := fun hmem => newline_notMem_callEnd (List.mem_of_mem_tail hmem)
  rcases infix_append_cons hnewline hname with hname | hjson
  · exact h.name_end hname
  · exact h.json_free.2.1 (infix_of_infix_append (b := ['\n']) hhead (by decide) hjson)

theorem callBlock_closed {inner : List Char} (h : ¬ callEnd <:+: inner) (rest : List Char) :
    callBlock (callBegin ++ (inner ++ (callEnd ++ rest))) =
      some (inner, callBegin.length + (inner.length + callEnd.length)) := by
  have hend : findIter (literal callEnd) 0 0 (inner ++ (callEnd ++ rest)) =
      ⟨inner.length, (), inner.length + callEnd.length⟩ ::
        findIter (literal callEnd) 0 (inner.length + callEnd.length)
          ((callEnd ++ rest).drop callEnd.length) := by
    rw [findIter_startsWith (literal_startsWith callEnd) h, Nat.zero_add]
    · exact findIter_match (literal_eq_some.mpr ⟨List.prefix_append _ _, rfl⟩)
        (by rw [callEnd_eq]; simp) (by rw [callEnd_eq]; simp)
    · intro ch hch
      rw [callEnd_eq] at hch
      obtain rfl : '<' = ch := by simpa using hch
      exact lt_notMem_callEnd
  unfold callBlock
  rw [if_pos (by simp), List.drop_left]
  dsimp only
  rw [hend]
  simp only [List.head?_cons, Option.map_some, List.take_left]

theorem callBlock_block (h : c.Legible S N) (rest : List Char) :
    callBlock (c.block S N ++ rest) = some (c.inner S N, (c.block S N).length) := by
  have hclosed := callBlock_closed (callEnd_notInfix_inner h) rest
  unfold WrittenCall.block
  simpa only [List.append_assoc, List.length_append] using hclosed

/-! ### All blocks -/

theorem findIter_callBlock {calls : List WrittenCall} {after : List Char}
    (hcalls : ∀ c ∈ calls, c.Legible S N) (hafter : TokenFree after) (pos : ℕ) :
    (findIter callBlock 0 pos (writtenText S N calls after)).map Match.value =
      calls.map fun c => c.inner S N := by
  induction calls generalizing pos with
  | nil =>
      have hnone : findIter callBlock 0 pos (after ++ []) = _ :=
        findIter_startsWith callBlock_startsWith hafter.1 (by simp)
      rw [List.append_nil] at hnone
      rw [writtenText, hnone]
      rfl
  | cons c calls ih =>
      have hc := hcalls c (by simp)
      have hhead : ∀ ch ∈ (c.block S N ++ writtenText S N calls after).head?,
          ch ∉ callBegin.tail := by
        intro ch hch
        unfold WrittenCall.block at hch
        rw [callBegin_eq] at hch
        obtain rfl : '<' = ch := by simpa using hch
        exact lt_notMem_callBegin
      have hlen : 0 < (c.block S N).length := by
        unfold WrittenCall.block
        rw [callBegin_eq]
        simp
      rw [writtenText, findIter_startsWith callBlock_startsWith hc.before_free.1 hhead,
        findIter_match (callBlock_block hc _) hlen (by simp [← List.length_pos_iff, hlen]),
        List.drop_left, List.map_cons, List.map_cons, ih fun d hd => hcalls d (by simp [hd])]

theorem scanCustomTokenCalls_plain (order : List String) {text : List Char}
    (htext : TokenFree text) :
    scanCustomTokenCalls order text = (plainCalls order text).map fun c => (c.name, c.rawArgs) := by
  have hblocks : findIter callBlock 0 0 (text ++ []) = _ :=
    findIter_startsWith callBlock_startsWith htext.1 (by simp)
  have hseps : findIter sepName 0 0 (text ++ []) = _ :=
    findIter_startsWith sepName_startsWith htext.2.2 (by simp)
  rw [List.append_nil] at hblocks hseps
  unfold scanCustomTokenCalls
  rw [hblocks, hseps]
  rfl

/-- In a text without tokens and braces nothing is found. -/
theorem scanCustomTokenCalls_free (order : List String) {text : List Char} (htext : TokenFree text)
    (hbraces : '\x7b' ∉ text) : scanCustomTokenCalls order text = [] := by
  have hnone : ∀ start, extractBalancedJson text start = none := by
    intro start
    have hdrop : (text.drop start).dropWhile (fun c => c ≠ '\x7b') = [] := by
      rw [List.dropWhile_eq_nil_iff]
      intro ch hch
      simp only [decide_eq_true_eq]
      rintro rfl
      exact hbraces (List.mem_of_mem_drop hch)
    unfold extractBalancedJson
    rw [hdrop]
    rfl
  have hnil : (order.flatMap fun _ => ([] : List PlainCall)) = [] := by simp
  rw [scanCustomTokenCalls_plain order htext]
  unfold plainCalls positionedCalls
  simp [hnone, hnil]

/-- The scan finds the names and the arguments that were written. -/
theorem scanCustomTokenCalls_written (order : List String) {calls : List WrittenCall}
    {after : List Char} (hcalls : ∀ c ∈ calls, c.Legible S N) (hafter : TokenFree after)
    (hbraces : '\x7b' ∉ after) :
    scanCustomTokenCalls order (writtenText S N calls after) =
      calls.map fun c => (c.name, c.json S N) := by
  cases hwritten : calls with
  | nil => exact scanCustomTokenCalls_free order hafter hbraces
  | cons d ds =>
      have hvalues := findIter_callBlock hcalls hafter 0
      rw [← hwritten]
      unfold scanCustomTokenCalls
      split
      · rename_i b bs hfind
        have hread : ∀ ms : List (Match (List Char)),
            ms.map Match.value = calls.map (fun c => c.inner S N) →
              ms.filterMap (fun m => blockCall m.value) = calls.map fun c => (c.name, c.json S N) := by
          intro ms hms
          have hvalue : ms.filterMap (fun m => blockCall m.value) =
              (ms.map Match.value).filterMap blockCall := by
            rw [List.filterMap_map]
            rfl
          rw [hvalue, hms, List.filterMap_map, ← List.filterMap_eq_map]
          apply List.filterMap_congr
          intro c hc
          exact blockCall_inner (hcalls c hc)
        exact hread (b :: bs) (by rw [← hfind, hvalues])
      · rename_i hfind
        rw [hfind, hwritten] at hvalues
        cases hvalues

theorem textCall_text (idx : ℕ) (found : String × List Char) :
    ((textCall N idx found).name, (textCall N idx found).rawArgs) =
      (found.1, String.ofList found.2) := by
  unfold textCall
  dsimp only
  split
  · split <;> rfl
  · rfl

theorem textCall_written (h : c.Legible S N) (idx : ℕ) :
    textCall N idx (c.name, c.json S N) = c.expected S N idx := by
  have hparse : parseArgsFragment N (String.ofList (c.json S N)) = some c.args := by
    unfold parseArgsFragment loadsDict WrittenCall.json
    rw [String.ofList_toList, loads_dumps h.numbers h.keys]
    rfl
  unfold textCall WrittenCall.expected
  dsimp only
  rw [hparse]

/-- **Recovery.** A response without calls of its own whose text consists of call blocks, and of
other text without tokens and braces, gives the calls that were written. -/
theorem extractToolCalls_rendered {calls : List WrittenCall} {after : List Char}
    (hcalls : ∀ c ∈ calls, c.Legible S N) (hafter : TokenFree after)
    (hbraces : '\x7b' ∉ after ∧ '\x7d' ∉ after) (T : Style) (order : List String) :
    extractToolCalls T N order ⟨[], String.ofList (writtenText S N calls after)⟩ =
      ⟨calls.mapIdx fun idx c => c.expected S N idx, decide (calls ≠ [])⟩ := by
  unfold extractToolCalls
  rw [if_neg (by simp)]
  dsimp only
  rw [String.toList_ofList, scanCustomTokenCalls_written order hcalls hafter hbraces.1]
  congr 1
  · apply List.ext_getElem
    · simp
    · intro idx _ hidx
      rw [List.length_mapIdx] at hidx
      simpa using textCall_written (hcalls calls[idx] (List.getElem_mem hidx)) idx
  · simp

end

/-! ### Two calls and one without a name -/

/-- The numbers of the sample calls. -/
def sampleNumbers : NumSyntax PyNum := .ofTable [(.int 5, ['5'])]

theorem sampleNumbers_readable : sampleNumbers.Readable (.int 5) := by decide

/-- Arguments with a number in an object, and with braces and quotes in a string. -/
def sampleArgs : Kwargs := [("s", .str "\x7d\x7b\""), ("w", .dict [("n", .int 5)])]

def candlesCall : WrittenCall := ⟨['a', 't', ' '], "get_candles", sampleArgs⟩

def fetchCall : WrittenCall := ⟨[' '], "fetch", []⟩

theorem candlesCall_legible : candlesCall.Legible .asciiSpaced sampleNumbers where
  before_free := tokenFree_of_notMem (by decide)
  before_braces := by decide
  name_ne := by decide
  name_chars := List.forall_iff_forall_mem.mp (by decide)
  name_end := callEnd_notInfix (by decide)
  json_free := by
    rw [json_eq]
    exact tokenFree_of_notMem (by decide)
  numbers := ⟨trivial, ⟨sampleNumbers_readable, trivial⟩, trivial⟩
  keys := ⟨by decide, trivial, ⟨by decide, trivial, trivial⟩, trivial⟩

theorem fetchCall_legible : fetchCall.Legible .asciiSpaced sampleNumbers where
  before_free := tokenFree_of_notMem (by decide)
  before_braces := by decide
  name_ne := by decide
  name_chars := List.forall_iff_forall_mem.mp (by decide)
  name_end := callEnd_notInfix (by decide)
  json_free := by
    rw [json_eq]
    exact tokenFree_of_notMem (by decide)
  numbers := trivial
  keys := ⟨List.nodup_nil, trivial⟩

theorem extractToolCalls_rendered_two :
    extractToolCalls .asciiSpaced sampleNumbers registeredToolNames
      ⟨[], String.ofList (writtenText .asciiSpaced sampleNumbers [candlesCall, fetchCall] ['.'])⟩ =
      ⟨[candlesCall.expected .asciiSpaced sampleNumbers 0,
        fetchCall.expected .asciiSpaced sampleNumbers 1], true⟩ :=
  extractToolCalls_rendered
    (fun _ hc => by
      rcases List.mem_pair.mp hc with rfl | rfl
      · exact candlesCall_legible
      · exact fetchCall_legible)
    (tokenFree_of_notMem (by decide)) (by decide) _ _

/-- The names found for one written call without arguments. -/
def namesFound (name : List Char) : List String :=
  (extractToolCalls .asciiSpaced sampleNumbers registeredToolNames
    ⟨[], String.ofList (writtenText .asciiSpaced sampleNumbers
      [⟨[], String.ofList name, []⟩] [])⟩).calls.map ExtractedCall.name

theorem namesFound_eq (name : List Char) :
    namesFound name = (scanCustomTokenCalls registeredToolNames
      (callBegin ++ (['f', 'u', 'n', 'c', 't', 'i', 'o', 'n'] ++ toolSep ++ name ++
        ['\n', '\x7b', '\x7d']) ++ callEnd)).map Prod.fst := by
  have htext : writtenText .asciiSpaced sampleNumbers [⟨[], String.ofList name, []⟩] [] =
      callBegin ++ (['f', 'u', 'n', 'c', 't', 'i', 'o', 'n'] ++ toolSep ++ name ++
        ['\n', '\x7b', '\x7d']) ++ callEnd := by
    simp [writtenText, WrittenCall.block, WrittenCall.inner, json_eq, toMembers, print]
  unfold namesFound extractToolCalls
  rw [if_neg (by simp), htext]
  dsimp only
  rw [String.toList_ofList]
  apply List.ext_getElem
  · simp
  · intro idx _ _
    simpa using congrArg Prod.fst (textCall_text idx _)

/-- Without a name the word before the separator is taken for it, and a name that holds the closing
token is cut there. -/
theorem illegible_names_misread :
    TokenFree (WrittenCall.json .asciiSpaced sampleNumbers ⟨[], "", []⟩) ∧
      namesFound [] = ["function"] ∧ namesFound ('x' :: callEnd) = ["x"] := by
  refine ⟨?_, ?_, ?_⟩
  · rw [json_eq]
    exact tokenFree_of_notMem (by decide)
  · rw [namesFound_eq]
    decide +kernel
  · rw [namesFound_eq]
    decide +kernel

end AiTrader.Agent
