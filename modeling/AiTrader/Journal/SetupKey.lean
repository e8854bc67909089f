import AiTrader.Agent.Graph
import AiTrader.Float
import AiTrader.Library.Dict

/-! # The fingerprint of a setup

`derive_setup_tags` and `setup_key_from_tags` of `journal.py` write it, `parse_setup_key` of
`attribution.py` reads it.

* `deriveSetupTags`: the tags; `none` where the function raises.
* `parseSetupKey`: the dimensions of a key and their values.
* `setup_key_round_trip`: what is read is what was written. -/

namespace AiTrader.Journal

open Text
open Agent (Host)

/-! ### Reading a decision -/

section
variable (h : Host)

/-- `str(v or "")`. -/
def textOr (default : String) (v : PyVal) : String := if v.truthy then h.text v else default

/-- `str(v or "").strip().lower()`. -/
def word (v : PyVal) : String := h.casing.lower (strip (textOr h "" v))

/-- `v or {}`; `none` is a value without `get`. -/
def dictOr : PyVal → Option Kwargs
  | .dict kvs => some kvs
  | v => if v.truthy then none else some []

/-- `v.get("available") is False`. -/
def isUnavailable (entry : Kwargs) : Bool :=
  match entry.get "available" with
  | .bool false => true
  | _ => false

/-- The entry of a defensibility record, when it is a dictionary. -/
def evidence (decision : Kwargs) (key : String) : Option Kwargs :=
  (dictOr (decision.get "defensibility")).bind fun deff =>
    match deff.get key with
    | .dict entry => some entry
    | _ => none

/-- An entry that is not marked unavailable. -/
def available (decision : Kwargs) (key : String) : Option Kwargs :=
  (evidence decision key).filter fun entry => !isUnavailable entry

/-- The tag of an entry, or `unknown`. -/
def tagOr (entry : Option Kwargs) (tag : Kwargs → Option String) : String :=
  (entry.bind tag).getD "unknown"

/-- A text of an enumeration. -/
def among (values : List String) (s : String) : Option String :=
  if s ∈ values then some s else none

/-! ### One dimension each -/

def regimeTagValues : List String :=
  ["trend-favorable", "trend-unfavorable", "trend-neutral", "range-favorable",
    "range-unfavorable", "range-neutral", "unknown"]

def regimeTrendFamily : List (String × String) :=
  [("trending", "trend"), ("transitional", "trend"), ("ranging", "range")]

def regimeTag (decision : Kwargs) : String :=
  tagOr (available decision "regime") fun regime =>
    match regimeTrendFamily.lookup (word h (regime.get "trend_state")),
      among ["favorable", "unfavorable", "neutral"] (word h (regime.get "favorability")) with
    | some family, some favorability => among regimeTagValues (family ++ "-" ++ favorability)
    | _, _ => none

def rsTagValues : List String :=
  ["leader-aligned", "leader-misaligned", "laggard-aligned", "laggard-misaligned",
    "inline-neutral", "aligned", "misaligned", "unknown"]

def alignments : List String := ["aligned", "misaligned", "neutral"]

def relativeStrengthTag (decision : Kwargs) : String :=
  tagOr (available decision "relative_strength") fun rs =>
    match among ["leader", "inline", "laggard"] (word h (rs.get "relative_strength_state")),
      among alignments (word h (rs.get "alignment")) with
    | some state, some alignment =>
        (among rsTagValues (state ++ "-" ++ alignment)).or (among rsTagValues alignment)
    | _, _ => none

def fcTagValues : List String :=
  ["aligned-strong", "aligned-weak", "misaligned-strong", "misaligned-weak", "neutral-strong",
    "neutral-weak", "unknown"]

def fcStrongProbSplit : F64 := h.rnd (15 / 100)

/-- A number as a double. -/
def doubleOf : PyVal → Option F64
  | .int z => some (h.rnd z)
  | .float x => some x
  | _ => none

def forecastBand (upProbability : F64) : String :=
  if F64.le (fcStrongProbSplit h) (F64.abs (F64.sub h.rnd upProbability (.fin (1 / 2)))) then
    "strong"
  else "weak"

def forecastTag (decision : Kwargs) : String :=
  tagOr (available decision "forecast") fun fc =>
    let upProbability := fc.get "up_probability"
    match among alignments (word h (fc.get "forecast_alignment")), doubleOf h upProbability,
      isFiniteNumber upProbability with
    | some alignment, some x, some true =>
        among fcTagValues (alignment ++ "-" ++ forecastBand h x)
    | _, _, _ => none

def managementStyleTags : List String :=
  ["single", "scale", "scale-be", "scale-trail", "scale-be-trail", "be", "trail", "unknown"]

def managementStyleTag (decision : Kwargs) : String :=
  tagOr (available decision "management") fun mgmt =>
    among managementStyleTags (word h (mgmt.get "style"))

def sessTagValues : List String :=
  ["opening", "morning", "midday", "afternoon", "closing", "offhours", "expiry", "unknown"]

def isExpiryDay (sess : Kwargs) : Bool :=
  match sess.get "expiry_context" with
  | .dict context => (Kwargs.get context "is_expiry_day").truthy
  | _ => false

def sessionTag (decision : Kwargs) : String :=
  tagOr (available decision "session") fun sess =>
    let phase := word h (sess.get "session_phase")
    let offhours := decide (phase ∈ ["pre_open", "post_close"])
    if !decide (phase ∈ ["opening", "morning", "midday", "afternoon", "closing"]) && !offhours then
      none
    else if isExpiryDay sess && decide (phase ∈ ["afternoon", "closing"]) then some "expiry"
    else if offhours then some "offhours"
    else among sessTagValues phase

def dbTagValues : List String := ["strong_agree", "lean", "contested", "unknown"]

def debateTag (decision : Kwargs) : String :=
  tagOr (evidence decision "debate") fun debate =>
    among ["strong_agree", "lean", "contested"] (word h (debate.get "consensus"))

def optTagValues : List String :=
  ["bullish-aligned", "bullish-misaligned", "bearish-aligned", "bearish-misaligned", "neutral",
    "unknown"]

def optionsTag (decision : Kwargs) : String :=
  tagOr (available decision "options") fun opts =>
    match among ["bullish", "bearish", "neutral"] (word h (opts.get "options_bias_state")),
      among alignments (word h (opts.get "alignment")) with
    | some bias, some alignment =>
        if bias = "neutral" then some "neutral" else among optTagValues (bias ++ "-" ++ alignment)
    | _, _ => none

def evtTagValues : List String := ["clear", "imminent", "through_event", "unknown"]

def eventTag (decision : Kwargs) : String :=
  tagOr (available decision "event") fun event =>
    among ["clear", "imminent", "through_event"] (word h (event.get "event_risk"))

def tierTagValues : List String := ["a_plus", "b_continuation", "scalp", "stand_aside", "unknown"]

def tierTag (decision : Kwargs) : String :=
  match decision.get "opportunity_tier" with
  | .str tier =>
      (among ["a_plus", "b_continuation", "scalp", "stand_aside"]
        (h.casing.lower (strip tier))).getD "unknown"
  | _ => "unknown"

def actionText (decision : Kwargs) : String :=
  h.casing.upper (textOr h "HOLD" (decision.get "action"))

def macroTag (deff : Kwargs) : String :=
  let mc := h.casing.lower (textOr h "" (deff.get "macro_trend_conflict"))
  if contains mc "macro conflict" then "against"
  else if contains mc "aligned with the 1d" then "aligned"
  else if contains mc "unavailable" then "unknown"
  else "neutral"

def predTag (deff : Kwargs) : String :=
  let pc := h.casing.lower (textOr h "" (deff.get "predictive_conflict"))
  if contains pc "no predictive conflict" || contains pc "aligns with trade bias" then "aligned"
  else if startsWith pc "conflict" || contains pc "conflict:" then "conflict"
  else "na"

/-- The place of the price; `none` where `volume_profile` has no `get`. -/
def vaTag (deff : Kwargs) : Option String :=
  (dictOr (deff.get "volume_profile")).map fun vp =>
    match vp.get "price_vs_value_area" with
    | .str "above_value_area" => "above"
    | .str "inside_value_area" => "inside"
    | .str "below_value_area" => "below"
    | _ => "unknown"

/-! ### The key -/

def tag (dimension value : String) : String := dimension ++ ":" ++ value

/-- `derive_setup_tags`. -/
def deriveSetupTags (decision : Kwargs) : Option (List String) := do
  let deff ← dictOr (decision.get "defensibility")
  let va ← vaTag deff
  return [tag "dir" (actionText h decision), tag "macro" (macroTag h deff),
    tag "pred" (predTag h deff), tag "va" va, tag "regime" (regimeTag h decision),
    tag "rs" (relativeStrengthTag h decision), tag "fc" (forecastTag h decision),
    tag "tm" (managementStyleTag h decision), tag "sess" (sessionTag h decision),
    tag "db" (debateTag h decision), tag "opt" (optionsTag h decision),
    tag "tier" (tierTag h decision), tag "evt" (eventTag h decision)]

def setupKeyFromTags (tags : List String) : String :=
  if tags = [] then "unknown" else String.intercalate "|" tags

/-- `cs.partition(c)`: what follows the first `c`, if there is one. -/
def partition (c : Char) (cs : List Char) : List Char × Option (List Char) :=
  (cs.takeWhile (· ≠ c), (cs.dropWhile (· ≠ c)).tail?)

/-- A value as it is kept. -/
def fieldValue (dimension : String) (value : Option String) : String :=
  let value := if dimension = "" then "unknown" else value.getD "unknown"
  if value = "" ∨ h.casing.lower value = "unknown" then "unknown" else value

/-- One token of a key. -/
def parseToken (fields : Dict String String) (token : List Char) : Dict String String :=
  let token := trimBoth isSpace token
  if token = [] then fields
  else
    let parts := partition ':' token
    let dimension := strip (String.ofList parts.1)
    fields.put dimension
      (fieldValue h dimension (parts.2.map fun value => strip (String.ofList value)))

/-- `parse_setup_key`. -/
def parseSetupKey : PyVal → Dict String String
  | .str key =>
      if strip key = "" then Table.empty
      else (key.toList.splitOn '|').foldl (parseToken h) Table.empty
  | _ => Table.empty

end

/-! ### The enumerations -/

/-- The values of every dimension but the direction. -/
def tagValues : List (String × List String) :=
  [("macro", ["against", "aligned", "unknown", "neutral"]),
    ("pred", ["aligned", "conflict", "na"]),
    ("va", ["above", "inside", "below", "unknown"]), ("regime", regimeTagValues),
    ("rs", rsTagValues), ("fc", fcTagValues), ("tm", managementStyleTags),
    ("sess", sessTagValues), ("db", dbTagValues), ("opt", optTagValues),
    ("tier", tierTagValues), ("evt", evtTagValues)]

/-- The dimensions of a key. -/
def dimensions : List String := "dir" :: tagValues.map Prod.fst

section
variable {h : Host} {decision deff : Kwargs} {values : List String} {v w : String}

theorem among_mem (hv : among values w = some v) : v ∈ values := by
  unfold among at hv
  split at hv
  · cases hv
    assumption
  · cases hv

theorem tagOr_mem {entry : Option Kwargs} {tag : Kwargs → Option String}
    (hunknown : "unknown" ∈ values) (htag : ∀ e v, tag e = some v → v ∈ values) :
    tagOr entry tag ∈ values := by
  unfold tagOr
  cases hv : entry.bind tag with
  | none => exact hunknown
  | some v =>
      obtain ⟨e, -, he⟩ := Option.bind_eq_some_iff.mp hv
      exact htag e v he

theorem regimeTag_mem : regimeTag h decision ∈ regimeTagValues := by
  refine tagOr_mem (by decide) fun e v hv => ?_
  split at hv
  · exact among_mem hv
  · cases hv

theorem relativeStrengthTag_mem : relativeStrengthTag h decision ∈ rsTagValues := by
  refine tagOr_mem (by decide) fun e v hv => ?_
  split at hv
  · obtain hv | ⟨-, hv⟩ := Option.or_eq_some_iff.mp hv
    · exact among_mem hv
    · exact among_mem hv
  · cases hv

theorem forecastTag_mem : forecastTag h decision ∈ fcTagValues := by
  refine tagOr_mem (by decide) fun e v hv => ?_
  dsimp only at hv
  split at hv
  · exact among_mem hv
  · cases hv

theorem managementStyleTag_mem : managementStyleTag h decision ∈ managementStyleTags :=
  tagOr_mem (by decide) fun _ _ hv => among_mem hv

theorem sessionTag_mem : sessionTag h decision ∈ sessTagValues := by
  refine tagOr_mem (by decide) fun e v hv => ?_
  dsimp only at hv
  split at hv
  · cases hv
  · split at hv
    · cases hv
      decide
    · split at hv
      · cases hv
        decide
      · exact among_mem hv

theorem debateTag_mem : debateTag h decision ∈ dbTagValues :=
  tagOr_mem (by decide) fun _ _ hv =>
    (show _ ⊆ dbTagValues by decide) (among_mem hv)

theorem optionsTag_mem : optionsTag h decision ∈ optTagValues := by
  refine tagOr_mem (by decide) fun e v hv => ?_
  split at hv
  · split at hv
    · cases hv
      decide
    · exact among_mem hv
  · cases hv

theorem eventTag_mem : eventTag h decision ∈ evtTagValues :=
  tagOr_mem (by decide) fun _ _ hv =>
    (show _ ⊆ evtTagValues by decide) (among_mem hv)

theorem tierTag_mem : tierTag h decision ∈ tierTagValues := by
  unfold tierTag
  split
  · rename_i tier _
    cases hv : among ["a_plus", "b_continuation", "scalp", "stand_aside"]
        (h.casing.lower (strip tier)) with
    | none => decide
    | some v => exact (show _ ⊆ tierTagValues by decide) (among_mem hv)
  · decide

theorem macroTag_mem : macroTag h deff ∈ ["against", "aligned", "unknown", "neutral"] := by
  unfold macroTag
  dsimp only
  split_ifs <;> decide

theorem predTag_mem : predTag h deff ∈ ["aligned", "conflict", "na"] := by
  unfold predTag
  dsimp only
  split_ifs <;> decide

theorem vaTag_mem (hv : vaTag deff = some v) : v ∈ ["above", "inside", "below", "unknown"] := by
  obtain ⟨vp, -, rfl⟩ := Option.map_eq_some_iff.mp hv
  split <;> decide

/-- The fields of the key after the direction. -/
def evidenceFields (h : Host) (decision deff : Kwargs) (va : String) : List (String × String) :=
  [("macro", macroTag h deff), ("pred", predTag h deff), ("va", va),
    ("regime", regimeTag h decision), ("rs", relativeStrengthTag h decision),
    ("fc", forecastTag h decision), ("tm", managementStyleTag h decision),
    ("sess", sessionTag h decision), ("db", debateTag h decision), ("opt", optionsTag h decision),
    ("tier", tierTag h decision), ("evt", eventTag h decision)]

/-- Every field has a value of its dimension. -/
def InEnumerations (fields : List (String × String)) : Prop :=
  List.Forall₂ (fun f d => f.1 = d.1 ∧ f.2 ∈ d.2) fields tagValues

theorem evidenceFields_mem {va : String} (hva : vaTag deff = some va) :
    InEnumerations (evidenceFields h decision deff va) := by
  simp only [InEnumerations, evidenceFields, tagValues, List.forall₂_cons, List.forall₂_nil_left_iff,
    true_and, and_true]
  exact ⟨macroTag_mem, predTag_mem, vaTag_mem hva, regimeTag_mem, relativeStrengthTag_mem,
    forecastTag_mem, managementStyleTag_mem, sessionTag_mem, debateTag_mem, optionsTag_mem,
    tierTag_mem, eventTag_mem⟩

theorem deriveSetupTags_eq {tags : List String} (ht : deriveSetupTags h decision = some tags) :
    ∃ fields, InEnumerations fields ∧
      tags = (("dir", actionText h decision) :: fields).map fun f => tag f.1 f.2 := by
  obtain ⟨deff, -, ht⟩ := Option.bind_eq_some_iff.mp ht
  obtain ⟨va, hva, ht⟩ := Option.bind_eq_some_iff.mp ht
  refine ⟨evidenceFields h decision deff va, evidenceFields_mem hva, ?_⟩
  rw [← Option.some_inj.mp ht]
  simp only [evidenceFields, List.map_cons, List.map_nil]

theorem InEnumerations.keys {fields : List (String × String)} (hf : InEnumerations fields) :
    fields.map Prod.fst = tagValues.map Prod.fst := by
  unfold InEnumerations at hf
  generalize tagValues = ds at hf ⊢
  induction hf with
  | nil => rfl
  | cons hd _ ih => rw [List.map_cons, List.map_cons, hd.1, ih]

theorem InEnumerations.forall_mem {fields : List (String × String)}
    {P : String × String → Prop} (hf : InEnumerations fields)
    (hP : ∀ d ∈ tagValues, ∀ v ∈ d.2, P (d.1, v)) : ∀ f ∈ fields, P f := by
  unfold InEnumerations at hf
  generalize tagValues = ds at hf hP
  induction hf with
  | nil => simp
  | cons hd _ ih =>
      rw [List.forall_mem_cons] at hP ⊢
      refine ⟨?_, ih hP.2⟩
      have hhead := hP.1 _ hd.2
      rwa [← hd.1] at hhead

end

/-! ### What is read back -/

/-- A value that is kept as it is. -/
structure Plain (h : Host) (v : String) : Prop where
  bar : '|' ∉ v.toList
  stripped : strip v = v
  nonempty : v ≠ ""
  known : h.casing.lower v = "unknown" → v = "unknown"

section
variable {h : Host} {d v : String} {cs : List Char}

theorem plain_of_word (h : Host) (hv : v.toList.all isPlainChar = true) (hne : v ≠ "") :
    Plain h v where
  bar := notMem_of_word hv (by decide)
  stripped := strip_word hv
  nonempty := hne
  known := by
    rw [h.casing.lower_word hv]
    exact id

theorem Plain.getLast (hv : Plain h v) : ∀ c ∈ v.toList.getLast?, isSpace c = false := by
  intro c hc
  have hlist : trimBoth isSpace v.toList = v.toList := by
    have hstrip := congrArg String.toList hv.stripped
    rwa [strip, String.toList_ofList] at hstrip
  rw [← hlist, trimBoth, List.getLast?_reverse] at hc
  exact head_dropWhile c hc

theorem partition_of_notMem {c : Char} {before after : List Char} (hc : c ∉ before) :
    partition c (before ++ c :: after) = (before, some after) := by
  have hne : ∀ x ∈ before, decide (x ≠ c) = true := fun x hx =>
    decide_eq_true fun heq => hc (heq ▸ hx)
  rw [partition, List.takeWhile_append_of_pos hne, List.dropWhile_append_of_pos hne]
  simp

theorem tag_toList (d v : String) : (tag d v).toList = d.toList ++ ':' :: v.toList := by
  simp [tag, String.toList_append]

theorem parseToken_tag (hd : d.toList.all isPlainChar = true) (hne : d ≠ "") (hv : Plain h v)
    (fields : Dict String String) : parseToken h fields (tag d v).toList = fields.put d v := by
  have hdlist : d.toList ≠ [] := fun hnil => hne (String.toList_eq_nil_iff.mp hnil)
  have hvlist : v.toList ≠ [] := fun hnil => hv.nonempty (String.toList_eq_nil_iff.mp hnil)
  have htrim : trimBoth isSpace (tag d v).toList = (tag d v).toList := by
    rw [tag_toList]
    refine trimBoth_eq_self (fun c hc => ?_) fun c hc => ?_
    · rw [List.head?_append_of_ne_nil _ hdlist] at hc
      exact not_space_of_plainChar (List.all_eq_true.mp hd c (List.mem_of_mem_head? hc))
    · rw [List.getLast?_append_of_ne_nil _ (List.cons_ne_nil _ _),
        List.getLast?_cons_of_ne_nil hvlist] at hc
      exact hv.getLast c hc
  have hcolon : ':' ∉ d.toList := notMem_of_word hd (by decide)
  have hdstrip : strip d = d := strip_word hd
  have hcons : ¬ d.toList ++ ':' :: v.toList = [] := by simp
  have hvalue : fieldValue h d (some v) = v := by
    simp only [fieldValue, if_neg hne, Option.getD_some]
    split
    · rename_i hor
      exact (hor.elim (fun hv0 => absurd hv0 hv.nonempty) hv.known).symm
    · rfl
  unfold parseToken
  dsimp only
  rw [htrim, tag_toList, if_neg hcons, partition_of_notMem hcolon, String.ofList_toList, hdstrip,
    Option.map_some, String.ofList_toList, hv.stripped, hvalue]

/-- A field that is written and read alike. -/
structure Legible (h : Host) (f : String × String) : Prop where
  dimension : f.1.toList.all isPlainChar = true
  nonempty : f.1 ≠ ""
  value : Plain h f.2

theorem Legible.bar {f : String × String} (hf : Legible h f) : '|' ∉ (tag f.1 f.2).toList := by
  rw [tag_toList, List.mem_append, List.mem_cons]
  rintro (hd | hcolon | hv)
  · exact notMem_of_word hf.dimension (by decide) hd
  · exact absurd hcolon (by decide)
  · exact hf.value.bar hv

theorem foldl_parseToken {fields : List (String × String)} (hf : ∀ f ∈ fields, Legible h f)
    (d : Dict String String) :
    (fields.map fun f => (tag f.1 f.2).toList).foldl (parseToken h) d =
      fields.foldl (fun d f => d.put f.1 f.2) d := by
  induction fields generalizing d with
  | nil => rfl
  | cons f fields ih =>
      rw [List.forall_mem_cons] at hf
      rw [List.map_cons, List.foldl_cons, List.foldl_cons, ih hf.2,
        parseToken_tag hf.1.dimension hf.1.nonempty hf.1.value]

/-- Legible fields with distinct dimensions are read back. -/
theorem parseSetupKey_tags {fields : List (String × String)} (hne : fields ≠ [])
    (hf : ∀ f ∈ fields, Legible h f) (hnodup : (fields.map Prod.fst).Nodup) :
    (parseSetupKey h (.str (setupKeyFromTags (fields.map fun f => tag f.1 f.2)))).rows =
      fields := by
  have htags : (fields.map fun f => tag f.1 f.2) ≠ [] := by simpa using hne
  have hchars : (setupKeyFromTags (fields.map fun f => tag f.1 f.2)).toList =
      ['|'].intercalate (fields.map fun f => (tag f.1 f.2).toList) := by
    rw [setupKeyFromTags, if_neg htags, String.toList_intercalate, List.map_map]
    rfl
  have hsplit : (setupKeyFromTags (fields.map fun f => tag f.1 f.2)).toList.splitOn '|' =
      fields.map fun f => (tag f.1 f.2).toList := by
    rw [hchars]
    refine List.splitOn_intercalate '|' (fun l hl => ?_) (by simpa using hne)
    obtain ⟨f, hmem, rfl⟩ := List.mem_map.mp hl
    exact (hf f hmem).bar
  have hblank : strip (setupKeyFromTags (fields.map fun f => tag f.1 f.2)) ≠ "" := by
    intro hstrip
    obtain ⟨l, r, hlr, hl, hr⟩ :=
      trimBoth_split isSpace (setupKeyFromTags (fields.map fun f => tag f.1 f.2)).toList
    have hnil := congrArg String.toList hstrip
    rw [strip, String.toList_ofList] at hnil
    have hcolon : ':' ∈ (setupKeyFromTags (fields.map fun f => tag f.1 f.2)).toList := by
      obtain ⟨f, fs, rfl⟩ := List.exists_cons_of_ne_nil hne
      have hfirst : ':' ∈ (tag f.1 f.2).toList := by simp [tag_toList]
      rw [hchars, List.map_cons]
      cases fs with
      | nil => rwa [List.map_nil, List.intercalate_singleton]
      | cons g gs =>
          rw [List.map_cons, List.intercalate_cons_cons]
          exact List.mem_append_left _ (List.mem_append_left _ hfirst)
    rw [hlr, hnil] at hcolon
    have hspace : isSpace ':' = true := by
      simp only [String.toList_empty, List.append_nil, List.mem_append] at hcolon
      exact hcolon.elim (hl ':') (hr ':')
    exact absurd hspace (by decide)
  rw [parseSetupKey, if_neg hblank, hsplit, foldl_parseToken hf]
  exact Dict.ofList_rows hnodup

theorem tagValues_legible (h : Host) :
    ∀ d ∈ tagValues, ∀ v ∈ d.2, Legible h (d.1, v) := by
  have hchars : ∀ d ∈ tagValues, (d.1.toList.all isPlainChar = true ∧ d.1 ≠ "") ∧
      ∀ v ∈ d.2, v.toList.all isPlainChar = true ∧ v ≠ "" := by decide
  intro d hd v hv
  obtain ⟨⟨hdim, hdne⟩, hvals⟩ := hchars d hd
  exact ⟨hdim, hdne, plain_of_word h (hvals v hv).1 (hvals v hv).2⟩

theorem parseSetupKey_fields {decision : Kwargs} {fields : List (String × String)}
    (hfields : InEnumerations fields) (haction : Plain h (actionText h decision)) :
    (parseSetupKey h (.str (setupKeyFromTags
      ((("dir", actionText h decision) :: fields).map fun f => tag f.1 f.2)))).rows =
      ("dir", actionText h decision) :: fields := by
  have hlegible : ∀ f ∈ ("dir", actionText h decision) :: fields, Legible h f := by
    rw [List.forall_mem_cons]
    have hdim : "dir".toList.all isPlainChar = true ∧ "dir" ≠ "" := by decide
    exact ⟨⟨hdim.1, hdim.2, haction⟩, hfields.forall_mem (tagValues_legible h)⟩
  have hnodup : ((("dir", actionText h decision) :: fields).map Prod.fst).Nodup := by
    have hdims : dimensions.Nodup := by decide
    rwa [List.map_cons, hfields.keys]
  exact parseSetupKey_tags (List.cons_ne_nil _ _) hlegible hnodup

/-- What `parse_setup_key` reads from a key is what `derive_setup_tags` wrote. -/
theorem setup_key_round_trip (h : Host) (decision : Kwargs) (tags : List String)
    (ht : deriveSetupTags h decision = some tags) (haction : Plain h (actionText h decision)) :
    ∃ fields, InEnumerations fields ∧
      tags = (("dir", actionText h decision) :: fields).map (fun f => tag f.1 f.2) ∧
      (parseSetupKey h (.str (setupKeyFromTags tags))).rows =
        ("dir", actionText h decision) :: fields := by
  obtain ⟨fields, hfields, rfl⟩ := deriveSetupTags_eq ht
  exact ⟨fields, hfields, rfl, parseSetupKey_fields hfields haction⟩

/-- A long call in a favourable trend, with a forecast against it. -/
def trendDecision : Kwargs :=
  [("action", .str "buy"),
    ("defensibility", .dict
      [("macro_trend_conflict", .str "Aligned with the 1D trend"),
        ("volume_profile", .dict [("price_vs_value_area", .str "above_value_area")]),
        ("regime", .dict [("trend_state", .str "Trending"), ("favorability", .str "favorable")]),
        ("forecast", .dict [("forecast_alignment", .str "misaligned"),
          ("up_probability", .float (.fin (7 / 10)))])])]

theorem plain_buy : Plain Agent.sampleHost "BUY" :=
  ⟨by decide, by decide +kernel, by decide, fun h => absurd h (by decide +kernel)⟩

theorem setup_key_round_trip_trend :
    ∃ tags fields, deriveSetupTags Agent.sampleHost trendDecision = some tags ∧
      tags.take 7 = ["dir:BUY", "macro:aligned", "pred:na", "va:above", "regime:trend-favorable",
        "rs:unknown", "fc:misaligned-strong"] ∧
      (parseSetupKey Agent.sampleHost (.str (setupKeyFromTags tags))).rows =
        ("dir", "BUY") :: fields := by
  have hrun : (deriveSetupTags Agent.sampleHost trendDecision).map (fun tags => tags.take 7) =
      some ["dir:BUY", "macro:aligned", "pred:na", "va:above", "regime:trend-favorable",
        "rs:unknown", "fc:misaligned-strong"] := by decide +kernel
  have hbuy : actionText Agent.sampleHost trendDecision = "BUY" := by decide +kernel
  obtain ⟨tags, htags, htake⟩ := Option.map_eq_some_iff.mp hrun
  have hplain : Plain Agent.sampleHost (actionText Agent.sampleHost trendDecision) :=
    hbuy.symm ▸ plain_buy
  obtain ⟨fields, -, -, hrows⟩ :=
    setup_key_round_trip Agent.sampleHost trendDecision tags htags hplain
  rw [hbuy] at hrows
  exact ⟨tags, fields, htags, htake, hrows⟩

end

end AiTrader.Journal
