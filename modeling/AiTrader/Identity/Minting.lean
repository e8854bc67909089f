import AiTrader.Identity.Assertion
import AiTrader.Library.Fallible

/-! # Minted assertions

The calls that mint an assertion, in either language, and what `_verify` makes of their tokens.

* `Minting.token_ok`: a token is the payload of the call and the MAC of it.
* `Minting.read_payload`: the payload is read as the claims of the call.
* `claimsOf_joined`, `claimsOf_cases`: `_verify` up to the claims, on a token with its MAC and on
  any other string. -/

namespace AiTrader.Identity

open PyJson Json

/-- Whom an assertion is about. -/
inductive Kind
  | user
  | service
  deriving DecidableEq

namespace Kind

def envName : Kind → String
  | user => envIdentitySecret
  | service => envServiceSecret

def field : Kind → String
  | user => "sub"
  | service => "svc"

/-- What a token without a subject is refused with. -/
def noSubject : Kind → String
  | user => "assertion carries no subject"
  | service => "assertion carries no service name"

/-- What a blank name is refused with. -/
def noName : Kind → String
  | user => "cannot sign an empty user id"
  | service => "cannot sign an empty service name"

def sign (R : Runtime) : Kind → Environment → String → ℤ → Option PyNum → Except Failure String
  | user => signIdentity R
  | service => signService R

def verify (R : Runtime) :
    Kind → Environment → Option String → Option PyNum → Except Failure String
  | user => verifyIdentityToken R
  | service => verifyServiceToken R

theorem sign_eq (R : Runtime) (kind : Kind) :
    kind.sign R = signSubject R kind.envName kind.field kind.noName := by
  cases kind <;> rfl

theorem verify_eq (R : Runtime) (kind : Kind) :
    kind.verify R = verifySubject R kind.envName kind.field kind.noSubject := by
  cases kind <;> rfl

end Kind

/-- A character that JSON writes as it is. -/
def isPlain (c : Char) : Bool := c ≠ '"' && c ≠ '\\' && 32 ≤ c.toNat

/-- A call that mints an assertion. -/
inductive Minting
  | python (kind : Kind) (env : Environment) (name : String) (ttl : ℤ) (now : Option PyNum)
  | toolServer (secret service : String) (iat ttl : F64)
      (plain : service.toList.all isPlain = true)

namespace Minting

def kind : Minting → Kind
  | python kind _ _ _ _ => kind
  | toolServer _ _ _ _ _ => .service

/-- The secret it signs with. -/
def key : Minting → Except Failure String
  | python kind env _ _ _ => secret env kind.envName
  | toolServer secret _ _ _ _ => .ok secret

/-- The name that the assertion carries. -/
def name : Minting → String
  | python _ _ name _ _ => Text.strip name
  | toolServer _ service _ _ _ => service

/-- The name without surrounding blanks, if there is one. -/
def subject (m : Minting) : Option String :=
  if Text.strip m.name = "" then none else some (Text.strip m.name)

/-- The time of the call. -/
def issued : Minting → PyNum
  | python _ env _ _ now => current env now
  | toolServer _ _ iat _ _ => .float iat

def lifetime : Minting → F64
  | python _ _ _ ttl _ => .fin ttl
  | toolServer _ _ _ ttl _ => ttl

section
variable (R : Runtime)

/-- What the call returns. -/
def token : Minting → Except Failure String
  | python kind env name ttl now => kind.sign R env name ttl now
  | toolServer secret service iat ttl _ => .ok (toolServerSign R secret service iat ttl)

/-- The expiry that the assertion carries. -/
def expiry : Minting → Except Failure PyNum
  | python _ env _ ttl now => plus R (current env now) ttl
  | toolServer _ _ iat ttl _ => .ok (.float (F64.add R.rnd iat ttl))

/-- The claims of an assertion that expires at `exp`. -/
def claims (m : Minting) (exp : PyNum) : Kwargs :=
  [("exp", ofNumber exp), ("iat", ofNumber m.issued), (m.kind.field, .str m.name)]

/-- Rust's texts of numbers, as Python reads them. -/
def toolServerNumbers : NumSyntax PyNum where
  text
    | .float x => formatTs R x
    | .int _ => []
  read := R.numbers.read

def numbers : Minting → NumSyntax PyNum
  | python _ _ _ _ _ => R.numbers
  | toolServer _ _ _ _ _ => toolServerNumbers R

def style : Minting → Style
  | python _ _ _ _ _ => .ascii
  | toolServer _ _ _ _ _ => .raw

/-- The numbers that the assertion carries are read back. -/
def ReadsBack (m : Minting) : Prop :=
  ∀ exp, m.expiry R = .ok exp → (m.numbers R).Readable exp ∧ (m.numbers R).Readable m.issued

/-- The payload segment of an assertion that expires at `exp`. -/
def payload (m : Minting) (exp : PyNum) : List Char :=
  Base64.encode Base64.urlSafe (utf8 (dumps m.style (m.numbers R) (.dict (m.claims exp))))

end

/-! ### The token of a call -/

section
variable {R : Runtime} {m : Minting} {exp : PyNum} {token : String}

theorem sortKeys_claims (kind : Kind) (name exp iat : PyVal) :
    sortKeys [(kind.field, name), ("iat", iat), ("exp", exp)] =
      [("exp", exp), ("iat", iat), (kind.field, name)] := by
  have hiat : ("iat" : String) ≤ "exp" ↔ False := by decide
  have hexp : kind.field ≤ "exp" ↔ False := by cases kind <;> decide
  have hfield : kind.field ≤ "iat" ↔ False := by cases kind <;> decide
  simp only [sortKeys, List.insertionSort_cons, List.insertionSort_nil, List.orderedInsert_cons,
    List.orderedInsert_nil, hiat, hexp, hfield, if_false]

theorem rawEscape_plain {c : Char} (h : isPlain c = true) : rawEscape c = [c] := by
  simp only [isPlain, Bool.and_eq_true, decide_eq_true_eq] at h
  obtain ⟨⟨hquote, hbackslash⟩, hlow⟩ := h
  have hshort : shortEscape c = none := by
    unfold shortEscape
    rw [if_neg hquote, if_neg hbackslash, if_neg, if_neg, if_neg, if_neg, if_neg]
    all_goals
      rintro rfl
      revert hlow
      decide
  rw [rawEscape, hshort, Option.getD_none, if_pos hlow]

theorem string_plain {s : String} (h : s.toList.all isPlain = true) :
    Style.raw.string s = '"' :: (s.toList ++ ['"']) := by
  have hescape : ∀ {cs : List Char}, cs.all isPlain = true → cs.flatMap rawEscape = cs := by
    intro cs hcs
    induction cs with
    | nil => rfl
    | cons c cs ih =>
        rw [List.all_cons, Bool.and_eq_true] at hcs
        rw [List.flatMap_cons, rawEscape_plain hcs.1, ih hcs.2]
        rfl
  exact congrArg (fun cs => '"' :: (cs ++ ['"'])) (hescape h)

/-- The literal of the tool-server is the JSON of the claims. -/
theorem serviceJson_eq {service : String} (h : service.toList.all isPlain = true) (iat ttl : F64) :
    serviceJson R service iat ttl = print .raw (toolServerNumbers R)
      (toValue (.dict [("exp", .float (F64.add R.rnd iat ttl)), ("iat", .float iat),
        ("svc", .str service)])) := by
  have hitem : Style.raw.itemPad = [] := rfl
  have hkey : Style.raw.keyPad = [] := rfl
  have htext : ∀ x, (toolServerNumbers R).text (.float x) = formatTs R x := fun _ => rfl
  unfold serviceJson
  simp only [toValue, toMembers, print, printMembers, hitem, hkey, htext, string_plain h,
    string_plain (s := "exp") (by decide), string_plain (s := "iat") (by decide),
    string_plain (s := "svc") (by decide)]
  simp

theorem dumps_object (S : Style) (N : NumSyntax PyNum) (kvs : Kwargs) (k : String) (v : PyVal) :
    ∃ cs, dumps S N (.dict ((k, v) :: kvs)) = String.ofList ('\x7b' :: '"' :: cs) :=
  ⟨_, rfl⟩

theorem segment_payload (m : Minting) (exp : PyNum) : Segment (m.payload R exp) := by
  apply segment_encode
  obtain ⟨cs, hcs⟩ := dumps_object m.style (m.numbers R)
    [("iat", ofNumber m.issued), (m.kind.field, .str m.name)] "exp" (ofNumber exp)
  rw [claims, hcs, utf8_eq, String.toList_ofList, List.flatMap_cons, utf8EncodeChar_ascii (by decide)]
  exact List.cons_ne_nil _ _

theorem utf8_segment {cs : List Char} (h : Segment cs) :
    utf8 (String.ofList cs) = cs.map fun c => UInt8.ofNat c.toNat := by
  have hascii : ∀ c ∈ cs, c.toNat < 128 := fun c hc =>
    of_decide_eq_true (List.all_eq_true.mp h.ascii c hc)
  rw [utf8_eq, String.toList_ofList, List.map_eq_flatMap]
  exact List.flatMap_congr fun c hc => utf8EncodeChar_ascii (hascii c hc)

/-- The tool-server computes the MAC that `_verify` expects. -/
theorem toolServerSign_eq (key service : String) (iat ttl : F64)
    (h : service.toList.all isPlain = true) :
    toolServerSign R key service iat ttl =
      joined ((toolServer key service iat ttl h).payload R (.float (F64.add R.rnd iat ttl)))
        (digestOf R key
          ((toolServer key service iat ttl h).payload R (.float (F64.add R.rnd iat ttl)))) := by
  have hpayload : Base64.encode Base64.urlSafe
      (utf8 (String.ofList (serviceJson R service iat ttl))) =
      (toolServer key service iat ttl h).payload R (.float (F64.add R.rnd iat ttl)) := by
    rw [serviceJson_eq h]
    rfl
  have hsegment := segment_payload (R := R) (toolServer key service iat ttl h)
    (.float (F64.add R.rnd iat ttl))
  unfold toolServerSign
  rw [hpayload]
  dsimp only
  rw [digestOf, utf8_segment hsegment]

theorem sign_claims (kind : Kind) (env : Environment) (name key : String) (ttl : ℤ)
    (now : Option PyNum) (exp : PyNum) :
    Identity.sign R key [(kind.field, .str (Text.strip name)),
        ("iat", ofNumber (current env now)), ("exp", ofNumber exp)] =
      .ok (joined ((python kind env name ttl now).payload R exp)
        (digestOf R key ((python kind env name ttl now).payload R exp))) := by
  have hpayload : payloadSegment R [(kind.field, .str (Text.strip name)),
      ("iat", ofNumber (current env now)), ("exp", ofNumber exp)] =
      (python kind env name ttl now).payload R exp := by
    rw [payloadSegment, sortKeys_claims, b64uEncode_eq]
    rfl
  rw [Identity.sign, hpayload, mac_of_segment (segment_payload _ exp)]
  rfl

theorem token_python {kind : Kind} {env : Environment} {name key : String} {ttl : ℤ}
    {now : Option PyNum} (hname : Text.strip name ≠ "") (hkey : secret env kind.envName = .ok key)
    (hexp : plus R (current env now) ttl = .ok exp) :
    (python kind env name ttl now).token R =
      .ok (joined ((python kind env name ttl now).payload R exp)
        (digestOf R key ((python kind env name ttl now).payload R exp))) := by
  show kind.sign R env name ttl now = _
  rw [Kind.sign_eq, signSubject, if_neg hname, hkey, hexp]
  rw [Fallible.ok_bind, Fallible.ok_bind, sign_claims]

/-- A token is the payload of the call and its MAC. -/
theorem token_ok (h : m.token R = .ok token) : ∃ key exp, m.key = .ok key ∧
    m.expiry R = .ok exp ∧
    token = joined (m.payload R exp) (digestOf R key (m.payload R exp)) := by
  cases m with
  | python kind env name ttl now =>
      have hsign : kind.sign R env name ttl now = .ok token := h
      rw [Kind.sign_eq, signSubject] at hsign
      split at hsign
      · cases hsign
      · obtain ⟨key, hkey, hsign⟩ := Fallible.bind_eq_ok.mp hsign
        obtain ⟨exp, hexp, hsign⟩ := Fallible.bind_eq_ok.mp hsign
        rw [sign_claims kind env name key ttl now exp] at hsign
        exact ⟨key, exp, hkey, hexp, (Except.ok.inj hsign).symm⟩
  | toolServer key service iat ttl plain =>
      have htoken : toolServerSign R key service iat ttl = token := Except.ok.inj h
      refine ⟨key, _, rfl, rfl, ?_⟩
      rw [← htoken, toolServerSign_eq key service iat ttl plain]

theorem forall_claims (hnum : m.ReadsBack R) (hexp : m.expiry R = .ok exp) :
    (toValue (.dict (m.claims exp))).Forall (m.numbers R).Readable := by
  have hofNumber : ∀ {n : PyNum}, (m.numbers R).Readable n →
      (toValue (ofNumber n)).Forall (m.numbers R).Readable := by
    intro n hn
    cases n <;> exact hn
  obtain ⟨hexpiry, hissued⟩ := hnum exp hexp
  exact ⟨hofNumber hexpiry, hofNumber hissued, trivial, trivial⟩

theorem distinct_claims (m : Minting) (exp : PyNum) : Distinct (.dict (m.claims exp)) := by
  have hofNumber : ∀ n, Distinct (ofNumber n) := by
    intro n
    cases n <;> exact trivial
  refine ⟨?_, hofNumber exp, hofNumber m.issued, trivial, trivial⟩
  show ["exp", "iat", m.kind.field].Nodup
  cases m.kind <;> decide

/-- **The payload is read as the claims of the call.** -/
theorem read_payload (hnum : m.ReadsBack R) (hexp : m.expiry R = .ok exp) :
    (b64uDecode (m.payload R exp)).bind (loadsBytes R.numbers) = some (.dict (m.claims exp)) := by
  obtain ⟨cs, hcs⟩ := dumps_object m.style (m.numbers R)
    [("iat", ofNumber m.issued), (m.kind.field, .str m.name)] "exp" (ofNumber exp)
  have hread : (m.numbers R).read = R.numbers.read := by
    cases m <;> rfl
  have hloads : loads R.numbers (dumps m.style (m.numbers R) (.dict (m.claims exp))) =
      some (.dict (m.claims exp)) := by
    rw [loads, ← parse_congr hread]
    exact loads_dumps (forall_claims hnum hexp) (distinct_claims m exp)
  rw [payload, b64uDecode_encode, Option.bind_some, claims, hcs,
    loadsBytes_utf8 R.numbers cs (by decide) (by decide), ← hcs]
  exact hloads

end

end Minting

/-! ### `_verify` up to the claims -/

section
variable {R : Runtime} {key token : String} {payload signature : List Char} {claims : Kwargs}

theorem splitOn_joined (hpayload : Segment payload) (hsignature : Segment signature) :
    (joined payload signature).toList.splitOn '.' = [payload, signature] := by
  rw [joined, String.toList_ofList, List.splitOn_append_cons_self_of_not_mem hpayload.dot_notMem,
    List.splitOn_eq_singleton hsignature.dot_notMem]

theorem joined_ne_empty : joined payload signature ≠ "" := by
  intro h
  have hlist := congrArg String.toList h
  rw [joined, String.toList_ofList] at hlist
  exact absurd hlist (by simp)

theorem length_joined : (joined payload signature).length = payload.length + (signature.length + 1) := by
  rw [joined, ← String.length_toList, String.toList_ofList, List.length_append, List.length_cons]

theorem length_token (m : Minting) (exp : PyNum) :
    (joined (m.payload R exp) (digestOf R key (m.payload R exp))).length =
      (4 * ((print m.style (m.numbers R) (toValue (.dict (m.claims exp)))).flatMap
        String.utf8EncodeChar).length + 2) / 3 + 44 := by
  rw [length_joined, Minting.payload, digestOf, Base64.length_encode, Base64.length_encode,
    R.digest_length, utf8_eq, dumps, String.toList_ofList]

theorem isSpace_alphabet {c : Char} (h : c ∈ b64urlAlphabet) : Text.isSpace c = false := by
  have hall : b64urlAlphabet.all (fun c => !Text.isSpace c) = true := by decide
  have hc := List.all_eq_true.mp hall c h
  rwa [Bool.not_eq_true'] at hc

/-- There are no blanks around a token. -/
theorem strip_joined (hpayload : Segment payload) (hsignature : Segment signature) :
    Text.strip (joined payload signature) = joined payload signature := by
  obtain ⟨c, p, rfl⟩ := List.exists_cons_of_ne_nil hpayload.nonempty
  rw [Text.strip, joined, String.toList_ofList, Text.trimBoth_eq_self]
  · intro x hx
    obtain rfl : c = x := Option.some.inj hx
    exact isSpace_alphabet (hpayload.alphabet c List.mem_cons_self)
  · intro x hx
    rw [List.getLast?_append_of_ne_nil _ (List.cons_ne_nil _ _),
      List.getLast?_cons_of_ne_nil hsignature.nonempty] at hx
    exact isSpace_alphabet (hsignature.alphabet x (List.mem_of_getLast? hx))

/-- The first dot ends the payload. -/
theorem payload_of_joined {payload' signature' : List Char} (h : '.' ∉ payload) (h' : '.' ∉ payload')
    (heq : joined payload signature = joined payload' signature') : payload = payload' := by
  have hlist := congrArg String.toList heq
  rw [joined, joined, String.toList_ofList, String.toList_ofList] at hlist
  have hsplit := congrArg (List.splitOn '.') hlist
  rw [List.splitOn_append_cons_self_of_not_mem h, List.splitOn_append_cons_self_of_not_mem h'] at hsplit
  exact (List.cons.inj hsplit).1

theorem claimsOf_joined (hpayload : Segment payload)
    (htoken : Text.strip token = joined payload (digestOf R key payload))
    (hlength : (Text.strip token).length ≤ maxTokenChars)
    (hread : (b64uDecode payload).bind (loadsBytes R.numbers) = some (.dict claims)) :
    claimsOf R key (some token) = .ok claims := by
  have hsignature : Segment (digestOf R key payload) := segment_digestOf
  unfold claimsOf
  rw [Option.getD_some, if_neg (by rw [htoken]; exact joined_ne_empty),
    if_neg (Nat.not_lt.mpr hlength), htoken, splitOn_joined hpayload hsignature]
  dsimp only
  rw [if_neg (not_or.mpr ⟨hpayload.nonempty, hsignature.nonempty⟩),
    requireB64url_ok.mpr hpayload, requireB64url_ok.mpr hsignature, mac_of_segment hpayload,
    Fallible.ok_bind, Fallible.ok_bind, Fallible.ok_bind,
    compareDigest_of_segment hsignature hsignature, Fallible.ok_bind, hread]
  exact if_pos (decide_eq_true rfl)

theorem requireB64url_cases (segment : List Char) (what : String) :
    (∃ message, requireB64url segment what = .error (.identity message)) ∨
      requireB64url segment what = .ok () ∧ Segment segment := by
  cases h : requireB64url segment what with
  | ok u => exact .inr ⟨rfl, requireB64url_ok.mp h⟩
  | error e =>
      unfold requireB64url at h
      split at h
      · cases h
      · cases h
        exact .inl ⟨_, rfl⟩

/-- What is not a payload with its MAC is refused. -/
theorem claimsOf_cases (R : Runtime) (key token : String) :
    (∃ message, claimsOf R key (some token) = .error (.identity message)) ∨
      ((Text.strip token).length ≤ maxTokenChars ∧
        ∃ payload, Segment payload ∧
          Text.strip token = joined payload (digestOf R key payload)) := by
  unfold claimsOf
  rw [Option.getD_some]
  dsimp only
  split_ifs with hblank hlarge
  · exact .inl ⟨_, rfl⟩
  · exact .inl ⟨_, rfl⟩
  · split
    · rename_i payload signature hparts
      split_ifs with hempty
      · exact .inl ⟨_, rfl⟩
      · rcases requireB64url_cases payload "payload" with ⟨message, hmessage⟩ | ⟨hok, hpayload⟩
        · exact .inl ⟨message, by rw [hmessage, Fallible.error_bind]⟩
        rcases requireB64url_cases signature "signature" with ⟨message, hmessage⟩ | ⟨hok', hsignature⟩
        · exact .inl ⟨message, by rw [hok, hmessage, Fallible.ok_bind, Fallible.error_bind]⟩
        have hsegment : Segment (digestOf R key payload) := segment_digestOf
        rw [hok, hok', mac_of_segment hpayload, Fallible.ok_bind, Fallible.ok_bind, Fallible.ok_bind,
          compareDigest_of_segment hsegment hsignature, Fallible.ok_bind]
        by_cases hvalid : digestOf R key payload = signature
        · right
          refine ⟨not_lt.mp hlarge, payload, hpayload, ?_⟩
          have hjoin : ['.'].intercalate ((Text.strip token).toList.splitOn '.') =
              (Text.strip token).toList := List.intercalate_splitOn '.'
          rw [hparts, List.intercalate_cons_cons, List.intercalate_singleton] at hjoin
          rw [hvalid, joined, ← List.singleton_append, ← List.append_assoc, hjoin,
            String.ofList_toList]
        · left
          exact ⟨_, if_neg (by simp [hvalid])⟩
    · exact .inl ⟨_, rfl⟩

end

end AiTrader.Identity
