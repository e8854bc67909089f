import AiTrader.Float
import AiTrader.Library.Base64
import AiTrader.PyJson
import AiTrader.Text
import Mathlib.Data.List.Sort

/-! # Identity assertions

`<payload>.<mac>`: the claims as JSON in base64url, and the MAC of that segment as it stands.
Python mints and verifies assertions of users and of services, Rust mints those of the
tool-server.  An exception that is no `IdentityError` is an outcome of its own: a caller controls
the header completely, and every malformed one is to be refused.

`compareDigest_of_segment`, `mac_of_segment`: on the base64url alphabet nothing else is raised. -/

namespace AiTrader.Identity

open PyJson

/-- What the program calls: HMAC-SHA256, the rounding of doubles, Python's and Rust's texts of
numbers (`fixed1` is `{:.1}`, `display` is `{}`). -/
structure Runtime where
  hmacSha256 : List UInt8 → List UInt8 → List UInt8
  digest_length : ∀ key message, (hmacSha256 key message).length = 32
  rnd : ℚ → F64
  numbers : Json.NumSyntax PyNum
  fixed1 : F64 → List Char
  display : F64 → List Char

/-- The environment variables and `time.time()` at a call. -/
structure Environment where
  getenv : String → Option String
  clock : F64

/-- What a call raises. -/
inductive Failure
  | identity (message : String)
  | unicodeEncode
  | type
  | overflow

/-- An `IdentityError`. -/
def Failure.IsIdentity : Failure → Prop
  | .identity _ => True
  | _ => False

def clockSkewSeconds : ℤ := 30
def maxTokenChars : ℕ := 4096
def minSecretChars : ℕ := 32

/-- `_secret`. -/
def secret (env : Environment) (envName : String) : Except Failure String :=
  let value := Text.strip ((env.getenv envName).getD "")
  if value = "" then .error (.identity (envName ++ " is not configured"))
  else if value.length < minSecretChars then
    .error (.identity (envName ++ " is too short (" ++ toString value.length ++ " chars, need >= " ++
      toString minSecretChars ++ "). Generate one with: openssl rand -hex 32"))
  else .ok value

/-! ### Encoding -/

/-- `_b64u_encode`. -/
def b64uEncode (raw : List UInt8) : List Char :=
  (Base64.encodePadded Base64.urlSafe raw).rdropWhile (· = '=')

/-- `_b64u_decode`; `none` is an exception. -/
def b64uDecode (text : List Char) : Option (List UInt8) :=
  Base64.decodePadded Base64.urlSafe (text ++ Base64.padding text.length)

def b64urlAlphabet : List Char :=
  "ABCDEFGHIJKLMNOPQRSTUVWXYZabcdefghijklmnopqrstuvwxyz0123456789-_".toList

/-- `_require_b64url`. -/
def requireB64url (segment : List Char) (what : String) : Except Failure Unit :=
  if segment ≠ [] ∧ segment.all (fun c => b64urlAlphabet.contains c) = true then .ok ()
  else .error (.identity ("malformed assertion (" ++ what ++ " is not base64url)"))

def isAscii (cs : List Char) : Bool := cs.all fun c => decide (c.toNat < 128)

/-- `s.encode("ascii")`. -/
def encodeAscii (cs : List Char) : Except Failure (List UInt8) :=
  if isAscii cs then .ok (cs.map fun c => UInt8.ofNat c.toNat) else .error .unicodeEncode

/-- `hmac.compare_digest` of two strings. -/
def compareDigest (a b : List Char) : Except Failure Bool :=
  if isAscii a && isAscii b then .ok (decide (a = b)) else .error .type

/-! ### Numbers -/

/-- `isinstance(v, (int, float)) and not isinstance(v, bool)`. -/
def number : PyVal → Option PyNum
  | .int z => some (.int z)
  | .float x => some (.float x)
  | _ => none

def ofNumber : PyNum → PyVal
  | .int z => .int z
  | .float x => .float x

/-- What comparisons see of a number. -/
def value : PyNum → F64
  | .int z => .fin z
  | .float x => x

/-- `time.time() if now is None else now`. -/
def current (env : Environment) (now : Option PyNum) : PyNum := now.getD (.float env.clock)

section
variable (R : Runtime)

/-- `float(n)`. -/
def toFloat : PyNum → Except Failure F64
  | .float x => .ok x
  | .int z =>
      match R.rnd z with
      | .fin q => .ok (.fin q)
      | _ => .error .overflow

/-- `n + ttl` for an integer `ttl`. -/
def plus (n : PyNum) (ttl : ℤ) : Except Failure PyNum :=
  match n with
  | .int z => .ok (.int (z + ttl))
  | .float x => (toFloat R (.int ttl)).map fun y => .float (F64.add R.rnd x y)

/-- `n + CLOCK_SKEW_SECONDS`; the skew is small and converts exactly. -/
def plusSkew : PyNum → PyNum
  | .int z => .int (z + clockSkewSeconds)
  | .float x => .float (F64.add R.rnd x (.fin clockSkewSeconds))

/-! ### Signing -/

/-- `_mac`. -/
def mac (secret : String) (payloadSegment : List Char) : Except Failure (List Char) :=
  (encodeAscii payloadSegment).map fun message => b64uEncode (R.hmacSha256 (utf8 secret) message)

/-- `sort_keys=True`, on a dictionary that holds no other. -/
def sortKeys (d : Kwargs) : Kwargs := d.insertionSort fun a b => a.1 ≤ b.1

/-- The payload segment of `_sign`. -/
def payloadSegment (claims : Kwargs) : List Char :=
  b64uEncode (utf8 (dumps .ascii R.numbers (.dict (sortKeys claims))))

/-- The two segments as a token. -/
def joined (payload signature : List Char) : String := String.ofList (payload ++ '.' :: signature)

/-- `_sign`. -/
def sign (secret : String) (claims : Kwargs) : Except Failure String :=
  (mac R secret (payloadSegment R claims)).map fun signature =>
    joined (payloadSegment R claims) signature

/-- `sign_identity` and `sign_service`. -/
def signSubject (envName field emptyMessage : String) (env : Environment) (name : String) (ttl : ℤ)
    (now : Option PyNum) : Except Failure String :=
  if Text.strip name = "" then .error (.identity emptyMessage)
  else (secret env envName).bind fun key =>
    (plus R (current env now) ttl).bind fun exp =>
      sign R key [(field, .str (Text.strip name)), ("iat", ofNumber (current env now)),
        ("exp", ofNumber exp)]

/-! ### Verifying -/

/-- `_verify` up to the claims. -/
def claimsOf (secret : String) (token : Option String) : Except Failure Kwargs :=
  let token := Text.strip (token.getD "")
  if token = "" then .error (.identity "no assertion supplied")
  else if maxTokenChars < token.length then .error (.identity "assertion too large")
  else
    match token.toList.splitOn '.' with
    | [payload, providedMac] =>
        if payload = [] ∨ providedMac = [] then .error (.identity "malformed assertion")
        else (requireB64url payload "payload").bind fun _ =>
          (requireB64url providedMac "signature").bind fun _ =>
            (mac R secret payload).bind fun expected =>
              (compareDigest expected providedMac).bind fun valid =>
                if valid then
                  match (b64uDecode payload).bind (loadsBytes R.numbers) with
                  | some (.dict claims) => .ok claims
                  | some _ => .error (.identity "assertion payload is not an object")
                  | none => .error (.identity "assertion payload is not readable")
                else .error (.identity "assertion signature is not valid")
    | _ => .error (.identity "malformed assertion")

/-- The expiry is not past. -/
def notExpired (exp current : PyNum) : Except Failure Unit :=
  (toFloat R exp).bind fun exp =>
    if F64.lt (F64.add R.rnd exp (.fin clockSkewSeconds)) (value current) then
      .error (.identity "assertion has expired")
    else .ok ()

/-- The issue time is not to come. -/
def notAhead (iat current : PyNum) : Except Failure Unit :=
  (toFloat R iat).bind fun iat =>
    if F64.lt (value (plusSkew R current)) iat then
      .error (.identity "assertion is issued in the future")
    else .ok ()

/-- The two checks of the times in `_verify`. -/
def inTime (claims : Kwargs) (current : PyNum) : Except Failure Unit :=
  match number (claims.get "exp") with
  | none => .error (.identity "assertion has no expiry")
  | some exp => (notExpired R exp current).bind fun _ =>
      match number (claims.get "iat") with
      | none => .error (.identity "assertion has no issue time")
      | some iat => notAhead R iat current

/-- `_verify`. -/
def verify (secret : String) (token : Option String) (current : PyNum) : Except Failure Kwargs :=
  (claimsOf R secret token).bind fun claims => (inTime R claims current).map fun _ => claims

/-- The subject that a claim gives. -/
def subjectIn (message : String) : PyVal → Except Failure String
  | .str s => if Text.strip s = "" then .error (.identity message) else .ok (Text.strip s)
  | _ => .error (.identity message)

/-- `verify_identity_token` and `verify_service_token`. -/
def verifySubject (envName field message : String) (env : Environment) (token : Option String)
    (now : Option PyNum) : Except Failure String :=
  (secret env envName).bind fun key =>
    (verify R key token (current env now)).bind fun claims => subjectIn message (claims.get field)

/-! ### The entry points -/

def envIdentitySecret : String := "INTERNAL_IDENTITY_SECRET"
def envServiceSecret : String := "INTERNAL_SERVICE_SECRET"

/-- `sign_identity`. -/
def signIdentity : Environment → String → ℤ → Option PyNum → Except Failure String :=
  signSubject R envIdentitySecret "sub" "cannot sign an empty user id"

/-- `verify_identity_token`. -/
def verifyIdentityToken : Environment → Option String → Option PyNum → Except Failure String :=
  verifySubject R envIdentitySecret "sub" "assertion carries no subject"

/-- `sign_service`. -/
def signService : Environment → String → ℤ → Option PyNum → Except Failure String :=
  signSubject R envServiceSecret "svc" "cannot sign an empty service name"

/-- `verify_service_token`. -/
def verifyServiceToken : Environment → Option String → Option PyNum → Except Failure String :=
  verifySubject R envServiceSecret "svc" "assertion carries no service name"

/-! ### The tool-server -/

/-- `format_ts` of the tool-server. -/
def formatTs (v : F64) : List Char :=
  match v with
  | .fin q => if q.den = 1 then R.fixed1 (.fin q) else R.display (.fin q)
  | v => R.display v

/-- The literal that `sign_service` of the tool-server fills in. -/
def serviceJson (service : String) (iat ttl : F64) : List Char :=
  "\x7b\"exp\":".toList ++ formatTs R (F64.add R.rnd iat ttl) ++ ",\"iat\":".toList ++
    formatTs R iat ++ ",\"svc\":\"".toList ++ service.toList ++ "\"\x7d".toList

/-- `sign_service` of the tool-server. -/
def toolServerSign (secret service : String) (iat ttl : F64) : String :=
  let payload := Base64.encode Base64.urlSafe
    (utf8 (String.ofList (serviceJson R service iat ttl)))
  joined payload (Base64.encode Base64.urlSafe
    (R.hmacSha256 (utf8 secret) (utf8 (String.ofList payload))))

end

/-! ### The two segments -/

section
variable {R : Runtime} {key : String} {payload signature : List Char} {bs : List UInt8}

theorem b64uEncode_eq : b64uEncode bs = Base64.encode Base64.urlSafe bs :=
  Base64.rstrip_encodePadded

theorem urlSafe_char_mem : ∀ d, d < 64 → Base64.urlSafe.char d ∈ b64urlAlphabet := by
  decide +kernel

theorem isAscii_of_alphabet {cs : List Char} (h : ∀ c ∈ cs, c ∈ b64urlAlphabet) :
    isAscii cs = true := by
  have halphabet : b64urlAlphabet.all (fun c => decide (c.toNat < 128)) = true := by decide
  exact List.all_eq_true.mpr fun c hc => List.all_eq_true.mp halphabet c (h c hc)

/-- What `_b64u_encode` writes. -/
structure Segment (cs : List Char) : Prop where
  nonempty : cs ≠ []
  alphabet : ∀ c ∈ cs, c ∈ b64urlAlphabet

theorem Segment.ascii (h : Segment payload) : isAscii payload = true :=
  isAscii_of_alphabet h.alphabet

theorem Segment.dot_notMem (h : Segment payload) : '.' ∉ payload := by
  intro hdot
  have hmem := h.alphabet '.' hdot
  revert hmem
  decide

theorem segment_encode (h : bs ≠ []) : Segment (Base64.encode Base64.urlSafe bs) where
  nonempty := Base64.encode_ne_nil h
  alphabet := by
    intro c hc
    obtain ⟨d, hd, rfl⟩ := Base64.mem_encode hc
    exact urlSafe_char_mem d hd

theorem b64uDecode_encode : b64uDecode (Base64.encode Base64.urlSafe bs) = some bs := by
  rw [b64uDecode, Base64.decodePadded_padded Base64.pad_notMem_encode, Base64.decode_encode]

theorem requireB64url_ok {what : String} :
    requireB64url payload what = .ok () ↔ Segment payload := by
  unfold requireB64url
  constructor
  · intro h
    split at h
    · rename_i hsegment
      refine ⟨hsegment.1, fun c hc => ?_⟩
      exact List.contains_iff_mem.mp (List.all_eq_true.mp hsegment.2 c hc)
    · cases h
  · intro h
    rw [if_pos ⟨h.nonempty, List.all_eq_true.mpr fun c hc =>
      List.contains_iff_mem.mpr (h.alphabet c hc)⟩]

/-- The MAC of a payload segment, in base64url. -/
def digestOf (R : Runtime) (key : String) (payload : List Char) : List Char :=
  Base64.encode Base64.urlSafe
    (R.hmacSha256 (utf8 key) (payload.map fun c => UInt8.ofNat c.toNat))

theorem segment_digestOf : Segment (digestOf R key payload) := by
  apply segment_encode
  intro hnil
  have hlength := R.digest_length (utf8 key) (payload.map fun c => UInt8.ofNat c.toNat)
  rw [hnil] at hlength
  cases hlength

/-- **On the alphabet the MAC is computed.** -/
theorem mac_of_segment (h : Segment payload) : mac R key payload = .ok (digestOf R key payload) := by
  rw [mac, encodeAscii, if_pos h.ascii]
  show Except.ok (b64uEncode _) = _
  rw [b64uEncode_eq, digestOf]

/-- **On the alphabet the MACs are compared.** -/
theorem compareDigest_of_segment {a b : List Char} (ha : Segment a) (hb : Segment b) :
    compareDigest a b = .ok (decide (a = b)) := by
  rw [compareDigest, if_pos]
  rw [ha.ascii, hb.ascii]
  rfl

end

end AiTrader.Identity
