import AiTrader.Identity.Minting
import Mathlib.Tactic.NormNum
import Mathlib.Tactic.NormNum.Abs

/-! # What a verified assertion says

A token is accepted when it was minted with the secret it is verified with, for whom it is
verified as, and when the time is in its window.  The code computes the window in doubles.

* `verify_ok_iff`, `raisesOnly_verify`, `verify_apart`: what becomes of a minted token.
* `asStated_of_exact`: without rounding everything is as stated.
* `assertions_stated_iff`: exactly when rounding, or a time that is no double, makes a
  difference. -/

namespace AiTrader.Identity

open PyJson Json Fallible

/-- A segment that verifies under `key` in the presented string was signed in one of the calls. -/
def OnlyMaced (R : Runtime) (issued : Set Minting) (key token : String) : Prop :=
  ∀ payload signature, Text.strip token = joined payload signature →
    mac R key payload = .ok signature →
    ∃ m ∈ issued, m.key = .ok key ∧ ∃ signature', m.token R = .ok (joined payload signature')

/-- `issued - 30 <= now <= issued + lifetime + 30`, in exact arithmetic. -/
def Minting.Within (m : Minting) (now : PyNum) : Prop :=
  F64.le (F64.sub .fin (value m.issued) (.fin clockSkewSeconds)) (value now) = true ∧
    F64.le (value now)
      (F64.add .fin (F64.add .fin (value m.issued) m.lifetime) (.fin clockSkewSeconds)) = true

theorem onlyMaced_of_minted {R : Runtime} {issued : Set Minting} {key token : String} {m : Minting}
    (hmem : m ∈ issued) (hkey : m.key = .ok key) (htoken : m.token R = .ok (Text.strip token)) :
    OnlyMaced R issued key token := by
  intro payload signature hjoined _
  exact ⟨m, hmem, hkey, signature, htoken.trans (congrArg Except.ok hjoined)⟩

section
variable (R : Runtime) (issued : Set Minting) (env : Environment) (kind : Kind) (token : String)
  (now : Option PyNum)

/-- The call minted the presented token with the secret that it is verified with. -/
structure MintedBy (m : Minting) : Prop where
  mem : m ∈ issued
  key : m.key = secret env kind.envName
  token : m.token R = .ok (Text.strip token)

/-- The token is to be accepted for `s`. -/
def Acceptable (s : String) : Prop :=
  (Text.strip token).length ≤ maxTokenChars ∧ ∃ m, MintedBy R issued env kind token m ∧
    m.kind = kind ∧ m.subject = some s ∧ m.Within (current env now)

/-- What is stated of the verification of a token. -/
structure AsStated : Prop where
  accepted : ∀ s, kind.verify R env (some token) now = .ok s ↔
    Acceptable R issued env kind token now s
  refused : RaisesOnly Failure.IsIdentity (kind.verify R env (some token) now)
  apart : ∀ m ∈ issued, m.kind ≠ kind → m.token R = .ok (Text.strip token) →
    ∀ s, kind.verify R env (some token) now ≠ .ok s

/-- Both times, as the code compares them. -/
def InTime (exp iat now : PyNum) : Prop :=
  notExpired R exp now = .ok () ∧ notAhead R iat now = .ok ()

/-- The times of an assertion that expires at `exp` are converted to doubles, and rounding does
not carry `now` over an edge of the window. -/
structure TimesDecided (m : Minting) (exp : PyNum) : Prop where
  expiry : ∃ x, toFloat R exp = .ok x
  issue : notExpired R exp (current env now) = .ok () → ∃ x, toFloat R m.issued = .ok x
  edges : m.kind = kind → m.subject ≠ none → (InTime R exp m.issued (current env now) ↔
    ∃ m', MintedBy R issued env kind token m' ∧ m'.kind = kind ∧ m'.Within (current env now))

end

/-! ### Claims of one token -/

section
variable {R : Runtime} {m m' : Minting} {exp exp' : PyNum} {kind : Kind}

theorem number_ofNumber (n : PyNum) : number (ofNumber n) = some n := by
  cases n <;> rfl

theorem inTime_claims (now : PyNum) : inTime R (m.claims exp) now =
    (notExpired R exp now).bind fun _ => notAhead R m.issued now := by
  have hexp : Kwargs.get (m.claims exp) "exp" = ofNumber exp := rfl
  have hiat : Kwargs.get (m.claims exp) "iat" = ofNumber m.issued := rfl
  rw [inTime, hexp, hiat, number_ofNumber, number_ofNumber]

theorem get_field (h : m.kind = kind) : Kwargs.get (m.claims exp) kind.field = .str m.name := by
  subst h
  unfold Minting.claims
  cases m.kind <;> rfl

theorem get_field_of_ne (h : m.kind ≠ kind) : Kwargs.get (m.claims exp) kind.field = .none := by
  unfold Minting.claims
  cases hm : m.kind <;> cases kind <;> first | rfl | exact absurd hm h

/-- One token has one payload, and that is read as one dictionary. -/
theorem claims_unique {token : String} (hnum : m.ReadsBack R) (hnum' : m'.ReadsBack R)
    (h : m.token R = .ok token) (h' : m'.token R = .ok token) :
    m.kind = m'.kind ∧ m.name = m'.name := by
  obtain ⟨key, exp, -, hexp, rfl⟩ := Minting.token_ok h
  obtain ⟨key', exp', -, hexp', heq⟩ := Minting.token_ok h'
  have hpayload : m.payload R exp = m'.payload R exp' :=
    payload_of_joined (Minting.segment_payload m exp).dot_notMem
      (Minting.segment_payload m' exp').dot_notMem heq
  have hread := Minting.read_payload hnum hexp
  rw [hpayload, Minting.read_payload hnum' hexp'] at hread
  have hclaims := PyVal.dict.inj (Option.some.inj hread)
  unfold Minting.claims at hclaims
  simp only [List.cons.injEq, Prod.mk.injEq, and_true, true_and, PyVal.str.injEq] at hclaims
  obtain ⟨-, -, hfield, hname⟩ := hclaims
  refine ⟨?_, hname.symm⟩
  cases hm : m.kind <;> cases hm' : m'.kind <;> first
    | rfl
    | (rw [hm, hm'] at hfield
       exact absurd hfield (by decide))

end

/-! ### Verification of a token -/

section
variable {R : Runtime} {issued : Set Minting} {env : Environment} {kind : Kind} {token : String}
  {now : Option PyNum} {m : Minting} {exp : PyNum}

theorem secret_cases (env : Environment) (envName : String) :
    (∃ message, secret env envName = .error (.identity message)) ∨
      ∃ key, secret env envName = .ok key := by
  unfold secret
  dsimp only
  split_ifs
  · exact .inl ⟨_, rfl⟩
  · exact .inl ⟨_, rfl⟩
  · exact .inr ⟨_, rfl⟩

theorem verify_not_minted (now : Option PyNum)
    (hmac : ∀ key, secret env kind.envName = .ok key → OnlyMaced R issued key token)
    (hnone : (Text.strip token).length ≤ maxTokenChars →
      ∀ m, ¬ MintedBy R issued env kind token m) :
    ∃ message, kind.verify R env (some token) now = .error (.identity message) := by
  rw [Kind.verify_eq, verifySubject]
  rcases secret_cases env kind.envName with ⟨message, hsecret⟩ | ⟨key, hsecret⟩
  · rw [hsecret]
    exact ⟨message, rfl⟩
  · rw [hsecret]
    rcases claimsOf_cases R key token with ⟨message, hclaims⟩ | ⟨hlength, payload, hpayload, htoken⟩
    · refine ⟨message, ?_⟩
      rw [ok_bind, verify, hclaims, error_bind, error_bind]
    · obtain ⟨m, hmem, hkey, signature, hminted⟩ :=
        hmac key hsecret payload _ htoken (mac_of_segment hpayload)
      obtain ⟨key', exp, hkey', -, heq⟩ := Minting.token_ok hminted
      obtain rfl : key = key' := Except.ok.inj (hkey.symm.trans hkey')
      have hsame : payload = m.payload R exp := payload_of_joined hpayload.dot_notMem
        (Minting.segment_payload m exp).dot_notMem heq
      refine absurd ⟨hmem, hkey.trans hsecret.symm, ?_⟩ (hnone hlength m)
      rw [hminted, heq, htoken, hsame]

theorem verify_minted (now : Option PyNum) (hnum : m.ReadsBack R)
    (hm : MintedBy R issued env kind token m)
    (hlength : (Text.strip token).length ≤ maxTokenChars) (hexp : m.expiry R = .ok exp) :
    kind.verify R env (some token) now = (notExpired R exp (current env now)).bind fun _ =>
      (notAhead R m.issued (current env now)).bind fun _ =>
        subjectIn kind.noSubject (Kwargs.get (m.claims exp) kind.field) := by
  obtain ⟨key, exp', hkey, hexp', htoken⟩ := Minting.token_ok hm.token
  obtain rfl : exp = exp' := Except.ok.inj (hexp.symm.trans hexp')
  have hclaims : claimsOf R key (some token) = .ok (m.claims exp) :=
    claimsOf_joined (Minting.segment_payload m exp) htoken hlength (Minting.read_payload hnum hexp)
  rw [Kind.verify_eq, verifySubject, ← hm.key, hkey, ok_bind, verify, hclaims, ok_bind,
    inTime_claims]
  cases hpast : notExpired R exp (current env now) with
  | error e => rfl
  | ok u =>
      rw [ok_bind, ok_bind]
      cases hahead : notAhead R m.issued (current env now) with
      | error e => rfl
      | ok u => rfl

theorem subjectIn_claims (exp : PyNum) {message s : String} :
    subjectIn message (Kwargs.get (m.claims exp) kind.field) = .ok s ↔
      m.kind = kind ∧ m.subject = some s := by
  by_cases hkind : m.kind = kind
  · rw [get_field hkind, subjectIn, Minting.subject]
    split_ifs
    · simp
    · simp [hkind]
  · rw [get_field_of_ne hkind]
    simp [subjectIn, hkind]

theorem raisesOnly_subjectIn (message : String) (v : PyVal) :
    RaisesOnly Failure.IsIdentity (subjectIn message v) := by
  unfold subjectIn
  split
  · split
    · exact raisesOnly_error.mpr trivial
    · exact raisesOnly_ok _ _
  · exact raisesOnly_error.mpr trivial

/-! ### The times -/

theorem toFloat_error {n : PyNum} {e : Failure} (h : toFloat R n = .error e) : e = .overflow := by
  cases n with
  | float x => cases h
  | int z =>
      unfold toFloat at h
      dsimp only at h
      split at h
      · cases h
      · cases h
        rfl

theorem raisesOnly_toFloat {n : PyNum} :
    RaisesOnly Failure.IsIdentity (toFloat R n) ↔ ∃ x, toFloat R n = .ok x := by
  cases hfloat : toFloat R n with
  | ok x => exact iff_of_true (raisesOnly_ok _ x) ⟨x, rfl⟩
  | error e =>
      rw [toFloat_error hfloat, raisesOnly_error]
      exact iff_of_false id nofun

/-- A comparison raises `IdentityError` only, exactly where its number is converted. -/
theorem raisesOnly_comparison {n : PyNum} {late : F64 → Bool} {message : String} :
    RaisesOnly Failure.IsIdentity (toFloat R n >>= fun x =>
      if late x then .error (.identity message) else .ok ()) ↔ ∃ x, toFloat R n = .ok x := by
  rw [raisesOnly_bind, raisesOnly_toFloat]
  refine and_iff_left fun x _ => ?_
  split
  · exact raisesOnly_error.mpr trivial
  · exact raisesOnly_ok _ _

theorem raisesOnly_notExpired {now : PyNum} :
    RaisesOnly Failure.IsIdentity (notExpired R exp now) ↔ ∃ x, toFloat R exp = .ok x :=
  raisesOnly_comparison

theorem raisesOnly_notAhead {iat now : PyNum} :
    RaisesOnly Failure.IsIdentity (notAhead R iat now) ↔ ∃ x, toFloat R iat = .ok x :=
  raisesOnly_comparison

/-- A minted token is accepted when it is in time, as the code compares, and has a subject of the
kind. -/
theorem verify_ok_iff (hnum : m.ReadsBack R) (hm : MintedBy R issued env kind token m)
    (hlength : (Text.strip token).length ≤ maxTokenChars) (hexp : m.expiry R = .ok exp)
    {s : String} : kind.verify R env (some token) now = .ok s ↔
      InTime R exp m.issued (current env now) ∧ m.kind = kind ∧ m.subject = some s := by
  rw [verify_minted now hnum hm hlength hexp, InTime, ← subjectIn_claims exp]
  constructor
  · intro h
    obtain ⟨u, hpast, h⟩ := bind_eq_ok.mp h
    obtain ⟨u, hahead, h⟩ := bind_eq_ok.mp h
    exact ⟨⟨hpast, hahead⟩, h⟩
  · rintro ⟨⟨hpast, hahead⟩, h⟩
    rw [hpast, hahead]
    exact h

/-- Nothing but `IdentityError` is raised exactly where the times that are read are converted. -/
theorem raisesOnly_verify (hnum : m.ReadsBack R) (hm : MintedBy R issued env kind token m)
    (hlength : (Text.strip token).length ≤ maxTokenChars) (hexp : m.expiry R = .ok exp) :
    RaisesOnly Failure.IsIdentity (kind.verify R env (some token) now) ↔
      (∃ x, toFloat R exp = .ok x) ∧ (notExpired R exp (current env now) = .ok () →
        ∃ x, toFloat R m.issued = .ok x) := by
  have hsubject : ∀ u : Unit, notAhead R m.issued (current env now) = .ok u →
      RaisesOnly Failure.IsIdentity
        (subjectIn kind.noSubject (Kwargs.get (m.claims exp) kind.field)) :=
    fun _ _ => raisesOnly_subjectIn _ _
  have hahead : RaisesOnly Failure.IsIdentity (notAhead R m.issued (current env now) >>= fun _ =>
      subjectIn kind.noSubject (Kwargs.get (m.claims exp) kind.field)) ↔
        ∃ x, toFloat R m.issued = .ok x := by
    rw [raisesOnly_bind, and_iff_left hsubject, raisesOnly_notAhead]
  rw [verify_minted now hnum hm hlength hexp]
  show RaisesOnly Failure.IsIdentity (notExpired R exp (current env now) >>= fun _ =>
    notAhead R m.issued (current env now) >>= fun _ => _) ↔ _
  rw [raisesOnly_bind, raisesOnly_notExpired, hahead]
  exact and_congr_right fun _ => ⟨fun h => h (), fun h _ => h⟩

/-- A token of one kind is never accepted as one of the other. -/
theorem verify_apart (hnum : ∀ m ∈ issued, m.ReadsBack R)
    (hmac : ∀ key, secret env kind.envName = .ok key → OnlyMaced R issued key token)
    (hmem : m ∈ issued) (hkind : m.kind ≠ kind) (htoken : m.token R = .ok (Text.strip token))
    (s : String) : kind.verify R env (some token) now ≠ .ok s := by
  intro h
  by_cases hminted : (Text.strip token).length ≤ maxTokenChars ∧
      ∃ m, MintedBy R issued env kind token m
  · obtain ⟨hlength, m', hm'⟩ := hminted
    obtain ⟨key, exp, -, hexp, -⟩ := Minting.token_ok hm'.token
    have hsame := claims_unique (hnum m hmem) (hnum m' hm'.mem) htoken hm'.token
    have haccepted := (verify_ok_iff (hnum m' hm'.mem) hm' hlength hexp).mp h
    exact hkind (hsame.1.trans haccepted.2.1)
  · obtain ⟨message, herror⟩ := verify_not_minted now hmac
      fun hlength m hm => hminted ⟨hlength, m, hm⟩
    rw [h] at herror
    cases herror

/-- Calls that minted one token name one subject. -/
theorem MintedBy.subject_eq {m' : Minting} (hnum : ∀ m ∈ issued, m.ReadsBack R)
    (hm : MintedBy R issued env kind token m) (hm' : MintedBy R issued env kind token m') :
    m.kind = m'.kind ∧ m.subject = m'.subject := by
  have hsame := claims_unique (hnum m hm.mem) (hnum m' hm'.mem) hm.token hm'.token
  exact ⟨hsame.1, by rw [Minting.subject, Minting.subject, hsame.2]⟩

theorem timesDecided_of_asStated (hnum : ∀ m ∈ issued, m.ReadsBack R)
    (hm : MintedBy R issued env kind token m)
    (hlength : (Text.strip token).length ≤ maxTokenChars) (hexp : m.expiry R = .ok exp)
    (h : AsStated R issued env kind token now) :
    TimesDecided R issued env kind token now m exp := by
  have hraises := (raisesOnly_verify (hnum m hm.mem) hm hlength hexp).mp h.refused
  refine ⟨hraises.1, hraises.2, fun hkind hsubject => ?_⟩
  obtain ⟨s, hs⟩ := Option.ne_none_iff_exists'.mp hsubject
  constructor
  · intro htime
    obtain ⟨-, m', hm', hkind', -, hwithin⟩ := (h.accepted s).mp
      ((verify_ok_iff (hnum m hm.mem) hm hlength hexp).mpr ⟨htime, hkind, hs⟩)
    exact ⟨m', hm', hkind', hwithin⟩
  · rintro ⟨m', hm', hkind', hwithin⟩
    have hs' : m'.subject = some s := by
      rw [← (hm.subject_eq hnum hm').2, hs]
    have hok := (h.accepted s).mpr ⟨hlength, m', hm', hkind', hs', hwithin⟩
    exact ((verify_ok_iff (hnum m hm.mem) hm hlength hexp).mp hok).1

theorem asStated_of_not_minted (hnum : ∀ m ∈ issued, m.ReadsBack R)
    (hmac : ∀ key, secret env kind.envName = .ok key → OnlyMaced R issued key token)
    (hnone : (Text.strip token).length ≤ maxTokenChars →
      ∀ m, ¬ MintedBy R issued env kind token m) : AsStated R issued env kind token now := by
  obtain ⟨message, herror⟩ := verify_not_minted now hmac hnone
  refine ⟨fun s => ?_, ?_, fun m hmem hkind htoken s =>
    verify_apart hnum hmac hmem hkind htoken s⟩
  · rw [herror]
    constructor
    · nofun
    · rintro ⟨hlength, m, hm, -⟩
      exact absurd hm (hnone hlength m)
  · rw [herror]
    exact raisesOnly_error.mpr trivial

theorem asStated_of_timesDecided (hnum : ∀ m ∈ issued, m.ReadsBack R)
    (hmac : ∀ key, secret env kind.envName = .ok key → OnlyMaced R issued key token)
    (hm : MintedBy R issued env kind token m)
    (hlength : (Text.strip token).length ≤ maxTokenChars) (hexp : m.expiry R = .ok exp)
    (h : TimesDecided R issued env kind token now m exp) :
    AsStated R issued env kind token now := by
  refine ⟨fun s => ?_, (raisesOnly_verify (hnum m hm.mem) hm hlength hexp).mpr ⟨h.expiry, h.issue⟩,
    fun m' hmem hkind htoken s => verify_apart hnum hmac hmem hkind htoken s⟩
  rw [verify_ok_iff (hnum m hm.mem) hm hlength hexp]
  constructor
  · rintro ⟨htime, hkind, hs⟩
    obtain ⟨m', hm', hkind', hwithin⟩ := (h.edges hkind (by simp [hs])).mp htime
    exact ⟨hlength, m', hm', hkind', (hm.subject_eq hnum hm').2 ▸ hs, hwithin⟩
  · rintro ⟨-, m', hm', hkind', hs', hwithin⟩
    obtain ⟨hkind, hsubject⟩ := hm.subject_eq hnum hm'
    have hs : m.subject = some s := hsubject.trans hs'
    exact ⟨(h.edges (hkind.trans hkind') (by simp [hs])).mpr ⟨m', hm', hkind', hwithin⟩,
      hkind.trans hkind', hs⟩

end

/-! ### Without rounding -/

/-- The times of the call and of the verification are numbers, and no sum of the window is
rounded. -/
structure Exact (R : Runtime) (m : Minting) (now : PyNum) (t l w : ℚ) : Prop where
  issued : value m.issued = .fin t
  lifetime : m.lifetime = .fin l
  now : value now = .fin w
  rnd_issued : R.rnd t = .fin t
  rnd_lifetime : R.rnd l = .fin l
  rnd_expiry : R.rnd (t + l) = .fin (t + l)
  rnd_latest : R.rnd (t + l + clockSkewSeconds) = .fin (t + l + clockSkewSeconds)
  rnd_ahead : R.rnd (w + clockSkewSeconds) = .fin (w + clockSkewSeconds)

section
variable {R : Runtime} {m : Minting} {exp now n : PyNum} {t l w q : ℚ}

theorem toFloat_exact (hn : value n = .fin q) (hrnd : R.rnd q = .fin q) :
    toFloat R n = .ok (.fin q) := by
  cases n with
  | float x =>
      cases hn
      rfl
  | int z =>
      have hz : (z : ℚ) = q := F64.fin.inj hn
      rw [toFloat, hz, hrnd]

theorem plus_exact {ttl : ℤ} (hn : value n = .fin t) (hl : (ttl : ℚ) = l) (hrnd : R.rnd l = .fin l)
    (hsum : R.rnd (t + l) = .fin (t + l)) (hexp : plus R n ttl = .ok exp) :
    value exp = .fin (t + l) := by
  cases n with
  | int z =>
      cases hexp
      have hz : (z : ℚ) = t := F64.fin.inj hn
      show F64.fin ((z + ttl : ℤ) : ℚ) = _
      rw [Int.cast_add, hz, hl]
  | float x =>
      cases hn
      have httl : toFloat R (.int ttl) = .ok (.fin l) :=
        toFloat_exact (congrArg F64.fin hl) hrnd
      rw [plus, httl] at hexp
      cases hexp
      exact hsum

theorem Exact.value_expiry (h : Exact R m now t l w) (hexp : m.expiry R = .ok exp) :
    value exp = .fin (t + l) := by
  cases m with
  | python kind env name ttl now =>
      exact plus_exact h.issued (F64.fin.inj h.lifetime) h.rnd_lifetime h.rnd_expiry hexp
  | toolServer key service iat ttl plain =>
      have hiat : iat = .fin t := h.issued
      have httl : ttl = .fin l := h.lifetime
      have heq : PyNum.float (F64.add R.rnd iat ttl) = exp := Except.ok.inj hexp
      rw [← heq, hiat, httl]
      exact h.rnd_expiry

theorem Exact.notExpired_iff (h : Exact R m now t l w) (hexp : m.expiry R = .ok exp) :
    notExpired R exp now = .ok () ↔ w ≤ t + l + clockSkewSeconds := by
  have hfloat := toFloat_exact (h.value_expiry hexp) h.rnd_expiry
  have hlate : notExpired R exp now = if t + l + clockSkewSeconds < w then
      .error (.identity "assertion has expired") else .ok () := by
    rw [notExpired, hfloat, h.now]
    show (if F64.lt (R.rnd (t + l + clockSkewSeconds)) (.fin w) then _ else _) = _
    rw [h.rnd_latest, F64.lt_fin]
    simp only [decide_eq_true_eq]
  rw [hlate]
  split
  · rename_i hlt
    exact iff_of_false nofun (not_le.mpr hlt)
  · rename_i hle
    exact iff_of_true rfl (not_lt.mp hle)

theorem value_plusSkew (hn : value n = .fin w)
    (hrnd : R.rnd (w + clockSkewSeconds) = .fin (w + clockSkewSeconds)) :
    value (plusSkew R n) = .fin (w + clockSkewSeconds) := by
  cases n with
  | int z =>
      have hz : (z : ℚ) = w := F64.fin.inj hn
      show F64.fin ((z + clockSkewSeconds : ℤ) : ℚ) = _
      rw [Int.cast_add, hz]
  | float x =>
      cases hn
      exact hrnd

theorem Exact.notAhead_iff (h : Exact R m now t l w) :
    notAhead R m.issued now = .ok () ↔ t ≤ w + clockSkewSeconds := by
  have hahead : notAhead R m.issued now = if w + clockSkewSeconds < t then
      .error (.identity "assertion is issued in the future") else .ok () := by
    rw [notAhead, toFloat_exact h.issued h.rnd_issued, value_plusSkew h.now h.rnd_ahead]
    show (if F64.lt (.fin (w + clockSkewSeconds)) (.fin t) then _ else _) = _
    rw [F64.lt_fin]
    simp only [decide_eq_true_eq]
  rw [hahead]
  split
  · rename_i hlt
    exact iff_of_false nofun (not_le.mpr hlt)
  · rename_i hle
    exact iff_of_true rfl (not_lt.mp hle)

theorem Exact.within_iff (h : Exact R m now t l w) :
    m.Within now ↔ t - clockSkewSeconds ≤ w ∧ w ≤ t + l + clockSkewSeconds := by
  rw [Minting.Within, h.issued, h.lifetime, h.now, F64.sub_fin, F64.add_fin, F64.add_fin,
    F64.le_fin, F64.le_fin, decide_eq_true_eq, decide_eq_true_eq]

theorem Exact.inTime_iff (h : Exact R m now t l w) (hexp : m.expiry R = .ok exp) :
    InTime R exp m.issued now ↔ m.Within now := by
  rw [InTime, h.notExpired_iff hexp, h.notAhead_iff, h.within_iff, sub_le_iff_le_add]
  exact and_comm

end

section
variable {R : Runtime} {issued : Set Minting} {env : Environment} {kind : Kind} {token : String}
  {now : Option PyNum}

theorem timesDecided_of_exact {m : Minting} {exp : PyNum} (hnum : ∀ m ∈ issued, m.ReadsBack R)
    (hexact : ∀ m, MintedBy R issued env kind token m →
      ∃ t l w, Exact R m (current env now) t l w)
    (hm : MintedBy R issued env kind token m)
    (hlength : (Text.strip token).length ≤ maxTokenChars) (hexp : m.expiry R = .ok exp) :
    TimesDecided R issued env kind token now m exp := by
  obtain ⟨t, l, w, he⟩ := hexact m hm
  refine ⟨⟨_, toFloat_exact (he.value_expiry hexp) he.rnd_expiry⟩,
    fun _ => ⟨_, toFloat_exact he.issued he.rnd_issued⟩, fun hkind hsubject => ?_⟩
  constructor
  · exact fun htime => ⟨m, hm, hkind, (he.inTime_iff hexp).mp htime⟩
  · rintro ⟨m', hm', hkind', hwithin⟩
    -- the token is verified alike whichever of its calls is looked at
    obtain ⟨s, hs⟩ := Option.ne_none_iff_exists'.mp hsubject
    obtain ⟨key', exp', -, hexp', -⟩ := Minting.token_ok hm'.token
    obtain ⟨t', l', w', he'⟩ := hexact m' hm'
    have hs' : m'.subject = some s := by
      rw [← (hm.subject_eq hnum hm').2, hs]
    have hok := (verify_ok_iff (hnum m' hm'.mem) hm' hlength hexp').mpr
      ⟨(he'.inTime_iff hexp').mpr hwithin, hkind', hs'⟩
    exact ((verify_ok_iff (hnum m hm.mem) hm hlength hexp).mp hok).1

/-- **What is stated holds of a token whose window needs no rounding.** -/
theorem asStated_of_exact (hnum : ∀ m ∈ issued, m.ReadsBack R)
    (hmac : ∀ key, secret env kind.envName = .ok key → OnlyMaced R issued key token)
    (hexact : ∀ m, MintedBy R issued env kind token m →
      ∃ t l w, Exact R m (current env now) t l w) :
    AsStated R issued env kind token now := by
  by_cases hminted : (Text.strip token).length ≤ maxTokenChars ∧
      ∃ m, MintedBy R issued env kind token m
  · obtain ⟨hlength, m, hm⟩ := hminted
    obtain ⟨key, exp, -, hexp, -⟩ := Minting.token_ok hm.token
    exact asStated_of_timesDecided hnum hmac hm hlength hexp
      (timesDecided_of_exact hnum hexact hm hlength hexp)
  · exact asStated_of_not_minted hnum hmac fun hlength m hm => hminted ⟨hlength, m, hm⟩

end

/-- **What is stated of a token holds exactly where its times are converted and rounding does not
decide.** -/
theorem assertions_stated_iff {R : Runtime} {issued : Set Minting} {env : Environment} {kind : Kind}
    {token : String} {now : Option PyNum} (hnum : ∀ m ∈ issued, m.ReadsBack R)
    (hmac : ∀ key, secret env kind.envName = .ok key → OnlyMaced R issued key token) :
    AsStated R issued env kind token now ↔
      ((Text.strip token).length ≤ maxTokenChars → ∀ m, MintedBy R issued env kind token m →
        ∀ exp, m.expiry R = .ok exp → TimesDecided R issued env kind token now m exp) := by
  by_cases hminted : (Text.strip token).length ≤ maxTokenChars ∧
      ∃ m, MintedBy R issued env kind token m
  · obtain ⟨hlength, m, hm⟩ := hminted
    obtain ⟨key, exp, -, hexp, -⟩ := Minting.token_ok hm.token
    constructor
    · intro h _ m' hm' exp' hexp'
      exact timesDecided_of_asStated hnum hm' hlength hexp' h
    · intro h
      exact asStated_of_timesDecided hnum hmac hm hlength hexp (h hlength m hm exp hexp)
  · have hnone : (Text.strip token).length ≤ maxTokenChars →
        ∀ m, ¬ MintedBy R issued env kind token m := fun hlength m hm => hminted ⟨hlength, m, hm⟩
    constructor
    · exact fun _ hlength m hm => absurd hm (hnone hlength m)
    · exact fun _ => asStated_of_not_minted hnum hmac hnone

/-! ### The shared test vector -/

/-- A runtime that knows one digest and the texts of finitely many numbers, and whose doubles are
exact up to the largest. -/
def sampleRuntime (digest : List UInt8) (hdigest : digest.length = 32)
    (texts : List (PyNum × List Char)) : Runtime where
  hmacSha256 _ _ := digest
  digest_length _ _ := hdigest
  rnd q := if |q| < 2 ^ 1024 then .fin q else if q < 0 then .negInf else .posInf
  numbers := NumSyntax.ofTable texts
  fixed1 x := (NumSyntax.ofTable texts).text (.float x)
  display _ := []

section
variable {digest : List UInt8} {hdigest : digest.length = 32} {texts : List (PyNum × List Char)}
  {q : ℚ}

theorem sampleRuntime_rnd (h : |q| < 2 ^ 64) :
    (sampleRuntime digest hdigest texts).rnd q = .fin q :=
  if_pos (lt_trans h (pow_lt_pow_right₀ (by norm_num) (by norm_num)))

theorem sampleRuntime_rnd_large (h : 2 ^ 1024 ≤ q) :
    (sampleRuntime digest hdigest texts).rnd q = .posInf := by
  have hpos : 0 ≤ q := le_trans (pow_nonneg (by norm_num) 1024) h
  show (if |q| < 2 ^ 1024 then F64.fin q else if q < 0 then .negInf else .posInf) = _
  rw [abs_of_nonneg hpos, if_neg (not_lt.mpr h), if_neg (not_lt.mpr hpos)]

end

def vectorSecret : String := "0123456789abcdef0123456789abcdef0123456789abcdef0123456789abcdef"

/-- Both secrets are the one of the test vector. -/
def vectorEnvironment : Environment where
  getenv _ := some vectorSecret
  clock := .fin 1700000000

theorem secret_vector (name : String) : secret vectorEnvironment name = .ok vectorSecret := by
  have hstrip : Text.strip vectorSecret = vectorSecret := by decide +kernel
  unfold secret
  show (if Text.strip vectorSecret = "" then _
    else if (Text.strip vectorSecret).length < _ then _ else Except.ok (Text.strip vectorSecret)) = _
  rw [hstrip]
  rfl

/-- With the digest that the test vector gives. -/
def vectorRuntime : Runtime :=
  sampleRuntime [1, 144, 192, 111, 23, 225, 158, 73, 125, 50, 35, 143, 203, 209, 215, 69, 193, 71,
    39, 253, 129, 37, 235, 175, 107, 14, 182, 209, 179, 242, 71, 92] rfl
    [(.float (.fin 1700000000), "1700000000.0".toList),
      (.float (.fin 1700000060), "1700000060.0".toList)]

def vectorMinting : Minting :=
  .toolServer vectorSecret "tool-server" (.fin 1700000000) (.fin 60) (by decide)

def vectorToken : String :=
  toolServerSign vectorRuntime vectorSecret "tool-server" (.fin 1700000000) (.fin 60)

example : vectorToken = "eyJleHAiOjE3MDAwMDAwNjAuMCwiaWF0IjoxNzAwMDAwMDAwLjAsInN2YyI6InRvb2wtc2VydmVyIn0" ++
    ".AZDAbxfhnkl9MiOPy9HXRcFHJ_2BJeuvaw620bPyR1w" := by decide +kernel

theorem vector_exact : Exact vectorRuntime vectorMinting (.float (.fin 1700000090)) 1700000000 60
    1700000090 where
  issued := rfl
  lifetime := rfl
  now := rfl
  rnd_issued := sampleRuntime_rnd (by norm_num)
  rnd_lifetime := sampleRuntime_rnd (by norm_num)
  rnd_expiry := sampleRuntime_rnd (by norm_num)
  rnd_latest := sampleRuntime_rnd (by norm_num [clockSkewSeconds])
  rnd_ahead := sampleRuntime_rnd (by norm_num [clockSkewSeconds])

theorem vector_expiry :
    F64.add vectorRuntime.rnd (.fin 1700000000) (.fin 60) = .fin 1700000060 := by
  rw [F64.add_fin, vector_exact.rnd_expiry]
  norm_num

theorem vector_readsBack : vectorMinting.ReadsBack vectorRuntime := by
  intro exp hexp
  have hfloat : PyNum.float (F64.add vectorRuntime.rnd (.fin 1700000000) (.fin 60)) = exp :=
    Except.ok.inj hexp
  rw [← hfloat, vector_expiry]
  exact ⟨by decide +kernel, by decide +kernel⟩

theorem vectorToken_eq : vectorToken = joined
    (vectorMinting.payload vectorRuntime (.float (.fin 1700000060)))
    (digestOf vectorRuntime vectorSecret
      (vectorMinting.payload vectorRuntime (.float (.fin 1700000060)))) := by
  rw [← vector_expiry]
  exact Minting.toolServerSign_eq _ _ _ _ _

theorem strip_vectorToken : Text.strip vectorToken = vectorToken := by
  rw [vectorToken_eq, strip_joined (Minting.segment_payload _ _) segment_digestOf]

theorem vector_length : (Text.strip vectorToken).length ≤ maxTokenChars := by
  rw [strip_vectorToken, vectorToken_eq, length_token]
  decide +kernel

/-- At the last moment of its window the token of the test vector is accepted. -/
theorem assertions_stated_iff_vector :
    AsStated vectorRuntime {vectorMinting} vectorEnvironment .service vectorToken
      (some (.float (.fin 1700000090))) ∧
    verifyServiceToken vectorRuntime vectorEnvironment (some vectorToken)
      (some (.float (.fin 1700000090))) = .ok "tool-server" := by
  have hnum : ∀ m ∈ ({vectorMinting} : Set Minting), m.ReadsBack vectorRuntime := by
    rintro m rfl
    exact vector_readsBack
  have htoken : vectorMinting.token vectorRuntime = .ok (Text.strip vectorToken) := by
    rw [strip_vectorToken]
    rfl
  have hminted : MintedBy vectorRuntime {vectorMinting} vectorEnvironment .service vectorToken
      vectorMinting := ⟨rfl, (secret_vector _).symm, htoken⟩
  have hstated : AsStated vectorRuntime {vectorMinting} vectorEnvironment .service vectorToken
      (some (.float (.fin 1700000090))) := by
    refine (assertions_stated_iff hnum fun key hkey => ?_).mpr fun hlength m hm exp hexp => ?_
    · exact onlyMaced_of_minted rfl ((secret_vector _).symm.trans hkey) htoken
    · refine timesDecided_of_exact hnum (fun m hm => ?_) hm hlength hexp
      obtain rfl : m = vectorMinting := hm.mem
      exact ⟨_, _, _, vector_exact⟩
  have hwithin : vectorMinting.Within (.float (.fin 1700000090)) := by
    rw [vector_exact.within_iff]
    norm_num [clockSkewSeconds]
  refine ⟨hstated, (hstated.accepted "tool-server").mpr ?_⟩
  exact ⟨vector_length, vectorMinting, hminted, rfl, by decide +kernel, hwithin⟩

/-! ### A lifetime that is no double -/

/-- With the digest of the token below. -/
def lifetimeRuntime : Runtime :=
  sampleRuntime [49, 189, 201, 240, 150, 251, 113, 239, 144, 49, 113, 59, 48, 157, 139, 49, 119, 202,
    83, 170, 217, 182, 81, 170, 121, 44, 74, 44, 125, 153, 112, 237] rfl
    [(.int 1700000000, "1700000000".toList), (.int (10 ^ 309), '1' :: List.replicate 309 '0')]

def lifetimeMinting : Minting :=
  .python .user vectorEnvironment "u" (10 ^ 309 - 1700000000) (some (.int 1700000000))

/-- What `sign_identity` returns. -/
def lifetimeToken : String :=
  joined (lifetimeMinting.payload lifetimeRuntime (.int (10 ^ 309)))
    (digestOf lifetimeRuntime vectorSecret
      (lifetimeMinting.payload lifetimeRuntime (.int (10 ^ 309))))

theorem strip_lifetimeToken : Text.strip lifetimeToken = lifetimeToken :=
  strip_joined (Minting.segment_payload _ _) segment_digestOf

theorem lifetime_expiry : lifetimeMinting.expiry lifetimeRuntime = .ok (.int (10 ^ 309)) := by
  show Except.ok (PyNum.int (1700000000 + (10 ^ 309 - 1700000000))) = _
  rw [add_sub_cancel]

theorem lifetime_key : lifetimeMinting.key = .ok vectorSecret := by
  show secret vectorEnvironment (Kind.envName .user) = _
  exact secret_vector _

theorem lifetime_token :
    lifetimeMinting.token lifetimeRuntime = .ok (Text.strip lifetimeToken) := by
  rw [strip_lifetimeToken]
  exact Minting.token_python (by decide) (secret_vector _) lifetime_expiry

theorem lifetime_readsBack : lifetimeMinting.ReadsBack lifetimeRuntime := by
  intro exp hexp
  rw [lifetime_expiry] at hexp
  obtain rfl := Except.ok.inj hexp
  exact ⟨by decide +kernel, by decide +kernel⟩

theorem lifetime_length : (Text.strip lifetimeToken).length ≤ maxTokenChars := by
  rw [strip_lifetimeToken, lifetimeToken, length_token]
  decide +kernel

theorem pow_le_cast {n k : ℕ} (h : 2 ^ n ≤ 10 ^ k) : (2 : ℚ) ^ n ≤ ((10 ^ k : ℤ) : ℚ) := by
  exact_mod_cast h

/-- **An expiry that is no double.**  The token is minted, and verifying it raises an
`OverflowError`. -/
theorem lifetime_overflows :
    signIdentity lifetimeRuntime vectorEnvironment "u" (10 ^ 309 - 1700000000)
      (some (.int 1700000000)) = .ok lifetimeToken ∧
    lifetimeMinting.ReadsBack lifetimeRuntime ∧
    OnlyMaced lifetimeRuntime {lifetimeMinting} vectorSecret lifetimeToken ∧
    verifyIdentityToken lifetimeRuntime vectorEnvironment (some lifetimeToken)
      (some (.int 1700000000)) = .error .overflow ∧
    ¬ AsStated lifetimeRuntime {lifetimeMinting} vectorEnvironment .user lifetimeToken
      (some (.int 1700000000)) := by
  have hm : MintedBy lifetimeRuntime {lifetimeMinting} vectorEnvironment .user lifetimeToken
      lifetimeMinting := ⟨Set.mem_singleton _, rfl, lifetime_token⟩
  have hfloat : toFloat lifetimeRuntime (.int (10 ^ 309)) = .error .overflow := by
    have hlarge := pow_le_cast (n := 1024) (k := 309) (by decide +kernel)
    rw [toFloat, lifetimeRuntime, sampleRuntime_rnd_large hlarge]
  have hverify : verifyIdentityToken lifetimeRuntime vectorEnvironment (some lifetimeToken)
      (some (.int 1700000000)) = .error .overflow := by
    have hminted := verify_minted (some (.int 1700000000)) lifetime_readsBack hm
      lifetime_length lifetime_expiry
    rw [notExpired, hfloat] at hminted
    exact hminted
  refine ⟨?_, lifetime_readsBack, ?_, hverify, fun h => h.refused .overflow hverify⟩
  · have htoken := lifetime_token
    rwa [strip_lifetimeToken] at htoken
  · exact onlyMaced_of_minted (Set.mem_singleton lifetimeMinting) lifetime_key lifetime_token

end AiTrader.Identity
