import AiTrader.Entitlement.Gate

/-! # The key that a run calls the model with

A deployment has one key for all runs, or every run resolves the key of its user: from the backend,
or from what the process remembers of it for a while.

* `Keyring`: the remembered keys and the keys that the runs are bound to.
* `keyStep`: runs, answers of the backend and expiries, in any order.
* `key_isolation`: no run is bound to the key of another user. -/

namespace AiTrader.Entitlement

open Agent Text Transition

/-- A key is never blank. -/
abbrev Key := {k : String // k ≠ ""}

section
variable (h : Host)

/-- A string that is not blank, trimmed. -/
def usableKey : PyVal → Option Key
  | .str k => if hk : strip k ≠ "" then some ⟨strip k, hk⟩ else none
  | _ => none

/-- The key of an entry of the list, of any provider or of the preferred one. -/
def entryKey (preferred : Option String) : PyVal → Option Key
  | .dict entry =>
      let provider := (List.lookup "provider" entry).elim "" h.str
      if preferred.all fun p => decide (h.casing.lower provider = p) then
        usableKey (Kwargs.get entry "key")
      else none
  | _ => none

/-- `_extract_openrouter_key`. -/
def extractOpenrouterKey : PyVal → Option Key
  | .dict payload =>
      match Kwargs.get payload "data" with
      | .dict data =>
          (usableKey (Kwargs.get data "key")).or <|
            match Kwargs.get data "apiKeys" with
            | .list keys =>
                (keys.findSome? (entryKey h (some "omniroute"))).or <|
                  (keys.findSome? (entryKey h (some "openrouter"))).or <|
                    keys.findSome? (entryKey h none)
            | _ => none
      | _ => none
  | _ => none

/-- `resolve_openrouter_key` of what the backend answers; nothing else is stored. -/
def readKey : Fetch → Option Key
  | .unreachable => none
  | .response status body => if status / 100 = 2 then body.bind (extractOpenrouterKey h) else none

end

/-- The key of the deployment, if it has one. -/
def sharedKey (getenv : String → Option String) : Option Key :=
  usableKey (.str ((getenv "LLM_API_KEY").getD ""))

structure Keyring (ι : Type*) where
  cache : TtlCache ι String Key F64 := {}
  bound : ι → Option Key := fun _ => none

inductive KeyEvent (ι : Type*) where
  | run (i : ι) (userId : Option String) (now : ℚ)
  | fetched (i : ι) (f : Fetch)
  | store (i : ι) (now : ℚ)

section
variable {ι : Type*} [DecidableEq ι] (h : Host) (getenv : String → Option String)

def keyExpiry (now : ℚ) : F64 :=
  F64.add h.rnd (.fin now) (ttlSeconds h getenv "INTERNAL_API_KEY_TTL")

/-- What the event does to the cache: a run without a user, or with the key of the deployment, does
not look one up. -/
def keyCacheEvent : KeyEvent ι → Option (TtlCache.Event ι String Key ℚ)
  | .run i userId now =>
      if (sharedKey getenv).isSome ∨ strip (userId.getD "") = "" then none
      else some (.look i (strip (userId.getD "")) now)
  | .fetched i f => some (.answer i (readKey h f))
  | .store i now => some (.store i now)

/-- The run whose credentials the event sets, and the key that it sets. -/
def binding (s : Keyring ι) (ev : KeyEvent ι) : Option (ι × Key) :=
  let served := ((keyCacheEvent h getenv ev).bind (TtlCache.served live s.cache)).map Prod.snd
  match ev with
  | .run i _ _ => ((sharedKey getenv).or served).map (i, ·)
  | .store i _ => served.map (i, ·)
  | .fetched .. => none

/-- A run starts when nothing is under way for its identifier. -/
def ready (s : Keyring ι) : KeyEvent ι → Bool
  | .run i _ _ => (s.cache.phase i).key?.isNone
  | _ => true

/-- The cache after the event. -/
def nextKeyCache (s : Keyring ι) (ev : KeyEvent ι) : Option (TtlCache ι String Key F64) :=
  match keyCacheEvent h getenv ev with
  | some w => TtlCache.step (keyExpiry h getenv) live s.cache w
  | none => some s.cache

/-- A run starts without credentials. -/
def nextStarted (s : Keyring ι) : KeyEvent ι → ι → Option Key
  | .run i _ _ => Function.update s.bound i none
  | _ => s.bound

/-- The credentials after the event. -/
def nextBound (s : Keyring ι) (ev : KeyEvent ι) : ι → Option Key :=
  match binding h getenv s ev with
  | some (i, k) => Function.update (nextStarted s ev) i (some k)
  | none => nextStarted s ev

def keyStep (s : Keyring ι) (ev : KeyEvent ι) : Option (Keyring ι) :=
  if ready s ev then
    (nextKeyCache h getenv s ev).map fun cache => ⟨cache, nextBound h getenv s ev⟩
  else none

end

section
variable {ι : Type*} [DecidableEq ι] {h : Host} {getenv : String → Option String} {s s' : Keyring ι}
  {ev : KeyEvent ι} {tr : List (Keyring ι × KeyEvent ι)} {i : ι} {uid : String} {k : Key}

theorem keyStep_eq (hs : keyStep h getenv s ev = some s') :
    ready s ev = true ∧ nextKeyCache h getenv s ev = some s'.cache ∧
      s'.bound = nextBound h getenv s ev := by
  unfold keyStep at hs
  split at hs
  · obtain ⟨c, hc, rfl⟩ := Option.map_eq_some_iff.mp hs
    exact ⟨‹_›, hc, rfl⟩
  · cases hs

theorem keyCache_step (s : Keyring ι) (ev : KeyEvent ι) (s' : Keyring ι)
    (hs : keyStep h getenv s ev = some s') :
    (∀ w, keyCacheEvent h getenv ev = some w →
      TtlCache.step (keyExpiry h getenv) live s.cache w = some s'.cache) ∧
      (keyCacheEvent h getenv ev = none → s'.cache = s.cache) := by
  have hc := (keyStep_eq hs).2.1
  unfold nextKeyCache at hc
  constructor
  · intro w hw
    simpa [hw] using hc
  · intro hnone
    simpa [hnone] using hc.symm

omit [DecidableEq ι] in
theorem keyCacheEvent_look {now : ℚ} (he : keyCacheEvent h getenv ev = some (.look i uid now)) :
    ∃ userId, ev = .run i userId now ∧ strip (userId.getD "") = uid ∧ uid ≠ "" ∧
      sharedKey getenv = none := by
  cases ev with
  | run j userId now' =>
      simp only [keyCacheEvent] at he
      split at he
      · cases he
      · rename_i hcond
        obtain ⟨hshared, hne⟩ := not_or.mp hcond
        cases he
        exact ⟨userId, rfl, rfl, hne, Option.not_isSome_iff_eq_none.mp hshared⟩
  | fetched j f => cases he
  | store j now' => cases he

omit [DecidableEq ι] in
theorem keyCacheEvent_answer {b : Option Key} (he : keyCacheEvent h getenv ev = some (.answer i b)) :
    ∃ f, ev = .fetched i f ∧ readKey h f = b := by
  cases ev with
  | run j userId now =>
      simp only [keyCacheEvent] at he
      split at he <;> cases he
  | fetched j f =>
      cases he
      exact ⟨f, rfl, rfl⟩
  | store j now => cases he

omit [DecidableEq ι] in
theorem keyCacheEvent_store {now : ℚ} :
    keyCacheEvent h getenv ev = some (.store i now) ↔ ev = .store i now := by
  constructor
  · intro he
    cases ev with
    | run j userId now =>
        simp only [keyCacheEvent] at he
        split at he <;> cases he
    | fetched j f => cases he
    | store j now =>
        cases he
        rfl
  · rintro rfl
    rfl

/-- The last run of the identifier is one of the user. -/
def RunsAs (i : ι) (uid : String) : List (Keyring ι × KeyEvent ι) → Prop :=
  Since (fun x => ∃ userId now, x.2 = .run i userId now ∧ strip (userId.getD "") = uid)
    fun x => ∀ userId now, x.2 ≠ .run i userId now

/-- The backend's answer to a run gives the user the key. -/
def IssuesTo (h : Host) (i : ι) (uid : String) (k : Key) (x : Keyring ι × KeyEvent ι) : Prop :=
  ∃ f, x.2 = .fetched i f ∧ readKey h f = some k ∧ x.1.cache.phase i = .asking uid

def KeepsAt (uid : String) (k : Key) (now : ℚ) (x : Keyring ι × KeyEvent ι) : Prop :=
  ∃ i, x.2 = .store i now ∧ x.1.cache.phase i = .told uid k

/-- A key that the event may bind the run to: the backend's answer to its own look-up, or the last
one that was stored for its user, which has not expired. -/
def Issued (h : Host) (getenv : String → Option String) (tr : List (Keyring ι × KeyEvent ι))
    (ev : KeyEvent ι) (i : ι) (uid : String) (k : Key) : Prop :=
  (∃ now, ev = .store i now ∧ Since (IssuesTo h i uid k)
      (fun x => ∀ uid now, keyCacheEvent h getenv x.2 ≠ some (.look i uid now)) tr) ∨
    ∃ userId now t, ev = .run i userId now ∧ F64.lt (.fin now) (keyExpiry h getenv t) = true ∧
      Since (KeepsAt uid k t) (fun x => ∀ k now, ¬ KeepsAt uid k now x) tr ∧
      ∃ j, ∃ x ∈ tr, IssuesTo h j uid k x

theorem issued_of_served (hp : Path (keyStep h getenv) {} tr s)
    {w : TtlCache.Event ι String Key ℚ} {now : ℚ}
    (hs : TtlCache.served live s.cache w = some (uid, k))
    (hw : (w = .look i uid now ∧ ∃ userId, ev = .run i userId now) ∨
      w = .store i now ∧ ev = .store i now) :
    Issued h getenv tr ev i uid k := by
  have hissues : ∀ {j : ι} {x : Keyring ι × KeyEvent ι},
      keyCacheEvent h getenv x.2 = some (.answer j (some k)) ∧
        x.1.cache.phase j = .asking uid → IssuesTo h j uid k x := by
    rintro j x ⟨hanswer, hasking⟩
    obtain ⟨f, hev, hf⟩ := keyCacheEvent_answer hanswer
    exact ⟨f, hev, hf, hasking⟩
  obtain ⟨j, now', rfl, hsince⟩ | ⟨j, now', t, rfl, hlive, hsince, l, x, hx, hanswer⟩ :=
    TtlCache.served_view Keyring.cache (keyCacheEvent h getenv) keyCache_step hp rfl hs
  · obtain ⟨hw, -⟩ | ⟨hw, rfl⟩ := hw
    · cases hw
    · cases hw
      exact .inl ⟨now, rfl, hsince.imp (fun x hx => hissues hx) fun x hx => hx⟩
  · obtain ⟨hw, userId, rfl⟩ | ⟨hw, -⟩ := hw
    · cases hw
      refine .inr ⟨userId, now, t, rfl, hlive, hsince.imp ?_ ?_, l, x, hx, hissues hanswer⟩
      · rintro x ⟨l, hstore, htold⟩
        exact ⟨l, keyCacheEvent_store.mp hstore, htold⟩
      · rintro x ⟨-, hstores⟩ k' now' ⟨l, hstore, htold⟩
        exact hstores l k' now' (keyCacheEvent_store.mpr hstore) htold
    · cases hw

/-- A run that waits for its key is one of the user whom the key is looked up for. -/
theorem waiting_run (hp : Path (keyStep h getenv) {} tr s)
    (hkey : (s.cache.phase i).key? = some uid) :
    uid ≠ "" ∧ sharedKey getenv = none ∧ RunsAs i uid tr := by
  induction hp generalizing i uid with
  | nil => cases hkey
  | @snoc tr s s' ev hp hs ih =>
      obtain ⟨hready, hc, -⟩ := keyStep_eq hs
      have hstay : (s.cache.phase i).key? = some uid →
          uid ≠ "" ∧ sharedKey getenv = none ∧ RunsAs i uid (tr ++ [(s, ev)]) := by
        intro hold
        obtain ⟨hne, hshared, hruns⟩ := ih hold
        refine ⟨hne, hshared, since_concat.mpr (.inr ⟨hruns, fun userId now hev => ?_⟩)⟩
        dsimp only at hev
        subst hev
        simp [ready, hold] at hready
      unfold nextKeyCache at hc
      split at hc
      · rename_i w hev
        obtain ⟨now, rfl⟩ | ⟨hold, -⟩ := TtlCache.key_step hc hkey
        · obtain ⟨userId, rfl, huid, hne, hshared⟩ := keyCacheEvent_look hev
          exact ⟨hne, hshared, since_concat.mpr (.inl ⟨userId, now, rfl, huid⟩)⟩
        · exact hstay hold
      · rw [← Option.some_inj.mp hc] at hkey
        exact hstay hkey

/-- What the event binds a run to is the key of the deployment, or issued to the run's user. -/
theorem issued_of_binding (hp : Path (keyStep h getenv) {} tr s)
    (hb : binding h getenv s ev = some (i, k)) :
    sharedKey getenv = some k ∨ sharedKey getenv = none ∧
      ∃ uid, uid ≠ "" ∧ RunsAs i uid (tr ++ [(s, ev)]) ∧ Issued h getenv tr ev i uid k := by
  cases ev with
  | run j userId now =>
      obtain ⟨k', hk, heq⟩ := Option.map_eq_some_iff.mp hb
      cases heq
      obtain hshared | ⟨hshared, hserved⟩ := Option.or_eq_some_iff.mp hk
      · exact .inl hshared
      · obtain ⟨⟨uid, k'⟩, hs, rfl⟩ := Option.map_eq_some_iff.mp hserved
        obtain ⟨w, hw, hs⟩ := Option.bind_eq_some_iff.mp hs
        simp only [keyCacheEvent] at hw
        split at hw
        · cases hw
        · rename_i hcond
          cases hw
          cases TtlCache.served_look hs
          exact .inr ⟨hshared, _, (not_or.mp hcond).2, since_concat.mpr (.inl ⟨userId, now, rfl, rfl⟩),
            issued_of_served hp hs (.inl ⟨rfl, userId, rfl⟩)⟩
  | fetched j f => cases hb
  | store j now =>
      obtain ⟨k', hk, heq⟩ := Option.map_eq_some_iff.mp hb
      cases heq
      obtain ⟨⟨uid, k'⟩, hs, rfl⟩ := Option.map_eq_some_iff.mp hk
      have hs : TtlCache.served live s.cache (.store i now) = some (uid, k') := hs
      have hkey : (s.cache.phase i).key? = some uid := by
        rw [TtlCache.served_store hs]
        rfl
      obtain ⟨hne, hshared, hruns⟩ := waiting_run hp hkey
      exact .inr ⟨hshared, uid, hne, since_concat.mpr (.inr ⟨hruns, by simp⟩),
        issued_of_served hp hs (.inr ⟨rfl, rfl⟩)⟩

end

/-- A key that is resolved for one run and remembered for the next one of the user. -/
def resolvingRuns : List (KeyEvent ℕ) :=
  [.run 0 (some "user_1") 100,
    .fetched 0 (.response 200 (some (.dict [("data", .dict [("apiKeys", .list [
      .dict [("provider", .str "other"), ("key", .str "sk-other")],
      .dict [("provider", .str "OpenRouter"), ("key", .str " sk-or-1 ")]])])]))),
    .store 0 101,
    .run 1 (some " user_1") 399]

end AiTrader.Entitlement
