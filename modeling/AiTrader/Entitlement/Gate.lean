import AiTrader.Agent.CallPairing
import AiTrader.Agent.DebateProtocol
import AiTrader.Float
import AiTrader.Library.TtlCache

/-! # The gate before the recommendation endpoints

`/run`, `/resume` and `/qa` stream an input into a thread once the gate lets the request through.
The gate asks the backend for the user's entitlement and remembers the answer for a while.

* `Service`: the cache of entitlements, the requests that wait for the backend, and the threads.
* `serviceStep`: the requests, the answers of the backend and the turns of the threads, in any order.
* `admitted_granted`: what the gate lets through is granted to its user.
* `research_needs_grant`: so is all research under way in any thread. -/

namespace AiTrader.Entitlement

open Agent Text Transition

/-! ### The settings -/

section
variable (h : Host) (getenv : String → Option String)

/-- `_env`. -/
def env (name default : String) : String :=
  match getenv name with
  | some v => if strip v = "" then default else strip v
  | none => default

/-- `enforcement_enabled`. -/
def enforcementEnabled : Bool :=
  decide (h.casing.lower (env getenv "SKU_ENFORCE" "0") ∈ ["1", "true", "yes", "on"])

/-- `_ttl_seconds` of a cache that is configured by the variable. -/
def ttlSeconds (name : String) : F64 := (h.parseFloat (env getenv name "300")).getD (.fin 300)

end

/-! ### The checks -/

section
variable (h : Host)

def terminalModes : List String := ["VERIFY"]

/-- `mode_requires_research`. -/
def modeRequiresResearch (mode : Option String) : Bool :=
  let normalised := h.casing.upper (strip (mode.getD ""))
  if normalised = "" then true else decide (normalised ∉ terminalModes)

/-- `_extract_entitlement`: only a real boolean counts as one. -/
def extractEntitlement : PyVal → Bool
  | .dict payload =>
      match Kwargs.get payload "data" with
      | .dict data =>
          match Kwargs.get data "canAccessResearch", Kwargs.get data "sku" with
          | .bool true, _ => true
          | _, .str sku => decide (h.casing.upper (strip sku) = "RESEARCH")
          | _, _ => false
      | _ => false
  | _ => false

/-- What comes of a call of the backend: a body that is no JSON is none. -/
inductive Fetch where
  | unreachable
  | response (status : ℤ) (body : Option PyVal)

/-- `is_research_entitled` of what the backend answers; only an answer that is read is stored. -/
def readEntitlement : Fetch → Option Bool
  | .unreachable => none
  | .response status body => if status / 100 = 2 then body.map (extractEntitlement h) else none

/-- What `require_research_entitlement` does before it looks into the cache. -/
inductive Check where
  | proceed
  | refuse
  | lookUp (uid : String)

/-- The user who is looked up. -/
def Check.uid? : Check → Option String
  | .lookUp uid => some uid
  | _ => none

def requireResearchEntitlement (getenv : String → Option String) (userId mode : Option String) :
    Check :=
  if !modeRequiresResearch h mode then .proceed
  else if !enforcementEnabled h getenv then .proceed
  else
    let uid := strip (userId.getD "")
    if uid = "" then .refuse else .lookUp uid

end

/-! ### The endpoints -/

/-- A request with the user whom it is resolved to. -/
structure Request where
  thread : String
  userId : Option String
  input : Input

/-- The mode that an endpoint is gated by. -/
def Request.mode (req : Request) : Option String :=
  match req.input with
  | .run _ mode _ _ _ _ => mode
  | .resume _ => some "FIND"
  | .qa _ => some "QA"

/-- The process: requests, by the worker that handles them, and threads, by their identifier. -/
structure Service (ι : Type*) where
  cache : TtlCache ι String Bool F64 := {}
  asked : ι → Option Request := fun _ => none
  threads : String → Thread := fun _ => {}

inductive ServiceEvent (ι : Type*) where
  | request (i : ι) (req : Request) (now : ℚ)
  | fetched (i : ι) (f : Fetch)
  | store (i : ι) (now : ℚ)
  /-- `clear_cache` -/
  | clear
  | turn (thread : String) (p : Process) (ev : Event)

section
variable {ι : Type*} [DecidableEq ι] (env : Env) (cfg : DebateConfig)
  (getenv : String → Option String)

/-- An entry expires `_ttl_seconds` after the clock's time. -/
def expiry (now : ℚ) : F64 :=
  F64.add env.host.rnd (.fin now) (ttlSeconds env.host getenv "INTERNAL_ENTITLEMENT_TTL")

def live (expiry : F64) (now : ℚ) : Bool := F64.lt (.fin now) expiry

/-- What the event does to the cache. -/
def cacheEvent : ServiceEvent ι → Option (TtlCache.Event ι String Bool ℚ)
  | .request i req now =>
      (requireResearchEntitlement env.host getenv req.userId req.mode).uid?.map (.look i · now)
  | .fetched i f => some (.answer i (readEntitlement env.host f))
  | .store i now => some (.store i now)
  | .clear => some .clear
  | .turn .. => none

/-- The cache serves a grant. -/
def grants (c : TtlCache ι String Bool F64) (ev : TtlCache.Event ι String Bool ℚ) : Bool :=
  (TtlCache.served live c ev).any Prod.snd

/-- The request that the event lets through. -/
def admitted (s : Service ι) : ServiceEvent ι → Option Request
  | .request i req now =>
      match requireResearchEntitlement env.host getenv req.userId req.mode with
      | .proceed => some req
      | .refuse => none
      | .lookUp uid => if grants s.cache (.look i uid now) then some req else none
  | .store i now => if grants s.cache (.store i now) then s.asked i else none
  | _ => none

/-- The input of a request is streamed into its thread. -/
def stream (threads : String → Thread) (req : Request) : String → Thread :=
  let state := req.input.apply (threads req.thread).state
  Function.update threads req.thread ⟨state, some (routeEntry env.host state)⟩

/-- The cache after the event. -/
def nextCache (s : Service ι) (ev : ServiceEvent ι) : Option (TtlCache ι String Bool F64) :=
  match cacheEvent env getenv ev with
  | some ev => TtlCache.step (expiry env getenv) live s.cache ev
  | none => some s.cache

/-- The requests that wait for the backend after the event. -/
def nextAsked (s : Service ι) : ServiceEvent ι → ι → Option Request
  | .request i req _ =>
      if (requireResearchEntitlement env.host getenv req.userId req.mode).uid?.isSome then
        Function.update s.asked i (some req)
      else s.asked
  | _ => s.asked

/-- A request on its way through the gate. -/
def gateStep (s : Service ι) (ev : ServiceEvent ι) : Option (Service ι) :=
  (nextCache env getenv s ev).map fun cache =>
    { cache
      asked := nextAsked env getenv s ev
      threads := ((admitted env getenv s ev).map (stream env s.threads)).getD s.threads }

def serviceStep (s : Service ι) (ev : ServiceEvent ι) : Option (Service ι) :=
  match ev with
  | .turn thread p ev =>
      if isInput ev then none
      else (threadStep env cfg (some thread) (s.threads thread) (p, ev)).map fun t =>
        { s with threads := Function.update s.threads thread t }
  | ev => gateStep env getenv s ev

end

section
variable {ι : Type*} [DecidableEq ι] {env : Env} {cfg : DebateConfig}
  {getenv : String → Option String} {s s' : Service ι} {ev : ServiceEvent ι} {req : Request}
  {tr : List (Service ι × ServiceEvent ι)}

/-- A turn of a thread leaves the gate alone; every other event leaves the threads to the request
that it lets through. -/
theorem serviceStep_cases (h : serviceStep env cfg getenv s ev = some s') :
    (∃ thread p e t, ev = .turn thread p e ∧ isInput e = false ∧
      threadStep env cfg (some thread) (s.threads thread) (p, e) = some t ∧
      s' = { s with threads := Function.update s.threads thread t }) ∨
    ((∀ thread p e, ev ≠ .turn thread p e) ∧ ∃ c, nextCache env getenv s ev = some c ∧
      s' = ⟨c, nextAsked env getenv s ev,
        ((admitted env getenv s ev).map (stream env s.threads)).getD s.threads⟩) := by
  unfold serviceStep at h
  split at h
  · rename_i thread p e
    split at h
    · cases h
    · obtain ⟨t, ht, rfl⟩ := Option.map_eq_some_iff.mp h
      exact .inl ⟨thread, p, e, t, rfl, Bool.eq_false_iff.mpr ‹_›, ht, rfl⟩
  · rename_i hturn
    obtain ⟨c, hc, rfl⟩ := Option.map_eq_some_iff.mp h
    exact .inr ⟨hturn, c, hc, rfl⟩

theorem cache_step (s : Service ι) (ev : ServiceEvent ι) (s' : Service ι)
    (h : serviceStep env cfg getenv s ev = some s') :
    (∀ w, cacheEvent env getenv ev = some w →
      TtlCache.step (expiry env getenv) live s.cache w = some s'.cache) ∧
      (cacheEvent env getenv ev = none → s'.cache = s.cache) := by
  obtain ⟨thread, p, e, t, rfl, -, -, rfl⟩ | ⟨-, c, hcache, rfl⟩ := serviceStep_cases h
  · exact ⟨fun w hw => (by cases hw), fun _ => rfl⟩
  · unfold nextCache at hcache
    constructor
    · intro w hw
      simpa [hw] using hcache
    · intro hnone
      simpa [hnone] using hcache.symm

omit [DecidableEq ι] in
theorem cacheEvent_look {i : ι} {uid : String} {now : ℚ}
    (h : cacheEvent env getenv ev = some (.look i uid now)) :
    ∃ req, ev = .request i req now ∧
      (requireResearchEntitlement env.host getenv req.userId req.mode).uid? = some uid := by
  cases ev with
  | request j req now' =>
      simp only [cacheEvent, Option.map_eq_some_iff] at h
      obtain ⟨uid', hlook, heq⟩ := h
      cases heq
      exact ⟨req, rfl, hlook⟩
  | fetched j f => cases h
  | store j now => cases h
  | clear => cases h
  | turn thread p e => cases h

omit [DecidableEq ι] in
theorem cacheEvent_answer {i : ι} {b : Option Bool}
    (h : cacheEvent env getenv ev = some (.answer i b)) :
    ∃ f, ev = .fetched i f ∧ readEntitlement env.host f = b := by
  cases ev with
  | request j req now => simp [cacheEvent] at h
  | fetched j f =>
      simp only [cacheEvent, Option.some.injEq, TtlCache.Event.answer.injEq] at h
      obtain ⟨rfl, rfl⟩ := h
      exact ⟨f, rfl, rfl⟩
  | store j now => cases h
  | clear => cases h
  | turn thread p e => cases h

omit [DecidableEq ι] in
theorem cacheEvent_store {i : ι} {now : ℚ} :
    cacheEvent env getenv ev = some (.store i now) ↔ ev = .store i now := by
  constructor
  · intro h
    cases ev with
    | request j req now => simp [cacheEvent] at h
    | fetched j f => cases h
    | store j now =>
        cases h
        rfl
    | clear => cases h
    | turn thread p e => cases h
  · rintro rfl
    rfl

theorem nextAsked_other {i : ι}
    (hother : ∀ uid now, cacheEvent env getenv ev ≠ some (.look i uid now)) :
    nextAsked env getenv s ev i = s.asked i := by
  cases ev with
  | request j req now =>
      simp only [nextAsked]
      split
      · rename_i hsome
        obtain ⟨uid, hlook⟩ := Option.isSome_iff_exists.mp hsome
        have hij : i ≠ j := by
          rintro rfl
          exact hother uid now (by simp only [cacheEvent, hlook, Option.map_some])
        rw [Function.update_of_ne hij]
      · rfl
  | fetched j f => rfl
  | store j now => rfl
  | clear => rfl
  | turn thread p e => rfl

theorem asked_lookUp (h : Path (serviceStep env cfg getenv) {} tr s) {i : ι} {uid : String}
    (hkey : (s.cache.phase i).key? = some uid) :
    ∃ req, s.asked i = some req ∧
      (requireResearchEntitlement env.host getenv req.userId req.mode).uid? = some uid := by
  induction h generalizing i uid with
  | nil => cases hkey
  | @snoc tr s s' ev hp hs ih =>
      obtain ⟨thread, p, e, t, rfl, -, -, rfl⟩ | ⟨-, c, hc, rfl⟩ := serviceStep_cases hs
      · exact ih hkey
      · unfold nextCache at hc
        split at hc
        · rename_i w hev
          obtain ⟨now, rfl⟩ | ⟨hkept, hother⟩ := TtlCache.key_step hc hkey
          · obtain ⟨req, rfl, hlook⟩ := cacheEvent_look hev
            refine ⟨req, ?_, hlook⟩
            simp [nextAsked, hlook]
          · obtain ⟨req, hreq, hlook⟩ := ih hkept
            refine ⟨req, ?_, hlook⟩
            have hne : ∀ uid now, cacheEvent env getenv ev ≠ some (.look i uid now) := by
              intro uid now hl
              exact hother uid now (Option.some_inj.mp (hev.symm.trans hl))
            exact (nextAsked_other hne).trans hreq
        · rename_i hev
          cases hc
          obtain ⟨req, hreq, hlook⟩ := ih hkey
          refine ⟨req, ?_, hlook⟩
          have hne : ∀ uid now, cacheEvent env getenv ev ≠ some (.look i uid now) := by
            intro uid now hl
            cases hev.symm.trans hl
          exact (nextAsked_other hne).trans hreq

/-! ### What is let through -/

/-- The backend's answer to the worker grants the user research. -/
def GrantsTo (h : Host) (i : ι) (uid : String) (x : Service ι × ServiceEvent ι) : Prop :=
  ∃ f, x.2 = .fetched i f ∧ readEntitlement h f = some true ∧ x.1.cache.phase i = .asking uid

/-- A worker stores the answer for the user at a time. -/
def StoresAt (uid : String) (entitled : Bool) (now : ℚ) (x : Service ι × ServiceEvent ι) : Prop :=
  ∃ i, x.2 = .store i now ∧ x.1.cache.phase i = .told uid entitled

/-- A grant on which the event may let the user through: the backend's answer to the look-up that
its own worker has made last, or the last answer stored for the user, which has not expired. -/
def Granted (env : Env) (getenv : String → Option String)
    (tr : List (Service ι × ServiceEvent ι)) (ev : ServiceEvent ι) (uid : String) : Prop :=
  (∃ i now, ev = .store i now ∧ Since (GrantsTo env.host i uid)
      (fun x => ∀ uid now, cacheEvent env getenv x.2 ≠ some (.look i uid now)) tr) ∨
    ∃ i req now t, ev = .request i req now ∧ F64.lt (.fin now) (expiry env getenv t) = true ∧
      Since (StoresAt uid true t)
        (fun x => x.2 ≠ .clear ∧ ∀ entitled now, ¬ StoresAt uid entitled now x) tr ∧
      ∃ j, ∃ x ∈ tr, GrantsTo env.host j uid x

theorem requireResearchEntitlement_research (henforce : enforcementEnabled env.host getenv = true)
    (hmode : modeRequiresResearch env.host req.mode = true) :
    requireResearchEntitlement env.host getenv req.userId req.mode =
      if strip (req.userId.getD "") = "" then .refuse
      else .lookUp (strip (req.userId.getD "")) := by
  unfold requireResearchEntitlement
  rw [henforce, hmode]
  rfl

theorem granted_of_grants (h : Path (serviceStep env cfg getenv) {} tr s)
    {w : TtlCache.Event ι String Bool ℚ} {uid : String}
    (hs : TtlCache.served live s.cache w = some (uid, true))
    (hw : (∃ i now, w = .store i now ∧ ev = .store i now) ∨
      ∃ i req now, w = .look i uid now ∧ ev = .request i req now) :
    Granted env getenv tr ev uid := by
  have hgrants : ∀ {i : ι} {x : Service ι × ServiceEvent ι},
      cacheEvent env getenv x.2 = some (.answer i (some true)) ∧
        x.1.cache.phase i = .asking uid → GrantsTo env.host i uid x := by
    rintro i x ⟨hanswer, hasking⟩
    obtain ⟨f, hev, hf⟩ := cacheEvent_answer hanswer
    exact ⟨f, hev, hf, hasking⟩
  obtain ⟨i, now, rfl, hsince⟩ | ⟨i, now, t, rfl, hlive, hsince, j, x, hx, hanswer⟩ :=
    TtlCache.served_view Service.cache (cacheEvent env getenv) cache_step h rfl hs
  · obtain ⟨i', now', hw, rfl⟩ | ⟨i', req, now', hw, -⟩ := hw
    · cases hw
      exact .inl ⟨i, now, rfl, hsince.imp (fun x hx => hgrants hx) fun x hx => hx⟩
    · cases hw
  · obtain ⟨i', now', hw, -⟩ | ⟨i', req, now', hw, rfl⟩ := hw
    · cases hw
    · cases hw
      refine .inr ⟨i, req, now, t, rfl, hlive, hsince.imp ?_ ?_, j, x, hx, hgrants hanswer⟩
      · rintro x ⟨k, hstore, htold⟩
        exact ⟨k, cacheEvent_store.mp hstore, htold⟩
      · rintro x ⟨hclear, hstores⟩
        refine ⟨fun h => hclear (by rw [h]; rfl), ?_⟩
        rintro entitled now' ⟨k, hstore, htold⟩
        exact hstores k entitled now' (cacheEvent_store.mpr hstore) htold

/-- **What the gate lets through is granted.**  Whatever the order of the requests, of the backend's
answers and of the reads of the clock, a research request is let through only on a grant of the
backend to its own user that is fresh. -/
theorem admitted_granted (h : Path (serviceStep env cfg getenv) {} tr s)
    (henforce : enforcementEnabled env.host getenv = true)
    (hmode : modeRequiresResearch env.host req.mode = true)
    (hadm : admitted env getenv s ev = some req) :
    Granted env getenv tr ev (strip (req.userId.getD "")) := by
  have hcheck := requireResearchEntitlement_research henforce hmode
  have hserved : ∀ {w : TtlCache.Event ι String Bool ℚ}, grants s.cache w = true →
      ∃ uid, TtlCache.served live s.cache w = some (uid, true) := by
    intro w hg
    obtain ⟨⟨uid, b⟩, hs, rfl⟩ := (Option.any_eq_true _ _).mp hg
    exact ⟨uid, hs⟩
  cases ev with
  | request i req' now =>
      simp only [admitted] at hadm
      generalize hc : requireResearchEntitlement env.host getenv req'.userId req'.mode = c at hadm
      cases c with
      | proceed =>
          cases hadm
          rw [hcheck] at hc
          split at hc <;> cases hc
      | refuse => cases hadm
      | lookUp uid =>
          simp only at hadm
          split at hadm
          · rename_i hg
            cases hadm
            rw [hcheck] at hc
            split at hc
            · cases hc
            · cases hc
              obtain ⟨uid, hs⟩ := hserved hg
              cases TtlCache.served_look hs
              exact granted_of_grants h hs (.inr ⟨i, req, now, rfl, rfl⟩)
          · cases hadm
  | fetched i f => cases hadm
  | store i now =>
      simp only [admitted] at hadm
      split at hadm
      · rename_i hg
        obtain ⟨uid, hs⟩ := hserved hg
        have hkey : (s.cache.phase i).key? = some uid := by
          rw [TtlCache.served_store hs]
          rfl
        obtain ⟨req', hasked, hlook⟩ := asked_lookUp h hkey
        cases hasked.symm.trans hadm
        rw [hcheck] at hlook
        split at hlook
        · cases hlook
        · cases hlook
          exact granted_of_grants h hs (.inl ⟨i, now, rfl, rfl⟩)
      · cases hadm
  | clear => cases hadm
  | turn thread p e => cases hadm

/-! ### What is under way in a thread -/

def isDebate : Node → Bool
  | .bull | .bear | .judge => true
  | _ => false

/-- Q&A nodes run in Q&A mode, debate nodes after a debate has been entered. -/
structure Routed (h : Host) (t : Thread) : Prop where
  qa : ∀ n, t.next = some n → n.isQa = true → t.state.modeKey h = "QA"
  debate : ∀ n, t.next = some n → isDebate n = true → t.state.phase.isSome = true

theorem Routed.ended {h : Host} {t : Thread} (hnext : t.next = none) : Routed h t where
  qa n hn := by rw [hnext] at hn; cases hn
  debate n hn := by rw [hnext] at hn; cases hn

theorem shouldContinue_debate (env : Env) (t : AgentState) (now : ℚ) :
    ∀ n, (shouldContinue env t now).node = some n → isDebate n = true → t.phase.isSome = true := by
  intro n hn hdebate
  simp only [shouldContinue] at hn
  split at hn
  · split at hn
    · split at hn <;> cases hn <;> cases hdebate
    · cases hn
      cases hdebate
  · split at hn
    · cases hn
    · split at hn
      · cases hn
        cases hdebate
      · split at hn
        · cases hn
          cases hdebate
        · split at hn
          · assumption
          · cases hn
            cases hdebate

theorem routeAfterTools_debate (t : AgentState) :
    ∀ n, (routeAfterTools t).node = some n → isDebate n = true → t.phase.isSome = true := by
  intro n hn hdebate
  unfold routeAfterTools at hn
  split at hn
  · cases hn
  · split at hn
    · rename_i hphase
      rw [hphase]
      rfl
    · cases hn
      cases hdebate

theorem toolNode_phase {threadId : Option String} {t t' : AgentState} {now : ℚ}
    {results : List String} {p p' : Process}
    (h : toolNode env threadId t now results p = some (t', p')) :
    t'.phase.isSome = true → t.phase.isSome = true := by
  have hnext : (toolNext env t now results).phase.isSome = true → t.phase.isSome = true := by
    intro hsome
    simp only [toolNext] at hsome
    split at hsome
    · exact hsome
    · rename_i hheld
      cases hb : (partitionCalls env t now).researchBlocked with
      | nil => simp [hb] at hheld
      | cons tc tcs =>
          have hmem : tc ∈ (partitionCalls env t now).researchBlocked := by simp [hb]
          have hresearch := (List.mem_filter.mp hmem).2
          simp only [heldInResearch, Bool.and_eq_true, decide_eq_true_eq] at hresearch
          rw [hresearch.1]
          rfl
  obtain ⟨-, ⟨-, rfl, -⟩ | ⟨d, closing, -, -, -, rfl⟩⟩ := toolNode_cases h
  · exact hnext
  · exact hnext

theorem step_routed {threadId : Option String} {t t' : Thread} {p p' : Process} {e : Event}
    (hs : Step env cfg threadId t p e t' p') (he : isInput e = false) (hr : Routed env.host t) :
    Routed env.host t' ∧ t'.state.mode = t.state.mode ∧
      (t'.state.phase.isSome = true → t.state.phase.isSome = true ∨
        t.state.modeKey env.host = "DEBATE") := by
  have hoff : ∀ {o : Option Node} {n : Node}, o.any Node.isQa = false → o = some n →
      n.isQa = true → False := by
    rintro o n ho rfl hn
    exact Bool.false_ne_true (ho.symm.trans hn)
  cases hs with
  | input i => cases he
  | agent turn now hnext =>
      refine ⟨⟨fun n hn hqa => (hoff (shouldContinue_node env _ now).1 hn hqa).elim,
        shouldContinue_debate env _ now⟩, rfl, fun hsome => ?_⟩
      simp only [callModel] at hsome
      split at hsome
      · rename_i hdebate
        exact .inr hdebate.1
      · exact .inl hsome
  | tools hnext ht =>
      refine ⟨⟨fun n hn hqa => (hoff (routeAfterTools_node _).1 hn hqa).elim,
        routeAfterTools_debate _⟩, toolNode_mode ht, fun hsome => .inl (toolNode_phase ht hsome)⟩
  | forceHold hnext => exact ⟨.ended rfl, rfl, .inl⟩
  | forceTerminal now hnext => exact ⟨.ended rfl, rfl, .inl⟩
  | bull answer hnext =>
      refine ⟨⟨fun n hn hqa => ?_, fun n hn _ => rfl⟩, rfl, fun _ => .inl (hr.debate _ hnext rfl)⟩
      cases hn
      cases hqa
  | bear answer hnext =>
      refine ⟨⟨fun n hn hqa => ?_, fun n hn _ => rfl⟩, rfl, fun _ => .inl (hr.debate _ hnext rfl)⟩
      dsimp only at hn
      generalize routeDebate cfg (bearNode env t.state answer) = r at hn
      cases hn
      cases r <;> cases hqa
  | judge hnext hj =>
      refine ⟨.ended rfl, ?_, fun _ => .inl (hr.debate _ hnext rfl)⟩
      obtain ⟨st, -, heq⟩ := Option.map_eq_some_iff.mp hj
      split at heq <;> cases heq <;> rfl
  | qaAgent r hnext =>
      have hkeep : (qaNode env t.state r).mode = t.state.mode ∧
          (qaNode env t.state r).phase = t.state.phase := by
        unfold qaNode
        split <;> exact ⟨rfl, rfl⟩
      refine ⟨⟨fun n hn hqa => ?_, fun n hn hdebate => ?_⟩, hkeep.1, fun h => .inl (hkeep.2 ▸ h)⟩
      · rw [← hr.qa _ hnext rfl, AgentState.modeKey, AgentState.modeKey, hkeep.1]
      · dsimp only at hn
        split at hn <;> cases hn
        cases hdebate
  | qaTools hnext hq =>
      simp only [qaToolNode] at hq
      split at hq <;> cases hq
      refine ⟨⟨fun n hn hqa => hr.qa _ hnext rfl, fun n hn hdebate => ?_⟩, rfl, .inl⟩
      cases hn
      cases hdebate

/-- The event lets the request into the thread. -/
def Enters (env : Env) (getenv : String → Option String) (thread : String) (req : Request)
    (x : Service ι × ServiceEvent ι) : Prop :=
  admitted env getenv x.1 x.2 = some req ∧ req.thread = thread

/-- What is under way in a thread is what the last request has brought there. -/
structure ThreadInv (env : Env) (getenv : String → Option String)
    (tr : List (Service ι × ServiceEvent ι)) (thread : String) (t : Thread) : Prop where
  routed : Routed env.host t
  entered : (t.next = none ∧ t.state.decision = none) ∨ ∃ req, req.mode = t.state.mode ∧
    Since (Enters env getenv thread req) (fun x => ∀ r, ¬ Enters env getenv thread r x) tr
  debate : t.state.phase.isSome = true → ∃ x ∈ tr, ∃ req, Enters env getenv thread req x ∧
    env.host.casing.upper (strip (req.mode.getD "")) = "DEBATE"

theorem requires_of_mode {h : Host} {mode : Option String} {key : String}
    (hkey : h.casing.upper (strip (mode.getD "")) = key) (hne : key ≠ "")
    (hterminal : key ∉ terminalModes) : modeRequiresResearch h mode = true := by
  simp only [modeRequiresResearch, hkey, if_neg hne, decide_eq_true hterminal]

theorem step_next {threadId : Option String} {t t' : Thread} {p p' : Process} {e : Event}
    (hs : Step env cfg threadId t p e t' p') (he : isInput e = false) : t.next ≠ none := by
  cases hs with
  | input i => cases he
  | _ => simp_all

omit [DecidableEq ι] in
theorem ThreadInv.stay {thread : String} {t : Thread} {x : Service ι × ServiceEvent ι}
    (hinv : ThreadInv env getenv tr thread t) (hx : ∀ r, ¬ Enters env getenv thread r x) :
    ThreadInv env getenv (tr ++ [x]) thread t where
  routed := hinv.routed
  entered := hinv.entered.imp_right fun ⟨req, hmode, hsince⟩ =>
    ⟨req, hmode, since_concat.mpr (.inr ⟨hsince, hx⟩)⟩
  debate hphase := by
    obtain ⟨y, hy, hreq⟩ := hinv.debate hphase
    exact ⟨y, List.mem_append_left _ hy, hreq⟩

omit [DecidableEq ι] in
theorem ThreadInv.turn {thread : String} {threadId : Option String} {t t' : Thread}
    {p p' : Process} {e : Event} (hinv : ThreadInv env getenv tr thread t)
    (hs : Step env cfg threadId t p e t' p') (he : isInput e = false) :
    ThreadInv env getenv tr thread t' := by
  obtain ⟨hrouted, hmode, hphase⟩ := step_routed hs he hinv.routed
  obtain ⟨hnext, -⟩ | ⟨req, hreq, hsince⟩ := hinv.entered
  · exact absurd hnext (step_next hs he)
  · refine ⟨hrouted, .inr ⟨req, hreq.trans hmode.symm, hsince⟩, fun hsome => ?_⟩
    obtain hold | hdebate := hphase hsome
    · exact hinv.debate hold
    · obtain ⟨x, hx, henters⟩ := hsince.mem
      exact ⟨x, hx, req, henters, hreq ▸ hdebate⟩

theorem apply_mode (req : Request) (t : AgentState) : (req.input.apply t).mode = req.mode := by
  unfold Request.mode
  cases req.input <;> rfl

theorem apply_phase (i : Input) (t : AgentState) : (i.apply t).phase = t.phase := by
  cases i <;> rfl

theorem routed_entry (h : Host) (t : AgentState) : Routed h ⟨t, some (routeEntry h t)⟩ := by
  have hentry : (routeEntry h t = .qaAgent ∧ t.modeKey h = "QA") ∨ routeEntry h t = .agent := by
    unfold routeEntry
    split
    · exact .inl ⟨rfl, ‹_›⟩
    · exact .inr rfl
  generalize routeEntry h t = n at hentry
  obtain ⟨rfl, hkey⟩ | rfl := hentry
  · refine ⟨fun _ _ _ => hkey, fun n hn hdebate => ?_⟩
    cases hn
    cases hdebate
  · constructor <;> intro n hn hnode <;> cases hn <;> cases hnode

omit [DecidableEq ι] in
theorem ThreadInv.enter {thread : String} {t : Thread} {x : Service ι × ServiceEvent ι}
    (hinv : ThreadInv env getenv tr thread t) (hx : Enters env getenv thread req x) :
    ThreadInv env getenv (tr ++ [x]) thread
      ⟨req.input.apply t.state, some (routeEntry env.host (req.input.apply t.state))⟩ where
  routed := routed_entry env.host _
  entered := .inr ⟨req, (apply_mode req t.state).symm, since_concat.mpr (.inl hx)⟩
  debate hphase := by
    rw [apply_phase] at hphase
    obtain ⟨y, hy, hreq⟩ := hinv.debate hphase
    exact ⟨y, List.mem_append_left _ hy, hreq⟩

theorem ThreadInv.path (h : Path (serviceStep env cfg getenv) {} tr s) (thread : String) :
    ThreadInv env getenv tr thread (s.threads thread) := by
  induction h with
  | nil => exact ⟨.ended rfl, .inl ⟨rfl, rfl⟩, fun hphase => by cases hphase⟩
  | @snoc tr s s' ev hp hs ih =>
      obtain ⟨other, p, e, t, rfl, he, ht, rfl⟩ | ⟨-, c, -, rfl⟩ := serviceStep_cases hs
      · have hstay := ih.stay (x := (s, .turn other p e)) fun r hr => by cases hr.1
        by_cases hthread : thread = other
        · subst hthread
          obtain ⟨p', hstep⟩ := threadStep_step ht
          simpa using hstay.turn hstep he
        · simpa [Function.update_of_ne hthread] using hstay
      · cases hadm : admitted env getenv s ev with
        | none => exact ih.stay fun r hr => by cases hadm.symm.trans hr.1
        | some req =>
            simp only [Option.map_some, Option.getD_some, stream]
            by_cases hthread : thread = req.thread
            · subst hthread
              simpa using ih.enter ⟨hadm, rfl⟩
            · rw [Function.update_of_ne hthread]
              exact ih.stay fun r hr => hthread (by
                cases hadm.symm.trans hr.1
                exact hr.2.symm)

/-- **No research without a grant.**  With the gate on, in every order of requests, answers of the
backend and turns of the threads: research that is under way or decided in a thread was let in by the
last request of the thread, on a fresh grant of the backend to that request's user; Q&A is research;
and a debate, which outlives its request in the thread, was let in by a request for a debate, on such
a grant too. -/
theorem research_needs_grant {ι : Type*} [DecidableEq ι] (env : Env) (cfg : DebateConfig)
    (getenv : String → Option String) (henforce : enforcementEnabled env.host getenv = true)
    (tr : List (Service ι × ServiceEvent ι)) (s : Service ι)
    (h : Path (serviceStep env cfg getenv) {} tr s) (thread : String) :
    let t := s.threads thread
    (t.next ≠ none ∨ t.state.decision ≠ none →
      modeRequiresResearch env.host t.state.mode = true →
      ∃ pre x post req, tr = pre ++ x :: post ∧ Enters env getenv thread req x ∧
        (∀ y ∈ post, ∀ r, ¬ Enters env getenv thread r y) ∧ req.mode = t.state.mode ∧
        Granted env getenv pre x.2 (strip (req.userId.getD ""))) ∧
    (∀ n, t.next = some n → n.isQa = true →
      modeRequiresResearch env.host t.state.mode = true) ∧
    (∀ n, t.next = some n → isDebate n = true →
      ∃ pre x post req, tr = pre ++ x :: post ∧ Enters env getenv thread req x ∧
        env.host.casing.upper (strip (req.mode.getD "")) = "DEBATE" ∧
        Granted env getenv pre x.2 (strip (req.userId.getD ""))) := by
  intro t
  have hinv : ThreadInv env getenv tr thread t := .path h thread
  have hgranted : ∀ {pre x post req}, tr = pre ++ x :: post → Enters env getenv thread req x →
      modeRequiresResearch env.host req.mode = true →
      Granted env getenv pre x.2 (strip (req.userId.getD "")) := by
    rintro pre x post req rfl henters hmode
    exact admitted_granted h.split.1 henforce hmode henters.1
  refine ⟨fun hstarted hmode => ?_, fun n hn hqa => ?_, fun n hn hdebate => ?_⟩
  · obtain ⟨hnext, hdec⟩ | ⟨req, hreq, pre, x, post, htr, henters, hpost⟩ := hinv.entered
    · exact (hstarted.elim (· hnext) (· hdec)).elim
    · exact ⟨pre, x, post, req, htr, henters, hpost, hreq, hgranted htr henters (hreq ▸ hmode)⟩
  · exact requires_of_mode (hinv.routed.qa n hn hqa) (by decide) (by decide)
  · obtain ⟨x, hx, req, henters, hmode⟩ := hinv.debate (hinv.routed.debate n hn hdebate)
    obtain ⟨pre, post, htr⟩ := List.append_of_mem hx
    exact ⟨pre, x, post, req, htr, henters, hmode,
      hgranted htr henters (requires_of_mode hmode (by decide) (by decide))⟩

end

/-! ### A question of a subscriber -/

def enforcing : String → Option String := fun name => if name = "SKU_ENFORCE" then some "1" else none

def askedQuestion : Request := ⟨"thread_1", some "user_1", .qa "Why this stop?"⟩

/-- The backend is asked, and its grant is still fresh when the user asks again. -/
def subscriberEvents : List (ServiceEvent ℕ) :=
  [.request 0 askedQuestion 100,
    .fetched 0 (.response 200 (some (.dict [("data", .dict [("sku", .str " research")])]))),
    .store 0 101,
    .turn "thread_1" {} (.qaAgent ⟨"It is below the swing low.", []⟩),
    .request 1 askedQuestion 399]

theorem research_needs_grant_qa : ∃ tr s,
    Path (serviceStep defaultEnv sampleDebate enforcing) ({} : Service ℕ) tr s ∧
      (s.threads "thread_1").next = some .qaAgent ∧
      ∃ pre x post req, tr = pre ++ x :: post ∧ Enters defaultEnv enforcing "thread_1" req x ∧
        (∀ y ∈ post, ∀ r, ¬ Enters defaultEnv enforcing "thread_1" r y) ∧
        req.mode = (s.threads "thread_1").state.mode ∧
        Granted defaultEnv enforcing pre x.2 (strip (req.userId.getD "")) := by
  have hrun : (trace (serviceStep defaultEnv sampleDebate enforcing) ({} : Service ℕ)
      subscriberEvents).map (fun r => (r.2.threads "thread_1").next) = some (some .qaAgent) := by
    decide +kernel
  obtain ⟨⟨tr, s⟩, htr, hnext⟩ := Option.map_eq_some_iff.mp hrun
  have hpath := Path.of_trace htr
  have henforce : enforcementEnabled defaultEnv.host enforcing = true := by decide +kernel
  obtain ⟨hresearch, hqa, -⟩ :=
    research_needs_grant defaultEnv sampleDebate enforcing henforce tr s hpath "thread_1"
  have hstarted : (s.threads "thread_1").next ≠ none := by
    rw [hnext]
    exact Option.some_ne_none _
  exact ⟨tr, s, hpath, hnext, hresearch (.inl hstarted) (hqa _ hnext rfl)⟩

/-! ### Verification in another spelling -/

/-- The base that `format_system_prompt` starts from. -/
inductive BasePrompt where
  | riskManager | optionsDesk | deepQuant
deriving DecidableEq, Repr

def profileKey (h : Host) (profile : Option String) : String :=
  let raw := strip (profile.getD "")
  if raw = "" then "INTRADAY" else h.casing.upper raw

def analysisPrompt (profileKey : String) : BasePrompt :=
  if profileKey = "FNO" then .optionsDesk else .deepQuant

def basePrompt (h : Host) (t : AgentState) : BasePrompt :=
  if t.mode = some "VERIFY" then .riskManager else analysisPrompt (profileKey h t.profile)

theorem analysisPrompt_ne (key : String) : analysisPrompt key ≠ .riskManager := by
  unfold analysisPrompt
  split <;> exact BasePrompt.noConfusion

theorem ungated_request {ι : Type*} [DecidableEq ι] {env : Env} {cfg : DebateConfig}
    {getenv : String → Option String} {req : Request}
    (hmode : modeRequiresResearch env.host req.mode = false) (s : Service ι) (i : ι) (now : ℚ) :
    serviceStep env cfg getenv s (.request i req now) =
      some { s with threads := stream env s.threads req } := by
  have hcheck : requireResearchEntitlement env.host getenv req.userId req.mode = .proceed := by
    unfold requireResearchEntitlement
    rw [hmode]
    rfl
  simp only [serviceStep, gateStep, nextCache, cacheEvent, nextAsked, admitted, hcheck, Check.uid?,
    Option.map_none, Option.isSome_none, Option.map_some, Option.getD_some, Bool.false_eq_true,
    if_false]

/-- **A gate that is not asked.**  The gate folds the case of a mode, the prompt does not.  A run
whose mode reads VERIFY but is not spelled so goes wherever an analysis can go, with the gate on,
for any user and without one call of the backend; and it is prompted to find a trade. -/
theorem misspelled_ungated (env : Env) (cfg : DebateConfig) (getenv : String → Option String)
    (thread : String) (userId : Option String) (i : Input) (mode : String)
    (hi : Request.mode ⟨thread, userId, i⟩ = some mode)
    (hreads : env.host.casing.upper (strip mode) = "VERIFY") (hspelled : mode ≠ "VERIFY")
    (tr : List (Thread × Process × Event)) (t : Thread)
    (h : Path (threadStep env cfg (some thread)) (freshRun env i) tr t)
    (hturns : ∀ x ∈ tr, isInput x.2.2 = false) :
    (∃ (tr' : List (Service ℕ × ServiceEvent ℕ)) (s : Service ℕ),
      Path (serviceStep env cfg getenv) {} tr' s ∧ s.threads thread = t ∧
        ∀ x ∈ tr', ∀ j f, x.2 ≠ .fetched j f) ∧
      basePrompt env.host t.state ≠ .riskManager := by
  suffices hrun : Routed env.host t ∧ t.state.mode = some mode ∧
      ∃ (tr' : List (Service ℕ × ServiceEvent ℕ)) (s : Service ℕ),
        Path (serviceStep env cfg getenv) {} tr' s ∧ s.threads thread = t ∧
          ∀ x ∈ tr', ∀ j f, x.2 ≠ .fetched j f by
    have hmode : t.state.mode ≠ some "VERIFY" := by
      rw [hrun.2.1]
      exact fun h => hspelled (Option.some_inj.mp h)
    rw [basePrompt, if_neg hmode]
    exact ⟨hrun.2.2, analysisPrompt_ne _⟩
  induction h with
  | nil =>
      have hmode : modeRequiresResearch env.host (Request.mode ⟨thread, userId, i⟩) = false := by
        simp only [modeRequiresResearch, hi, Option.getD_some, hreads]
        rfl
      have hkeep := apply_mode ⟨thread, userId, i⟩ {}
      rw [hi] at hkeep
      have hthread : stream env (fun _ => {}) ⟨thread, userId, i⟩ thread = freshRun env i := by
        rw [stream, Function.update_self, freshRun]
      have hstep : serviceStep env cfg getenv ({} : Service ℕ)
          (.request 0 ⟨thread, userId, i⟩ 0) = _ := ungated_request hmode {} 0 0
      refine ⟨routed_entry env.host _, hkeep, _, _, .snoc .nil hstep, hthread, ?_⟩
      simp
  | @snoc tr t t' a hp hs ih =>
      obtain ⟨p, e⟩ := a
      have he : isInput e = false := hturns (t, p, e) (by simp)
      obtain ⟨hrouted, hmode, tr', s, hpath, hthread, hnone⟩ :=
        ih fun x hx => hturns x (List.mem_append_left _ hx)
      obtain ⟨p', hstep⟩ := threadStep_step hs
      obtain ⟨hrouted', hmode', -⟩ := step_routed hstep he hrouted
      have hturn : serviceStep env cfg getenv s (.turn thread p e) =
          some { s with threads := Function.update s.threads thread t' } := by
        simp only [serviceStep, he, hthread, hs, Option.map_some, Bool.false_eq_true, if_false]
      refine ⟨hrouted', hmode'.trans hmode, _, _, hpath.snoc hturn, Function.update_self .., ?_⟩
      intro x hx j f
      obtain hx | hx := List.mem_append.mp hx
      · exact hnone x hx j f
      · rw [List.mem_singleton.mp hx]
        exact fun heq => by cases heq

def misspelledRun : Input := .run "Find a trade." (some "verify") (some "NIFTY") none none none

theorem misspelled_ungated_verify : ∃ (tr : List (Service ℕ × ServiceEvent ℕ)) (s : Service ℕ),
    Path (serviceStep defaultEnv sampleDebate enforcing) {} tr s ∧
      (∀ x ∈ tr, ∀ j f, x.2 ≠ .fetched j f) ∧ (s.threads "thread_1").next = some .tools ∧
      basePrompt sampleHost (s.threads "thread_1").state ≠ .riskManager := by
  have hrun : (trace (threadStep defaultEnv sampleDebate (some "thread_1"))
      (freshRun defaultEnv misspelledRun)
      [({}, .agent ⟨none, calling [okCall "get_candles" "call_1" []], 100⟩ 101)]).map (fun r =>
        (r.2.next, decide (∀ x ∈ r.1, isInput x.2.2 = false))) = some (some .tools, true) := by
    decide +kernel
  obtain ⟨⟨tr, t⟩, htr, hout⟩ := Option.map_eq_some_iff.mp hrun
  simp only [Prod.mk.injEq, decide_eq_true_eq] at hout
  obtain ⟨⟨tr', s, hpath, hthread, hnone⟩, hprompt⟩ :=
    misspelled_ungated defaultEnv sampleDebate enforcing "thread_1" none misspelledRun "verify" rfl
      (by decide +kernel) (by decide) tr t (Path.of_trace htr) hout.2
  exact ⟨tr', s, hpath, hnone, hthread ▸ hout.1, hthread ▸ hprompt⟩

end AiTrader.Entitlement
