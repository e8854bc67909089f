import AiTrader.Watch.Server

/-! # The watch tool of the agent

`watch_price_condition` registers a watcher with the tool server and then calls `interrupt()`,
which suspends the graph.  On a resume the interrupted node is executed again from its start,
so the whole body runs again, its registration included, and only then does `interrupt()`
return the resume value.

`fired_watch_not_delivered`: with the close that fired the trigger as the latest close, the
second registration is refused, so the body returns the refusal and the trigger's message is
never produced. -/

namespace AiTrader.Watch

open Text

/-! ### Resume kinds and re-check plans -/

inductive ResumeKind where
  | target | invalidation | heartbeat
deriving DecidableEq, Repr

def targetTokens : List String :=
  ["target", "targets", "target_reached", "target-reached", "hit", "reached"]

def invalidationTokens : List String :=
  ["invalidation", "invalidated", "invalid", "stop", "stopped", "stop_out", "stop-out"]

def heartbeatTokens : List String :=
  ["heartbeat", "heart_beat", "heart-beat", "hb", "tick", "pulse"]

/-- `classify_resume`: total, with `target` as the fallback. -/
def classifyResume (C : Casing) : PyVal → ResumeKind
  | .str s =>
      let token := C.lower (strip s)
      if token ∈ targetTokens then .target
      else if token ∈ invalidationTokens then .invalidation
      else if token ∈ heartbeatTokens then .heartbeat
      else .target
  | _ => .target

/-- `_DELTA_RECHECK_PLANS`. -/
def deltaRecheckPlans : ResumeKind → List String
  | .target => ["get_candles", "get_consensus_report", "get_event_risk",
      "get_support_resistance", "get_chart_patterns", "get_forecast"]
  | .invalidation | .heartbeat => ["get_candles", "get_consensus_report", "get_market_regime",
      "get_support_resistance"]

/-- `INDEX_UNDERLYINGS`. -/
def indexUnderlyings : List String := ["NIFTY 50", "NIFTY", "BANKNIFTY"]

/-- `classify_symbol_class` is `"index"`. -/
def isIndexSymbol (C : Casing) (symbol : String) : Bool :=
  C.upper (strip symbol) ∈ indexUnderlyings

/-- `plan.insert(plan.index(before), item)`, or append when `before` is absent. -/
def insertBefore (before item : String) : List String → List String
  | [] => [item]
  | x :: xs => if x = before then item :: x :: xs else x :: insertBefore before item xs

/-- `delta_recheck_plan`: an index symbol also re-consults its options positioning. -/
def deltaRecheckPlan (kind : ResumeKind) (index : Bool) : List String :=
  let plan := deltaRecheckPlans kind
  if kind ≠ .invalidation ∧ index ∧ "get_options_analytics" ∉ plan then
    insertBefore "get_event_risk" "get_options_analytics" plan
  else plan

/-- The text the resumed tool returns for each kind. -/
def resumeMessage (kind : ResumeKind) (recheck candle : String) : String :=
  match kind with
  | .invalidation =>
      "Setup INVALIDATED: price moved to the invalidation level AGAINST the " ++
      "setup before reaching the watched target. The target condition was NOT " ++
      "met — do NOT treat this as the level being reached. Run a brief " ++
      "post-mortem, then re-check ONLY: " ++ recheck ++ ". Then choose the BEST " ++
      "action for the CURRENT market — do NOT blindly re-arm the SAME thesis (an " ++
      "unchanged re-arm is rejected): (a) if a defensible LIVE trade now exists " ++
      "at the current price (a chart-pattern / multi-timeframe / forecast-backed " ++
      "setup that clears the profile R:R floor and the 1.5x ATR stop), DECLARE it " ++
      "now with declare_trade; (b) re-arm a DIFFERENT structure / timeframe / " ++
      "tier / level; or (c) stand aside only if none of these hold. Invalidation " ++
      "candle details: " ++ candle
  | .heartbeat =>
      "Heartbeat check (mid-wait pulse): the watched target was NOT reached — do " ++
      "NOT treat this as the level being met. This pulse is your chance to ADAPT, " ++
      "not merely to keep waiting. Cheaply re-check ONLY: " ++
      recheck ++ ". Then choose the BEST action for the market RIGHT NOW: " ++
      "(a) TAKE A LIVE TRADE — if a defensible setup is now actionable at the " ++
      "current price (chart patterns aligned across timeframes, multi-TF trend, " ++
      "a probabilistic forecast edge) that clears the profile R:R floor and the " ++
      "1.5x ATR stop, DECLARE it now with declare_trade instead of continuing to " ++
      "wait; you do NOT need this specific watched level to fire to take a good " ++
      "trade; (b) FIX A MISPRICED LEVEL — if your watched level was set too far " ++
      "above/below where price is actually trading (so it may never trigger), " ++
      "re-arm a tighter, realistic level or a different timeframe/tier; (c) SWITCH " ++
      "STRATEGY — if the original thesis is decaying, pursue a different setup; " ++
      "(d) keep waiting only if the level is still close and realistic; (e) stand " ++
      "aside only if genuinely nothing is actionable. Prefer taking a good live " ++
      "trade over waiting indefinitely for a level that is not being hit. Current " ++
      "candle details: " ++ candle
  | .target =>
      "Target condition met (price reached the watched level). Confirm the entry " ++
      "is still valid by re-checking ONLY: " ++ recheck ++ ". Triggered candle: " ++ candle

/-! ### The tool body -/

/-- The arguments of the call. -/
structure WatchArgs where
  symbol : String
  timeframe : String
  priceLevel : F64
  direction : String
  volumeMultiplier : F64
  invalidationLevel : Option F64

/-- One registration attempt as the network and the server decide it. -/
inductive Attempt where
  | unreachable (error : String)
  | served (latest : LatestClose)

/-- What one execution of the body meets: the run it belongs to, the heartbeat configuration
(`none` when it cannot be resolved) and its registration attempts, at least one. -/
structure ToolEnv where
  threadId : String
  userId : Option String
  heartbeat : Option (Bool × F64 × ℕ)
  first : Attempt
  retries : List Attempt

/-- The registration payload. -/
def watchPayload (env : ToolEnv) (a : WatchArgs) : WatchConditionRequest :=
  let hb := env.heartbeat.getD (false, .fin 0, 0)
  { threadId := env.threadId, symbol := some a.symbol, timeframe := some a.timeframe,
    priceLevel := a.priceLevel, direction := a.direction,
    volumeMultiplier := a.volumeMultiplier, invalidationLevel := a.invalidationLevel,
    heartbeatEnabled := hb.1, heartbeatCadenceSecs := hb.2.1, heartbeatMax := hb.2.2,
    userId := env.userId }

/-- How the registration loop ends. -/
inductive Registration where
  | registered (w : Watcher)
  | rejected (msg : String)
  | failed (error : String)

/-- What a tool returns: a text or a structured marker. -/
inductive ToolResult where
  | text (s : String)
  | structured (fields : Kwargs)

/-- How one execution of a tool body ends. -/
inductive BodyOutcome where
  | interrupted (w : Watcher)
  | returned (r : ToolResult)

section body
variable (C : Casing) (fmt : F64 → String) (render : PyVal → String)

/-- The reason the tool reports for a `400`; an empty one falls back to the raw body. -/
def rejectionText (error : String) : String :=
  if error = "" then "\x7b\"error\":\"\"\x7d" else error

/-- The retry loop: a refused level is final, an unreachable server is tried again. -/
def registerLoop (q : WatchConditionRequest) : Attempt → List Attempt → Registration
  | .unreachable e, [] => .failed e
  | .unreachable _, a :: rest => registerLoop q a rest
  | .served latest, _ =>
      match watchCondition C fmt q latest with
      | .ok w => .registered w
      | .error e => .rejected (rejectionText e)

/-- The structured refusal of a level. -/
def rejectedResult (msg : String) : ToolResult :=
  .structured [("status", .str "watch_level_rejected"), ("error", .str msg), ("message", .str
    ("Your watch condition was REJECTED: " ++ msg ++ " " ++
      "Do NOT HOLD or output a trade because of this. Re-call " ++
      "watch_price_condition with a corrected price_level (strictly " ++
      "BEYOND the current price in your chosen direction) and, if you " ++
      "supply one, an invalidation_level on the OPPOSITE side of the " ++
      "current price."))]

/-- The structured failure after the last attempt. -/
def failedResult (attempts : ℕ) (error : String) : ToolResult :=
  .structured [("status", .str "watch_registration_failed"), ("action", .str "HOLD"),
    ("trade", .none),
    ("error", .str ("Failed to register price watcher after " ++ toString attempts ++
      " attempts: " ++ error ++ ".")),
    ("message", .str ("The desktop application (Tauri) must be running for the live price " ++
      "watcher to work. Falling back to HOLD. Do NOT output a trade — the " ++
      "condition has not been met."))]

/-- Reading the resume value: a bare value counts as the target being reached. -/
def readResume (resumed : PyVal) : PyVal × PyVal :=
  match resumed with
  | .dict kvs =>
      if (List.lookup "trigger_kind" kvs).isSome then
        let kind := Kwargs.get kvs "trigger_kind"
        (Kwargs.get kvs "candle", if kind.truthy then kind else .str "target")
      else (resumed, .str "target")
  | _ => (resumed, .str "target")

/-- What the tool says after `interrupt()` returned. -/
def resumedText (a : WatchArgs) (resumed : PyVal) : String :=
  let (candle, triggerKind) := readResume resumed
  let kind := classifyResume C triggerKind
  let recheck := ", ".intercalate (deltaRecheckPlan kind (isIndexSymbol C a.symbol))
  resumeMessage kind recheck (render candle)

/-- `watch_price_condition`, executed once.  `resumed` is the value `interrupt()` returns;
`none` on the execution that suspends the graph. -/
def watchPriceCondition (env : ToolEnv) (a : WatchArgs) (resumed : Option PyVal) : BodyOutcome :=
  match registerLoop C fmt (watchPayload env a) env.first env.retries with
  | .rejected msg => .returned (rejectedResult msg)
  | .failed e => .returned (failedResult (env.retries.length + 1) e)
  | .registered w =>
      match resumed with
      | none => .interrupted w
      | some v => .returned (.text (resumedText C render a v))

/-! ### Delivery of a trigger -/

/-- The candle as `/resume` forwards it. -/
def candleValue (time : ℤ) (c : Candle) : PyVal :=
  .dict [("time", .int time), ("open", .float c.opening), ("high", .float c.high),
    ("low", .float c.low), ("close", .float c.close), ("volume", .float c.volume)]

/-- The resume value `/resume` builds from a posted trigger. -/
def resumeValue (time : ℤ) (c : Candle) (t : WatcherTrigger) : PyVal :=
  .dict [("candle", candleValue time c), ("trigger_kind", .str t.kind)]

/-- The kind of message a trigger stands for. -/
def WatcherTrigger.resumeKind : WatcherTrigger → ResumeKind
  | target => .target
  | invalidation => .invalidation

/-- The resumed call returns the message of the trigger. -/
def Delivers (env : ToolEnv) (a : WatchArgs) (time : ℤ) (c : Candle) (t : WatcherTrigger) :
    Prop :=
  ∃ recheck candle, watchPriceCondition C fmt render env a (some (resumeValue time c t)) =
    .returned (.text (resumeMessage t.resumeKind recheck candle))

/-- Every attempt that reaches the server finds the close `x`. -/
def SeesClose (env : ToolEnv) (x : F64) : Prop :=
  ∀ at' ∈ env.first :: env.retries, ∀ latest, at' = .served latest → latest = .close x

end body

variable {C : Casing} {fmt : F64 → String} {render : PyVal → String} {mul : F64 → F64 → F64}

theorem registerLoop_registered {q : WatchConditionRequest} {a : Attempt} {rest : List Attempt}
    {w : Watcher} (h : registerLoop C fmt q a rest = .registered w) :
    ∃ latest, watchCondition C fmt q latest = .ok w := by
  induction rest generalizing a with
  | nil =>
      cases a with
      | unreachable e => cases h
      | served latest =>
          refine ⟨latest, ?_⟩
          simp only [registerLoop] at h
          split at h
          · rename_i hw
            rw [hw, Registration.registered.inj h]
          · cases h
  | cons b rest ih =>
      cases a with
      | unreachable e => exact ih h
      | served latest =>
          refine ⟨latest, ?_⟩
          simp only [registerLoop] at h
          split at h
          · rename_i hw
            rw [hw, Registration.registered.inj h]
          · cases h

theorem registerLoop_of_refused {q : WatchConditionRequest} {a : Attempt} {rest : List Attempt}
    (h : ∀ at' ∈ a :: rest, ∀ latest, at' = .served latest →
      ∃ e, watchCondition C fmt q latest = .error e) (w : Watcher) :
    registerLoop C fmt q a rest ≠ .registered w := by
  induction rest generalizing a with
  | nil =>
      cases a with
      | unreachable e => simp [registerLoop]
      | served latest =>
          obtain ⟨e, he⟩ := h _ (List.mem_cons_self ..) latest rfl
          simp [registerLoop, he]
  | cons b rest ih =>
      cases a with
      | unreachable e =>
          exact ih (fun x hx => h x (List.mem_cons_of_mem _ hx))
      | served latest =>
          obtain ⟨e, he⟩ := h _ (List.mem_cons_self ..) latest rfl
          simp [registerLoop, he]

theorem classifyResume_trigger (t : WatcherTrigger) :
    classifyResume C (.str t.kind) = t.resumeKind := by
  cases t with
  | target =>
      have h : C.lower (strip "target") = "target" := by
        rw [show strip "target" = "target" by decide, C.lower_of_ascii (by decide)]
        decide
      simp [classifyResume, WatcherTrigger.kind, h, targetTokens, WatcherTrigger.resumeKind]
  | invalidation =>
      have h : C.lower (strip "invalidation") = "invalidation" := by
        rw [show strip "invalidation" = "invalidation" by decide, C.lower_of_ascii (by decide)]
        decide
      simp [classifyResume, WatcherTrigger.kind, h, targetTokens, invalidationTokens,
        WatcherTrigger.resumeKind]

theorem readResume_trigger (time : ℤ) (c : Candle) (t : WatcherTrigger) :
    readResume (resumeValue time c t) = (candleValue time c, .str t.kind) := by
  have hkind : (PyVal.str t.kind).truthy = true := by cases t <;> decide
  simp [readResume, resumeValue, Kwargs.get, List.lookup_cons, hkind]

theorem resumedText_trigger (a : WatchArgs) (time : ℤ) (c : Candle) (t : WatcherTrigger) :
    resumedText C render a (resumeValue time c t) =
      resumeMessage t.resumeKind
        (", ".intercalate (deltaRecheckPlan t.resumeKind (isIndexSymbol C a.symbol)))
        (render (candleValue time c)) := by
  simp only [resumedText, readResume_trigger, classifyResume_trigger]

theorem delivers_iff_registered {env : ToolEnv} {a : WatchArgs} {time : ℤ} {c : Candle}
    {t : WatcherTrigger} :
    Delivers C fmt render env a time c t ↔
      ∃ w, registerLoop C fmt (watchPayload env a) env.first env.retries = .registered w := by
  unfold Delivers watchPriceCondition
  cases hr : registerLoop C fmt (watchPayload env a) env.first env.retries with
  | registered w =>
      constructor
      · intro _
        exact ⟨w, rfl⟩
      · intro _
        exact ⟨_, _, by simp only [resumedText_trigger]; rfl⟩
  | rejected msg => simp [rejectedResult]
  | failed e => simp [failedResult]

/-- **A fired watch is not delivered.** For every accepted watch, every candle that fires it and
every re-execution that finds that candle's close as the latest one, the resumed call does not
return the message of the trigger. -/
theorem fired_watch_not_delivered (C : Casing) (fmt : F64 → String) (render : PyVal → String)
    (mul : F64 → F64 → F64) (env env' : ToolEnv) (a : WatchArgs) (w : Watcher) (avg : F64)
    (time : ℤ) (c : Candle) (t : WatcherTrigger)
    (harmed : watchPriceCondition C fmt render env a none = .interrupted w)
    (hfired : w.triggered mul avg c = some t)
    (hsees : SeesClose env' c.close) :
    ¬ Delivers C fmt render env' a time c t := by
  have hreg : registerLoop C fmt (watchPayload env a) env.first env.retries = .registered w := by
    unfold watchPriceCondition at harmed
    split at harmed
    · cases harmed
    · cases harmed
    · rename_i hr
      rw [hr, BodyOutcome.interrupted.inj harmed]
  obtain ⟨latest, hok⟩ := registerLoop_registered hreg
  obtain ⟨x, _, hacc⟩ := watchCondition_ok hok
  -- the re-execution asks for the same watcher, up to the identity of the run
  have hacc' : Accepted C fmt (watchPayload env' a) x { w with
      threadId := env'.threadId
      heartbeatEnabled := (watchPayload env' a).heartbeatEnabled
      heartbeatMax := (watchPayload env' a).heartbeatMax } :=
    ⟨rfl, hacc.direction, hacc.priceLevel, hacc.invalidationLevel, hacc.volumeMultiplier,
      hacc.referencePrice, rfl, rfl, hacc.level, hacc.invalidation⟩
  obtain ⟨e, he⟩ : ∃ e, watchCondition C fmt (watchPayload env' a) (.close c.close) = .error e :=
    watchCondition_of_triggered hacc' hfired
  rw [delivers_iff_registered]
  rintro ⟨w', hw'⟩
  refine registerLoop_of_refused ?_ w' hw'
  intro at' hat latest' hserved
  exact ⟨e, by rw [hsees at' hat latest' hserved]; exact he⟩

/-! A watch for a rise to `110`, registered at `100` and fired by a close at `112`. -/

def sampleArgs : WatchArgs :=
  { symbol := "RELIANCE", timeframe := "10m", priceLevel := .fin 110, direction := "above",
    volumeMultiplier := .fin 1, invalidationLevel := some (.fin 95) }

/-- One execution that reaches the server at the first attempt and finds the close `x`. -/
def sampleEnv (x : F64) : ToolEnv :=
  { threadId := "thread_1", userId := none, heartbeat := none,
    first := .served (.close x), retries := [] }

def samplePrice : F64 → String
  | .fin q => toString q
  | _ => "NaN"

def sampleWatcher : Watcher :=
  { threadId := "thread_1", symbol := "RELIANCE", timeframe := "10m", priceLevel := .fin 110,
    direction := "above", volumeMultiplier := .fin 1, referencePrice := .fin 100,
    invalidationLevel := some (.fin 95), heartbeatEnabled := false,
    heartbeatCadenceSecs := .fin 0, heartbeatMax := 0, userId := none }

def sampleCandle : Candle :=
  { opening := .fin 109, high := .fin 113, low := .fin 108, close := .fin 112,
    volume := .fin 5000 }

theorem sample_registered :
    registerLoop Casing.ascii samplePrice (watchPayload (sampleEnv (.fin 100)) sampleArgs)
      (sampleEnv (.fin 100)).first [] = .registered sampleWatcher := by
  have h : watchCondition Casing.ascii samplePrice
      (watchPayload (sampleEnv (.fin 100)) sampleArgs) (.close (.fin 100)) =
        .ok sampleWatcher := by
    decide +kernel
  simp only [sampleEnv, registerLoop] at h ⊢
  rw [h]

theorem sample_armed (render : PyVal → String) :
    watchPriceCondition Casing.ascii samplePrice render (sampleEnv (.fin 100)) sampleArgs none =
      .interrupted sampleWatcher := by
  have h := sample_registered
  unfold watchPriceCondition
  simp only [sampleEnv] at h ⊢
  rw [h]

theorem sample_fired :
    sampleWatcher.triggered F64.mulExact (.fin 1000) sampleCandle = some .target := by
  decide +kernel

theorem sample_seesClose : SeesClose (sampleEnv (.fin 112)) sampleCandle.close := by
  intro at' hat latest hserved
  simp only [sampleEnv, List.mem_singleton] at hat
  subst hat
  exact (Attempt.served.inj hserved).symm

/-- The sample watch, its firing candle and the re-execution at that close. -/
theorem fired_watch_not_delivered_at_112 :
    ¬ Delivers Casing.ascii samplePrice (fun _ => "") (sampleEnv (.fin 112)) sampleArgs 0
        sampleCandle .target :=
  fired_watch_not_delivered Casing.ascii samplePrice (fun _ => "") F64.mulExact
    (sampleEnv (.fin 100)) (sampleEnv (.fin 112)) sampleArgs sampleWatcher (.fin 1000) 0
    sampleCandle .target (sample_armed _) sample_fired sample_seesClose

/-- At the close that fired it, the server refuses the watch it had accepted. -/
theorem refused_at_firing_close :
    watchPriceCondition Casing.ascii samplePrice (fun _ => "") (sampleEnv (.fin 100)) sampleArgs
        none = .interrupted sampleWatcher ∧
      sampleWatcher.triggered F64.mulExact (.fin 1000) sampleCandle = some .target ∧
      SeesClose (sampleEnv (.fin 112)) sampleCandle.close ∧
      ¬ Delivers Casing.ascii samplePrice (fun _ => "") (sampleEnv (.fin 112)) sampleArgs 0
        sampleCandle .target := by
  refine ⟨sample_armed _, sample_fired, sample_seesClose, ?_⟩
  rw [delivers_iff_registered]
  rintro ⟨w, hw⟩
  have hrefused : watchCondition Casing.ascii samplePrice
      (watchPayload (sampleEnv (.fin 112)) sampleArgs) (.close (.fin 112)) =
        .error "price_level 110 is not above current price 112" := by
    decide +kernel
  refine registerLoop_of_refused ?_ w hw
  intro at' hat latest hserved
  exact ⟨_, by rw [sample_seesClose at' hat latest hserved]; exact hrefused⟩

end AiTrader.Watch
