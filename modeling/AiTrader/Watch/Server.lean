import AiTrader.Text
import AiTrader.Value

/-! # The watch endpoint of the tool server

`watch_condition` checks a requested level against the latest close and registers a watcher;
`watcher_triggered` is the rule by which the watcher's task later reads a candle.

The number format of an error text and the product in the volume rule are parameters: nothing
proved here depends on how a price is printed or rounded. -/

namespace AiTrader.Watch

open Text

/-- The body of `POST /tools/watch_condition`. -/
structure WatchConditionRequest where
  threadId : String
  symbol : Option String
  timeframe : Option String
  priceLevel : F64
  direction : String
  volumeMultiplier : F64
  invalidationLevel : Option F64
  heartbeatEnabled : Bool
  heartbeatCadenceSecs : F64
  heartbeatMax : ℕ
  userId : Option String
deriving DecidableEq

/-- A registered watcher. -/
structure Watcher where
  threadId : String
  symbol : String
  timeframe : String
  priceLevel : F64
  direction : String
  volumeMultiplier : F64
  referencePrice : F64
  invalidationLevel : Option F64
  heartbeatEnabled : Bool
  heartbeatCadenceSecs : F64
  heartbeatMax : ℕ
  userId : Option String
deriving DecidableEq

/-- The fields of a candle that the watcher reads and forwards. -/
structure Candle where
  opening : F64
  high : F64
  low : F64
  close : F64
  volume : F64
deriving DecidableEq

inductive WatcherTrigger where
  | target
  | invalidation
deriving DecidableEq, Repr

/-- The serialised trigger kind. -/
def WatcherTrigger.kind : WatcherTrigger → String
  | target => "target"
  | invalidation => "invalidation"

/-- `"above" | "up"`. -/
def isAbove (direction : String) : Bool := direction == "above" || direction == "up"

/-- `"below" | "down"`. -/
def isBelow (direction : String) : Bool := direction == "below" || direction == "down"

/-- `watcher_triggered`: price and volume reach the target; price alone invalidates. -/
def watcherTriggered (mul : F64 → F64 → F64) (direction : String) (priceLevel : F64)
    (invalidationLevel : Option F64) (volumeMultiplier averageVolume candleClose
    candleVolume : F64) : Option WatcherTrigger :=
  let volumeMatched := F64.le (mul averageVolume volumeMultiplier) candleVolume
  if isAbove direction then
    if F64.le priceLevel candleClose && volumeMatched then some .target
    else if invalidationLevel.any (fun inv => F64.le candleClose inv) then some .invalidation
    else none
  else if isBelow direction then
    if F64.le candleClose priceLevel && volumeMatched then some .target
    else if invalidationLevel.any (fun inv => F64.le inv candleClose) then some .invalidation
    else none
  else none

/-- The rule of one watcher. -/
def Watcher.triggered (mul : F64 → F64 → F64) (w : Watcher) (averageVolume : F64) (c : Candle) :
    Option WatcherTrigger :=
  watcherTriggered mul w.direction w.priceLevel w.invalidationLevel w.volumeMultiplier
    averageVolume c.close c.volume

/-- What `load_candles` gives for the latest candle: its close, nothing, or a failure. -/
inductive LatestClose where
  | close (x : F64)
  | empty
  | failed (reason : String)

section endpoint
variable (C : Casing) (fmt : F64 → String)

/-- The level check: strictly beyond the reference price in the watched direction. -/
def checkLevel (direction : String) (priceLevel reference : F64) : Except String Unit :=
  if isAbove direction then
    if F64.lt reference priceLevel then .ok ()
    else .error ("price_level " ++ fmt priceLevel ++ " is not above current price " ++
      fmt reference)
  else if isBelow direction then
    if F64.lt priceLevel reference then .ok ()
    else .error ("price_level " ++ fmt priceLevel ++ " is not below current price " ++
      fmt reference)
  else .error ("Unknown direction '" ++ direction ++ "'")

/-- The invalidation check: strictly on the opposite side of the reference price. -/
def checkInvalidation (direction : String) (invalidationLevel : Option F64) (reference : F64) :
    Except String Unit :=
  match invalidationLevel with
  | none => .ok ()
  | some inv =>
      if isAbove direction && !F64.lt inv reference then
        .error ("invalidation_level " ++ fmt inv ++ " must be below current price " ++
          fmt reference)
      else if isBelow direction && !F64.lt reference inv then
        .error ("invalidation_level " ++ fmt inv ++ " must be above current price " ++
          fmt reference)
      else .ok ()

/-- The symbol a request names: trimmed and upper-cased, and not blank. -/
def watchSymbol (q : WatchConditionRequest) : Except String String :=
  match q.symbol with
  | none => .error "Symbol is required"
  | some s =>
      let sym := C.upper (trim s)
      if sym = "" then .error "Symbol is required" else .ok sym

/-- The direction as the server compares it. -/
def directionNorm (q : WatchConditionRequest) : String := C.lower (trim q.direction)

/-- The checks of `watch_condition`: the watcher to register, or the text of the `400`. -/
def watchCondition (q : WatchConditionRequest) (latest : LatestClose) : Except String Watcher := do
  let symbol ← watchSymbol C q
  let timeframe := q.timeframe.getD "10m"
  let reference ← match latest with
    | .close x => Except.ok x
    | .empty => .error ("No current price available for " ++ symbol ++ " on " ++ timeframe)
    | .failed reason => .error reason
  checkLevel fmt (directionNorm C q) q.priceLevel reference
  checkInvalidation fmt (directionNorm C q) q.invalidationLevel reference
  return {
    threadId := q.threadId, symbol := symbol, timeframe := timeframe,
    priceLevel := q.priceLevel, direction := directionNorm C q,
    volumeMultiplier := q.volumeMultiplier, referencePrice := reference,
    invalidationLevel := q.invalidationLevel, heartbeatEnabled := q.heartbeatEnabled,
    heartbeatCadenceSecs := q.heartbeatCadenceSecs, heartbeatMax := q.heartbeatMax,
    userId := q.userId }

end endpoint

/-! ### What an accepted request satisfies -/

variable {C : Casing} {fmt : F64 → String} {q : WatchConditionRequest} {latest : LatestClose}
  {w : Watcher}

/-- Everything an accepted request says about its watcher. -/
structure Accepted (C : Casing) (fmt : F64 → String) (q : WatchConditionRequest)
    (reference : F64) (w : Watcher) : Prop where
  threadId : w.threadId = q.threadId
  direction : w.direction = directionNorm C q
  priceLevel : w.priceLevel = q.priceLevel
  invalidationLevel : w.invalidationLevel = q.invalidationLevel
  volumeMultiplier : w.volumeMultiplier = q.volumeMultiplier
  referencePrice : w.referencePrice = reference
  heartbeatEnabled : w.heartbeatEnabled = q.heartbeatEnabled
  heartbeatMax : w.heartbeatMax = q.heartbeatMax
  level : checkLevel fmt (directionNorm C q) q.priceLevel reference = .ok ()
  invalidation : checkInvalidation fmt (directionNorm C q) q.invalidationLevel reference = .ok ()

theorem watchCondition_ok (h : watchCondition C fmt q latest = .ok w) :
    ∃ x, latest = .close x ∧ Accepted C fmt q x w := by
  unfold watchCondition at h
  cases hs : watchSymbol C q with
  | error e => rw [hs] at h; cases h
  | ok sym =>
      cases latest with
      | empty => rw [hs] at h; cases h
      | failed reason => rw [hs] at h; cases h
      | close x =>
          cases hl : checkLevel fmt (directionNorm C q) q.priceLevel x with
          | error e => simp [hs, hl, bind, Except.bind] at h
          | ok _ =>
              cases hi : checkInvalidation fmt (directionNorm C q) q.invalidationLevel x with
              | error e => simp [hs, hl, hi, bind, Except.bind] at h
              | ok _ =>
                  simp only [hs, hl, hi, bind, Except.bind, pure, Except.pure,
                    Except.ok.injEq] at h
                  subst h
                  exact ⟨x, rfl, rfl, rfl, rfl, rfl, rfl, rfl, rfl, rfl, hl, hi⟩

theorem checkLevel_of_reached {direction : String} {level close : F64}
    (ha : isAbove direction = true → F64.le level close = true)
    (hb : isAbove direction = false → F64.le close level = true) :
    checkLevel fmt direction level close ≠ .ok () := by
  unfold checkLevel
  cases hd : isAbove direction with
  | true => simp [F64.not_lt_of_le (ha hd)]
  | false =>
      simp only [Bool.false_eq_true, if_false]
      split
      · simp [F64.not_lt_of_le (hb hd)]
      · simp

theorem checkInvalidation_of_reached {direction : String} {inv close : F64}
    (hd : isAbove direction = true ∨ isBelow direction = true)
    (ha : isAbove direction = true → F64.le close inv = true)
    (hb : isAbove direction = false → F64.le inv close = true) :
    checkInvalidation fmt direction (some inv) close ≠ .ok () := by
  simp only [checkInvalidation]
  cases h : isAbove direction with
  | true => simp [F64.not_lt_of_le (ha h)]
  | false =>
      have hbelow : isBelow direction = true := by simpa [h] using hd
      simp [hbelow, F64.not_lt_of_le (hb h)]

/-- What a trigger says about the close it was derived from. -/
theorem watcherTriggered_cases {mul : F64 → F64 → F64} {direction : String}
    {level vm avg close vol : F64} {inv? : Option F64} {t : WatcherTrigger}
    (h : watcherTriggered mul direction level inv? vm avg close vol = some t) :
    (isAbove direction = true ∨ isBelow direction = true) ∧
      (((isAbove direction = true → F64.le level close = true) ∧
          (isAbove direction = false → F64.le close level = true)) ∨
        ∃ inv, inv? = some inv ∧ (isAbove direction = true → F64.le close inv = true) ∧
          (isAbove direction = false → F64.le inv close = true)) := by
  have hany : ∀ p : F64 → Bool, inv?.any p = true → ∃ inv, inv? = some inv ∧ p inv = true := by
    intro p hp
    cases inv? with
    | none => cases hp
    | some inv => exact ⟨inv, rfl, hp⟩
  unfold watcherTriggered at h
  cases ha : isAbove direction with
  | true =>
      refine ⟨.inl rfl, ?_⟩
      simp only [ha, if_true] at h
      split at h
      · rename_i hhit
        rw [Bool.and_eq_true] at hhit
        exact .inl ⟨fun _ => hhit.1, by simp⟩
      · split at h
        · rename_i hinv
          obtain ⟨inv, hi, hle⟩ := hany _ hinv
          exact .inr ⟨inv, hi, fun _ => hle, by simp⟩
        · cases h
  | false =>
      simp only [ha, Bool.false_eq_true, if_false] at h
      split at h
      · rename_i hb
        refine ⟨.inr hb, ?_⟩
        split at h
        · rename_i hhit
          rw [Bool.and_eq_true] at hhit
          exact .inl ⟨by simp, fun _ => hhit.1⟩
        · split at h
          · rename_i hinv
            obtain ⟨inv, hi, hle⟩ := hany _ hinv
            exact .inr ⟨inv, hi, by simp, fun _ => hle⟩
          · cases h
      · cases h

/-- **A fired level is no longer watchable.** The close that triggers a watcher fails the
checks a request for the same watcher must pass. -/
theorem watchCondition_of_triggered {mul : F64 → F64 → F64} {avg : F64} {c : Candle}
    {t : WatcherTrigger} {reference : F64} (hw : Accepted C fmt q reference w)
    (ht : w.triggered mul avg c = some t) :
    ∃ e, watchCondition C fmt q (.close c.close) = .error e := by
  rw [Watcher.triggered, hw.direction, hw.priceLevel, hw.invalidationLevel] at ht
  obtain ⟨hd, hreached⟩ := watcherTriggered_cases ht
  cases hc : watchCondition C fmt q (.close c.close) with
  | error e => exact ⟨e, rfl⟩
  | ok w' =>
      obtain ⟨x, hx, hacc⟩ := watchCondition_ok hc
      cases hx
      rcases hreached with ⟨ha, hb⟩ | ⟨inv, hi, ha, hb⟩
      · exact absurd hacc.level (checkLevel_of_reached ha hb)
      · exact absurd (hi ▸ hacc.invalidation) (checkInvalidation_of_reached hd ha hb)

end AiTrader.Watch
