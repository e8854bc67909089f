import AiTrader.MarketData.Engine
import Mathlib.Algebra.Order.Group.Nat

/-! # What the feed promises

The cumulative volumes of one symbol's ticks, in order of arrival.

* `CumulativeFeed`: some packets carry no volume.
* `CumulativeVolumes`: all do.
* `volumeSeen`, `lastVolume`, `newestWindow`: what the ticks so far have shown. -/

namespace AiTrader.MarketData

open AlphaTerminal (cumulativeVolume)

/-- The ticks of one symbol as the feed has them: volume 0, or the day's cumulative volume. -/
structure CumulativeFeed (ticks : List Tick) : Prop where
  nonneg : ∀ tick ∈ ticks, 0 ≤ tick.volume.toInt
  monotone : ticks.Pairwise fun a b => b.volume.toInt = 0 ∨ a.volume.toInt ≤ b.volume.toInt

/-- The ticks of one symbol when each carries the day's cumulative volume. -/
structure CumulativeVolumes (ticks : List Tick) : Prop where
  nonneg : ∀ tick ∈ ticks, 0 ≤ tick.volume.toInt
  monotone : ticks.Pairwise fun a b => a.volume.toInt ≤ b.volume.toInt

/-- The largest cumulative volume seen. -/
def volumeSeen (ticks : List Tick) : ℕ := ticks.foldl (fun m tick => max m (cumulativeVolume tick)) 0

/-- The volume of the last tick. -/
def lastVolume (ticks : List Tick) : ℕ := (ticks.getLast?.map cumulativeVolume).getD 0

/-- The newest window that a tick fell in. -/
def newestWindow (W : ℕ+) (ticks : List Tick) : ℕ :=
  ticks.foldl (fun m tick => max m (tick.windowStart W)) 0

section
variable {ticks : List Tick} {tick : Tick} {W : ℕ+}

@[simp] theorem volumeSeen_concat :
    volumeSeen (ticks ++ [tick]) = max (volumeSeen ticks) (cumulativeVolume tick) := by
  simp [volumeSeen]

@[simp] theorem lastVolume_concat : lastVolume (ticks ++ [tick]) = cumulativeVolume tick := by
  simp [lastVolume]

@[simp] theorem newestWindow_concat :
    newestWindow W (ticks ++ [tick]) = max (newestWindow W ticks) (tick.windowStart W) := by
  simp [newestWindow]

theorem le_volumeSeen (h : tick ∈ ticks) : cumulativeVolume tick ≤ volumeSeen ticks := by
  induction ticks using List.reverseRecOn with
  | nil => cases h
  | append_singleton ticks t ih =>
      rw [volumeSeen_concat]
      rcases List.mem_append.mp h with h | h
      · exact (ih h).trans (le_max_left _ _)
      · rw [List.mem_singleton.mp h]
        exact le_max_right _ _

theorem volumeSeen_le {n : ℕ} (h : ∀ tick ∈ ticks, cumulativeVolume tick ≤ n) :
    volumeSeen ticks ≤ n := by
  induction ticks using List.reverseRecOn with
  | nil => exact Nat.zero_le n
  | append_singleton ticks t ih =>
      rw [volumeSeen_concat]
      exact max_le (ih fun x hx => h x (List.mem_append_left _ hx)) (h t List.mem_concat_self)

theorem lastVolume_le : lastVolume ticks ≤ volumeSeen ticks := by
  rcases List.eq_nil_or_concat ticks with rfl | ⟨ticks, t, rfl⟩
  · exact Nat.le_refl 0
  · rw [List.concat_eq_append, lastVolume_concat]
    exact le_volumeSeen List.mem_concat_self

/-! ### What the feed promises -/

theorem asU64_volume (h : 0 ≤ tick.volume.toInt) :
    asU64 tick.volume.toInt = cumulativeVolume tick := by
  have hlt := tick.volume.toInt_lt
  rw [asU64_of_nonneg h (by omega), cumulativeVolume, max_eq_left h]

theorem cumulativeVolume_lt (tick : Tick) : cumulativeVolume tick < 2 ^ 31 := by
  have hlt := tick.volume.toInt_lt
  rw [cumulativeVolume]
  omega

theorem volumeSeen_lt (ticks : List Tick) : volumeSeen ticks < 2 ^ 31 := by
  have hle : volumeSeen ticks ≤ 2 ^ 31 - 1 :=
    volumeSeen_le fun tick _ => Nat.le_sub_one_of_lt (cumulativeVolume_lt tick)
  omega

theorem CumulativeFeed.restrict {ticks' : List Tick} (h : CumulativeFeed ticks')
    (hp : ticks <+: ticks') : CumulativeFeed ticks :=
  ⟨fun tick ht => h.nonneg tick (hp.subset ht), h.monotone.sublist hp.sublist⟩

theorem CumulativeFeed.last (h : CumulativeFeed (ticks ++ [tick])) :
    cumulativeVolume tick = 0 ∨ volumeSeen ticks ≤ cumulativeVolume tick := by
  by_cases hzero : tick.volume.toInt = 0
  · left
    rw [cumulativeVolume, hzero]
    rfl
  · right
    refine volumeSeen_le fun t ht => ?_
    have hmono := (List.pairwise_append.mp h.monotone).2.2 t ht tick (List.mem_singleton_self _)
    rw [cumulativeVolume, cumulativeVolume]
    omega

theorem CumulativeFeed.lastVolume (h : CumulativeFeed ticks) :
    lastVolume ticks = 0 ∨ lastVolume ticks = volumeSeen ticks := by
  rcases List.eq_nil_or_concat ticks with rfl | ⟨ticks, t, rfl⟩
  · exact .inl rfl
  · rw [List.concat_eq_append] at h ⊢
    rw [lastVolume_concat, volumeSeen_concat]
    have hlast := h.last
    omega

theorem CumulativeVolumes.restrict {ticks' : List Tick} (h : CumulativeVolumes ticks')
    (hp : ticks <+: ticks') : CumulativeVolumes ticks :=
  ⟨fun tick ht => h.nonneg tick (hp.subset ht), h.monotone.sublist hp.sublist⟩

theorem CumulativeVolumes.last (h : CumulativeVolumes (ticks ++ [tick])) :
    volumeSeen ticks ≤ cumulativeVolume tick := by
  refine volumeSeen_le fun t ht => ?_
  have hmono := (List.pairwise_append.mp h.monotone).2.2 t ht tick (List.mem_singleton_self _)
  rw [cumulativeVolume, cumulativeVolume]
  omega

/-- Without volume in the last tick there was none before. -/
theorem CumulativeVolumes.lastVolume_eq_zero (h : CumulativeVolumes ticks) :
    lastVolume ticks = 0 ↔ ∀ tick ∈ ticks, tick.volume.toInt = 0 := by
  rcases List.eq_nil_or_concat ticks with rfl | ⟨ticks, t, rfl⟩
  · simp [lastVolume]
  · rw [List.concat_eq_append] at h ⊢
    rw [lastVolume_concat]
    constructor
    · intro hzero tick ht
      have hseen : cumulativeVolume tick ≤ cumulativeVolume t := by
        rcases List.mem_append.mp ht with ht | ht
        · exact (le_volumeSeen ht).trans h.last
        · rw [List.mem_singleton.mp ht]
      have hnonneg := h.nonneg tick ht
      rw [cumulativeVolume] at hseen
      omega
    · intro hall
      rw [cumulativeVolume, hall t List.mem_concat_self]
      rfl

end

end AiTrader.MarketData
