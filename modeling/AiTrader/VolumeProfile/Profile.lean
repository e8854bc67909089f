import AiTrader.Library.Rounding
import AiTrader.VolumeProfile.ValueArea
import Mathlib.Algebra.Order.Floor.Ring
import Mathlib.Data.List.Sort
import Mathlib.Data.Rat.Floor

/-! # The volume profile

`_compute_volume_profile` (`src/agents/deep-quant-loop/tools.py`) in exact arithmetic: every
candle's volume is spread over the rows between its low and its high, the point of control is the
greatest row, and the value area grows from there.  `Profile` holds what is computed before the
prices are rounded. -/

namespace AiTrader.VolumeProfile

open F64 (finiteValue finiteOrZero)

/-- A candle as it comes in; a field that is missing or no number is `none`. -/
structure Candle where
  high : Option F64
  low : Option F64
  volume : Option F64
  close : Option F64 := none
  deriving DecidableEq

/-- A candle with a low and a high, as `cleaned` has it. -/
structure Cleaned where
  lo : ℚ
  hi : ℚ
  vol : ℚ
  close : Option ℚ
  deriving DecidableEq

/-- `_normalize_rows`; a value that `float` does not take is `none`. -/
def normalizeRows (rows : Option F64) : ℕ :=
  match finiteValue rows with
  | none => 24
  | some v => (max 1 (min 1000 (roundHalfEven v))).toNat

def cleanCandle (c : Candle) : Option Cleaned :=
  match finiteValue c.high, finiteValue c.low with
  | some hi, some lo => some ⟨lo, hi, finiteOrZero c.volume, finiteValue c.close⟩
  | _, _ => none

def clean (candles : List Candle) : List Cleaned := candles.filterMap cleanCandle

/-- The last close there is. -/
def currentPrice (cleaned : List Cleaned) : Option ℚ := cleaned.reverse.findSome? Cleaned.close

/-! ### Spreading the volume -/

/-- `bin_index`. -/
def binIndex (minPrice binSize : ℚ) (rows : ℕ) (price : ℚ) : ℕ :=
  if binSize ≤ 0 then 0
  else (max 0 (min ((rows : ℤ) - 1) ⌊(price - minPrice) / binSize⌋)).toNat

/-- `bin_volumes[i] += x`. -/
def addVolume (bins : List ℚ) (i : ℕ) (x : ℚ) : List ℚ := bins.modify i (· + x)

/-- One row below the top one gets its share, which is counted. -/
def addShare (share : ℚ) (s : List ℚ × ℚ) (i : ℕ) : List ℚ × ℚ :=
  (addVolume s.1 i share, s.2 + share)

/-- One candle of the loop.  A span of zero rows would be a division by zero. -/
def addCandle (index : ℚ → ℕ) (bins : List ℚ) (c : Cleaned) : Option (List ℚ) :=
  if c.vol ≤ 0 then some bins
  else
    let loI := index c.lo
    let hiI := index c.hi
    if loI = hiI then some (addVolume bins loI c.vol)
    else
      let span : ℤ := hiI - loI + 1
      if span = 0 then none
      else
        let share := c.vol / span
        let s := (List.range' loI (hiI - loI)).foldl (addShare share) (bins, 0)
        -- the remainder goes to the top row
        some (addVolume s.1 hiI (c.vol - s.2))

def spread (index : ℚ → ℕ) (bins : List ℚ) (cleaned : List Cleaned) : Option (List ℚ) :=
  cleaned.foldlM (addCandle index) bins

/-- One row of the search for the point of control: the best so far with its volume. -/
def considerRow (bins : List ℚ) (best : ℕ × ℚ) (i : ℕ) : ℕ × ℚ :=
  if bins.getD i 0 > best.2 then (i, bins.getD i 0) else best

/-- The row of greatest volume, the lowest on a tie. -/
def pocIndex (bins : List ℚ) : ℕ :=
  ((List.range' 1 (bins.length - 1)).foldl (considerRow bins) (0, bins.getD 0 0)).1

/-! ### The profile -/

/-- The profile before its prices are rounded. -/
structure Profile where
  binVolumes : List ℚ
  minPrice : ℚ
  binSize : ℚ
  pocIndex : ℕ
  area : Area

namespace Profile

variable (p : Profile)

def rowLow (i : ℕ) : ℚ := p.minPrice + i * p.binSize
def rowHigh (i : ℕ) : ℚ := p.minPrice + (i + 1) * p.binSize
def rowCenter (i : ℕ) : ℚ := (p.rowLow i + p.rowHigh i) / 2
def poc : ℚ := p.rowCenter p.pocIndex
def val : ℚ := p.rowLow p.area.lo
def vah : ℚ := p.rowHigh p.area.hi

/-- The rows with their volumes. -/
def indexed : List (ℕ × ℚ) := p.binVolumes.mapIdx fun i v => (i, v)

/-- The three greatest rows, in a stable order. -/
def hvn : List (ℕ × ℚ) := (p.indexed.insertionSort fun a b => b.2 ≤ a.2).take 3

/-- The three smallest rows with any volume. -/
def lvn : List (ℕ × ℚ) :=
  ((p.indexed.filter fun t => decide (0 < t.2)).insertionSort fun a b => a.2 ≤ b.2).take 3

end Profile

/-- The profile of cleaned candles; the inner `none` is a result without levels, the outer one
would be an exception or a loop that has not ended within its fuel. -/
def profileOf (fuel rows : ℕ) (valueAreaPercent : ℚ) (cleaned : List Cleaned) :
    Option (Option Profile) :=
  match cleaned with
  | [] => some none
  | c :: rest => do
      let minPrice := (rest.map Cleaned.lo).foldl min c.lo
      let maxPrice := (rest.map Cleaned.hi).foldl max c.hi
      let binSize := (maxPrice - minPrice) / rows
      let bins ← spread (binIndex minPrice binSize rows) (List.replicate rows 0) cleaned
      if bins.sum ≤ 0 then return none
      let poc := pocIndex bins
      let area ← valueAreaBounds bins fuel poc (some (.fin valueAreaPercent))
      return some ⟨bins, minPrice, binSize, poc, area⟩

inductive PriceLocation where
  | unknown
  | aboveValueArea
  | belowValueArea
  | insideValueArea
  deriving DecidableEq

/-- Where the latest price is. -/
def priceLocation (p : Profile) : Option ℚ → PriceLocation
  | none => .unknown
  | some price =>
      if price > p.vah then .aboveValueArea
      else if price < p.val then .belowValueArea
      else .insideValueArea

/-- The result as a dictionary; a level is its price and its volume. -/
structure ProfileResult where
  rows : ℕ
  poc : Option ℚ := none
  vah : Option ℚ := none
  val : Option ℚ := none
  valueAreaPercent : ℚ
  totalVolume : ℚ := 0
  currentPrice : Option ℚ
  priceVsValueArea : PriceLocation := .unknown
  hvnLevels : List (ℚ × ℚ) := []
  lvnLevels : List (ℚ × ℚ) := []

/-- The profile that `_compute_volume_profile` finds, before it is rounded. -/
def unroundedProfile (fuel : ℕ) (candles : List Candle) (rows valueAreaPercent : Option F64) :
    Option (Option Profile) :=
  profileOf fuel (normalizeRows rows) (normalizeValuePercent valueAreaPercent) (clean candles)

/-- `_compute_volume_profile`, with Python's `round(x, 4)` as a parameter. -/
def computeVolumeProfile (round4 : ℚ → ℚ) (fuel : ℕ) (candles : List Candle)
    (rows valueAreaPercent : Option F64) : Option ProfileResult := do
  let price := currentPrice (clean candles)
  let result ← unroundedProfile fuel candles rows valueAreaPercent
  let pct := normalizeValuePercent valueAreaPercent
  match result with
  | none => return { rows := normalizeRows rows, valueAreaPercent := pct, currentPrice := price }
  | some p =>
      let levels (nodes : List (ℕ × ℚ)) : List (ℚ × ℚ) :=
        nodes.map fun t => (round4 (p.rowCenter t.1), round4 t.2)
      return {
        rows := normalizeRows rows
        poc := some (round4 p.poc)
        vah := some (round4 p.vah)
        val := some (round4 p.val)
        valueAreaPercent := pct
        totalVolume := round4 p.binVolumes.sum
        currentPrice := price.map round4
        priceVsValueArea := priceLocation p price
        hvnLevels := levels p.hvn
        lvnLevels := levels p.lvn }

/-! ### Volume is conserved -/

section
variable {bins : List ℚ} {index : ℚ → ℕ} {c : Cleaned} {cleaned : List Cleaned} {i : ℕ}

@[simp] theorem length_addVolume (bins : List ℚ) (i : ℕ) (x : ℚ) :
    (addVolume bins i x).length = bins.length := List.length_modify _ _ _

theorem sum_addVolume (hi : i < bins.length) (x : ℚ) :
    (addVolume bins i x).sum = bins.sum + x := by
  induction bins generalizing i with
  | nil => exact absurd hi (Nat.not_lt_zero i)
  | cons b bins ih =>
      cases i with
      | zero =>
          rw [addVolume, List.modify_zero_cons, List.sum_cons, List.sum_cons]
          ring
      | succ i =>
          have htail := ih (Nat.lt_of_succ_lt_succ hi)
          rw [addVolume] at htail ⊢
          rw [List.modify_succ_cons, List.sum_cons, List.sum_cons, htail]
          ring

/-- What the rows below the top one receive is what has been counted. -/
theorem foldl_addShare (share : ℚ) (rows : List ℕ) (s : List ℚ × ℚ)
    (hrows : ∀ i ∈ rows, i < s.1.length) :
    (rows.foldl (addShare share) s).1.length = s.1.length ∧
      (rows.foldl (addShare share) s).1.sum - (rows.foldl (addShare share) s).2 =
        s.1.sum - s.2 := by
  induction rows generalizing s with
  | nil => exact ⟨rfl, rfl⟩
  | cons i rows ih =>
      obtain ⟨hlength, hsum⟩ := ih (addShare share s i) fun j hj => by
        simpa [addShare] using hrows j (List.mem_cons_of_mem i hj)
      rw [List.foldl_cons]
      refine ⟨by simpa [addShare] using hlength, hsum.trans ?_⟩
      simp only [addShare, sum_addVolume (hrows i List.mem_cons_self)]
      ring

theorem addCandle_spec (hindex : ∀ price, index price < bins.length)
    (hmono : index c.lo ≤ index c.hi) :
    ∃ bins', addCandle index bins c = some bins' ∧ bins'.length = bins.length ∧
      bins'.sum = bins.sum + max 0 c.vol := by
  unfold addCandle
  split
  · rename_i hvol
    exact ⟨bins, rfl, rfl, by rw [max_eq_left hvol, add_zero]⟩
  · rename_i hvol
    rw [max_eq_right (not_le.mp hvol).le]
    simp only
    split
    · exact ⟨_, rfl, length_addVolume _ _ _, sum_addVolume (hindex _) _⟩
    · rw [if_neg (by omega)]
      obtain ⟨hlength, hsum⟩ := foldl_addShare
        (c.vol / ((index c.hi : ℤ) - index c.lo + 1 : ℤ))
        (List.range' (index c.lo) (index c.hi - index c.lo)) (bins, 0) fun i hi => by
          have := hindex c.hi
          rw [List.mem_range'_1] at hi
          simp only
          omega
      refine ⟨_, rfl, by rw [length_addVolume, hlength], ?_⟩
      rw [sum_addVolume (by rw [hlength]; exact hindex c.hi)]
      linarith

/-- The sum of the positive volumes. -/
def positiveVolume (cleaned : List Cleaned) : ℚ := (cleaned.map fun c => max 0 c.vol).sum

/-- Every candle adds its positive volume.  Induction on the candles. -/
theorem spread_spec (index : ℚ → ℕ) (bins : List ℚ) (hindex : ∀ price, index price < bins.length)
    (hmono : ∀ c ∈ cleaned, index c.lo ≤ index c.hi) :
    ∃ bins', spread index bins cleaned = some bins' ∧ bins'.length = bins.length ∧
      bins'.sum = bins.sum + positiveVolume cleaned := by
  induction cleaned generalizing bins with
  | nil => exact ⟨bins, rfl, rfl, by simp [positiveVolume]⟩
  | cons c cleaned ih =>
      obtain ⟨next, hnext, hlength, hsum⟩ :=
        addCandle_spec hindex (hmono c List.mem_cons_self)
      obtain ⟨last, hlast, hlength', hsum'⟩ := ih next (by rwa [hlength])
        fun c' hc' => hmono c' (List.mem_cons_of_mem c hc')
      refine ⟨last, ?_, hlength'.trans hlength, ?_⟩
      · rw [spread, List.foldlM_cons, hnext]
        exact hlast
      · rw [hsum', hsum, positiveVolume, positiveVolume, List.map_cons, List.sum_cons, add_assoc]

end

/-! ### Rows -/

section
variable {minPrice binSize price price' : ℚ} {rows : ℕ}

theorem binIndex_lt (hrows : 1 ≤ rows) (price : ℚ) :
    binIndex minPrice binSize rows price < rows := by
  unfold binIndex
  split
  · exact hrows
  · omega

theorem binIndex_mono (h : price ≤ price') :
    binIndex minPrice binSize rows price ≤ binIndex minPrice binSize rows price' := by
  unfold binIndex
  split
  · exact le_rfl
  · rename_i hsize
    have hfloor : ⌊(price - minPrice) / binSize⌋ ≤ ⌊(price' - minPrice) / binSize⌋ :=
      Int.floor_le_floor (div_le_div_of_nonneg_right (by linarith) (not_le.mp hsize).le)
    omega

theorem normalizeRows_natCast (h : 1 ≤ rows) (h' : rows ≤ 1000) :
    normalizeRows (some (.fin rows)) = rows := by
  have hround : roundHalfEven (rows : ℚ) = rows := by
    rw [roundHalfEven, Int.floor_natCast, if_pos (by simp)]
  rw [normalizeRows]
  simp only [finiteValue, hround]
  omega

theorem normalizeValuePercent_fin {pct : ℚ} (h : 1 ≤ pct) (h' : pct ≤ 100) :
    normalizeValuePercent (some (.fin pct)) = pct := by
  simp [normalizeValuePercent, finiteValue, h, h']

end

/-- A row of greatest volume, the lowest of them. -/
structure PointOfControl (bins : List ℚ) (poc : ℕ) : Prop where
  lt : poc < bins.length
  le : ∀ i < bins.length, bins.getD i 0 ≤ bins.getD poc 0
  first : ∀ i < poc, bins.getD i 0 < bins.getD poc 0

/-- The search has the point of control of the rows it has seen.  Induction on their number. -/
theorem foldl_considerRow (bins : List ℚ) (m : ℕ) :
    let best := (List.range' 1 m).foldl (considerRow bins) (0, bins.getD 0 0)
    best.2 = bins.getD best.1 0 ∧ best.1 ≤ m ∧
      (∀ i ≤ m, bins.getD i 0 ≤ best.2) ∧ ∀ i < best.1, bins.getD i 0 < best.2 := by
  induction m with
  | zero =>
      refine ⟨rfl, le_rfl, fun i hi => ?_, fun i hi => absurd hi (Nat.not_lt_zero i)⟩
      rw [Nat.le_zero.mp hi]
      exact le_rfl
  | succ m ih =>
      obtain ⟨hvol, hle, hmax, hfirst⟩ := ih
      rw [List.range'_concat, List.foldl_append, List.foldl_cons, List.foldl_nil, one_mul]
      generalize (List.range' 1 m).foldl (considerRow bins) (0, bins.getD 0 0) = best at *
      rw [considerRow]
      split
      · rename_i hgt
        refine ⟨rfl, by simp only; omega, fun i hi => ?_, fun i hi => ?_⟩
        · rcases Nat.lt_or_ge m i with hi' | hi'
          · rw [show i = 1 + m by omega]
          · exact (hmax i hi').trans hgt.le
        · exact (hmax i (by simp only at hi; omega)).trans_lt hgt
      · rename_i hgt
        refine ⟨hvol, by omega, fun i hi => ?_, hfirst⟩
        rcases Nat.lt_or_ge m i with hi' | hi'
        · rw [show i = 1 + m by omega]
          exact not_lt.mp hgt
        · exact hmax i hi'

theorem pocIndex_spec {bins : List ℚ} (hne : 0 < bins.length) :
    PointOfControl bins (pocIndex bins) := by
  obtain ⟨hvol, hle, hmax, hfirst⟩ := foldl_considerRow bins (bins.length - 1)
  exact
    { lt := by rw [pocIndex]; omega
      le := fun i hi => by rw [pocIndex, ← hvol]; exact hmax i (by omega)
      first := fun i hi => by rw [pocIndex, ← hvol]; exact hfirst i hi }

theorem foldl_min_le (xs : List ℚ) (x : ℚ) : xs.foldl min x ≤ x := by
  induction xs generalizing x with
  | nil => exact le_rfl
  | cons y xs ih => exact (ih (min x y)).trans (min_le_left x y)

theorem le_foldl_max (xs : List ℚ) (x : ℚ) : x ≤ xs.foldl max x := by
  induction xs generalizing x with
  | nil => exact le_rfl
  | cons y xs ih => exact (le_max_left x y).trans (ih (max x y))

/-! ### The profile of a list of candles -/

theorem Profile.levels_ordered (p : Profile) (hsize : 0 ≤ p.binSize)
    (hlo : p.area.lo ≤ p.pocIndex) (hhi : p.pocIndex ≤ p.area.hi) :
    p.val ≤ p.poc ∧ p.poc ≤ p.vah := by
  have hlow : (p.area.lo : ℚ) * p.binSize ≤ p.pocIndex * p.binSize :=
    mul_le_mul_of_nonneg_right (Nat.cast_le.mpr hlo) hsize
  have hhigh : (p.pocIndex : ℚ) * p.binSize ≤ p.area.hi * p.binSize :=
    mul_le_mul_of_nonneg_right (Nat.cast_le.mpr hhi) hsize
  simp only [Profile.val, Profile.poc, Profile.vah, Profile.rowLow, Profile.rowHigh,
    Profile.rowCenter]
  constructor <;> linarith

/-- What a profile of some candles is. -/
structure IsProfile (cleaned : List Cleaned) (rows : ℕ) (pct : ℚ) (p : Profile) : Prop where
  length : p.binVolumes.length = rows
  conserved : p.binVolumes.sum = positiveVolume cleaned
  poc : PointOfControl p.binVolumes p.pocIndex
  area : ValueArea p.binVolumes p.pocIndex (p.binVolumes.sum * (pct / 100)) p.area
  val_le : p.val ≤ p.poc
  le_vah : p.poc ≤ p.vah

theorem profileOf_spec {cleaned : List Cleaned} {rows fuel : ℕ} {pct : ℚ} (hrows : 1 ≤ rows)
    (hpct : 1 ≤ pct) (hpct' : pct ≤ 100) (hordered : ∀ c ∈ cleaned, c.lo ≤ c.hi)
    (hpos : 0 < positiveVolume cleaned) (hfuel : rows ≤ fuel) :
    ∃ p, profileOf fuel rows pct cleaned = some (some p) ∧ IsProfile cleaned rows pct p := by
  cases cleaned with
  | nil => exact absurd hpos (lt_irrefl 0)
  | cons c rest =>
      generalize hmin : (rest.map Cleaned.lo).foldl min c.lo = minPrice
      generalize hmax : (rest.map Cleaned.hi).foldl max c.hi = maxPrice
      have hspan : minPrice ≤ maxPrice := by
        rw [← hmin, ← hmax]
        exact (foldl_min_le _ _).trans
          ((hordered c List.mem_cons_self).trans (le_foldl_max _ _))
      have hsize : 0 ≤ (maxPrice - minPrice) / (rows : ℚ) :=
        div_nonneg (by linarith) (Nat.cast_nonneg rows)
      obtain ⟨bins, hbins, hlength, hsum⟩ := spread_spec
        (binIndex minPrice ((maxPrice - minPrice) / rows) rows) (List.replicate rows 0)
        (fun price => by rw [List.length_replicate]; exact binIndex_lt hrows price)
        (fun c' (hc' : c' ∈ c :: rest) => binIndex_mono (hordered c' hc'))
      rw [List.length_replicate] at hlength
      rw [List.sum_replicate, nsmul_zero, zero_add] at hsum
      have hpoc := pocIndex_spec (show 0 < bins.length by omega)
      have htotal : 0 < bins.sum := hsum ▸ hpos
      obtain ⟨area, harea, hvalue⟩ := valueAreaBounds_spec hpoc.lt htotal (some (.fin pct))
        (show bins.length ≤ fuel by omega)
      rw [normalizeValuePercent_fin hpct hpct'] at hvalue
      have hlevels := Profile.levels_ordered
        ⟨bins, minPrice, (maxPrice - minPrice) / rows, pocIndex bins, area⟩ hsize
        hvalue.lo_le hvalue.le_hi
      refine ⟨⟨bins, minPrice, (maxPrice - minPrice) / rows, pocIndex bins, area⟩, ?_,
        hlength, hsum, hpoc, hvalue, hlevels.1, hlevels.2⟩
      simp only [profileOf, hmin, hmax, hbins, Option.bind_eq_bind, Option.bind_some,
        if_neg (not_le.mpr htotal), harea]
      rfl

/-- A candle of numbers, the right way up. -/
def WellFormed (c : Candle) : Prop :=
  ∃ lo hi : ℚ, c.low = some (.fin lo) ∧ c.high = some (.fin hi) ∧ lo ≤ hi

theorem clean_wellFormed {candles : List Candle} (h : ∀ c ∈ candles, WellFormed c) :
    (∀ c ∈ clean candles, c.lo ≤ c.hi) ∧
      positiveVolume (clean candles) =
        (candles.map fun c => max 0 (finiteOrZero c.volume)).sum := by
  induction candles with
  | nil => exact ⟨fun c hc => absurd hc List.not_mem_nil, rfl⟩
  | cons c candles ih =>
      obtain ⟨hordered, hsum⟩ := ih fun c' hc' => h c' (List.mem_cons_of_mem c hc')
      obtain ⟨lo, hi, hlo, hhi, hle⟩ := h c List.mem_cons_self
      have hclean : clean (c :: candles) =
          ⟨lo, hi, finiteOrZero c.volume, finiteValue c.close⟩ :: clean candles :=
        List.filterMap_cons_some (by rw [cleanCandle, hlo, hhi]; rfl)
      rw [hclean]
      constructor
      · intro c' hc'
        rcases List.mem_cons.mp hc' with rfl | hc'
        · exact hle
        · exact hordered c' hc'
      · rw [positiveVolume] at hsum ⊢
        rw [List.map_cons, List.sum_cons, List.map_cons, List.sum_cons, hsum]

/-- **The volume profile.** The rows share out the positive volumes, the point of control is the
lowest row of greatest volume, the value area has grown around it to the percentage asked for and
no further than needed, and the levels are in order; fuel for every row is enough. -/
theorem profile_conserves (candles : List Candle) (rows : ℕ) (pct : ℚ)
    (hrows : 1 ≤ rows ∧ rows ≤ 1000) (hpct : 1 ≤ pct ∧ pct ≤ 100)
    (hcandles : ∀ c ∈ candles, WellFormed c)
    (hpos : ∃ c ∈ candles, 0 < finiteOrZero c.volume) (fuel : ℕ) (hfuel : rows ≤ fuel) :
    ∃ p, unroundedProfile fuel candles (some (.fin rows)) (some (.fin pct)) = some (some p) ∧
      p.binVolumes.length = rows ∧
      p.binVolumes.sum = (candles.map fun c => max 0 (finiteOrZero c.volume)).sum ∧
      PointOfControl p.binVolumes p.pocIndex ∧
      ValueArea p.binVolumes p.pocIndex (p.binVolumes.sum * (pct / 100)) p.area ∧
      p.val ≤ p.poc ∧ p.poc ≤ p.vah := by
  obtain ⟨hordered, hsum⟩ := clean_wellFormed hcandles
  have hpositive : 0 < positiveVolume (clean candles) := by
    rw [hsum]
    obtain ⟨c, hc, hvol⟩ := hpos
    have hle : max 0 (finiteOrZero c.volume) ≤
        (candles.map fun c => max 0 (finiteOrZero c.volume)).sum := by
      apply List.single_le_sum
      · intro x hx
        obtain ⟨c', _, rfl⟩ := List.mem_map.mp hx
        exact le_max_left 0 _
      · exact List.mem_map_of_mem hc
    exact (lt_max_of_lt_right hvol).trans_le hle
  rw [unroundedProfile, normalizeRows_natCast hrows.1 hrows.2,
    normalizeValuePercent_fin hpct.1 hpct.2]
  obtain ⟨p, hp, hprofile⟩ := profileOf_spec hrows.1 hpct.1 hpct.2 hordered hpositive hfuel
  exact ⟨p, hp, hprofile.length, hprofile.conserved.trans hsum, hprofile.poc, hprofile.area,
    hprofile.val_le, hprofile.le_vah⟩

/-- Three candles over two rows, one of them without volume. -/
theorem profile_conserves_rows :
    let candles : List Candle :=
      [⟨some (.fin 12), some (.fin 10), some (.fin 6), none⟩,
        ⟨some (.fin 14), some (.fin 10), some (.fin 4), some (.fin 13)⟩,
        ⟨some (.fin 11), some (.fin 11), none, none⟩]
    ∃ p, unroundedProfile 2 candles (some (.fin 2)) (some (.fin 70)) = some (some p) ∧
      p.binVolumes.sum = 10 ∧ p.val ≤ p.poc ∧ p.poc ≤ p.vah := by
  intro candles
  have hcandles : ∀ c ∈ candles, WellFormed c := by
    simp only [candles, List.forall_mem_cons]
    exact ⟨⟨10, 12, rfl, rfl, by norm_num⟩, ⟨10, 14, rfl, rfl, by norm_num⟩,
      ⟨11, 11, rfl, rfl, le_rfl⟩, fun c hc => absurd hc List.not_mem_nil⟩
  obtain ⟨p, hp, _, hsum, _, _, hval, hvah⟩ := profile_conserves candles 2 70 (by decide)
    (by norm_num) hcandles ⟨_, List.mem_cons_self, by decide +kernel⟩ 2 le_rfl
  exact ⟨p, hp, hsum.trans (by decide +kernel), hval, hvah⟩

end AiTrader.VolumeProfile
