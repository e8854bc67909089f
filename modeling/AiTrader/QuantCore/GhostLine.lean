import AiTrader.Library.LeastSquares
import Mathlib.Data.Fin.VecNotation
import Mathlib.Tactic.NormNum

/-! # The Ghost Line

`vwepr_core` and `solve_system_3x3` of `src/quant-core/src/vwepr.rs`: a weighted parabola is fitted
to the closes of at most fifty candles and continued from the last close.  Arithmetic is exact.

* `vweprCore_fits`: the curve is the best fit, which is unique from three candles on; with fewer
  the system has no pivot, and the anchor is all there is. -/

namespace AiTrader.QuantCore

open Elimination LeastSquares Polynomial

open scoped Matrix

/-- The fields of a candle that the fit reads. -/
structure OhlcCandle where
  time : ℤ
  close : ℚ
  volume : ℚ
deriving DecidableEq, Repr

structure ProjectedPoint where
  time : ℤ
  value : ℚ
deriving DecidableEq, Repr

def maxWindow : ℕ := 50

def alpha : ℚ := 9 / 10

/-- `solve_system_3x3`. -/
def solveSystem3x3 (a : Fin 3 → Fin 3 → ℚ) (b : Fin 3 → ℚ) : Option (Fin 3 → ℚ) :=
  (System.mk a b).solve (1 / 10 ^ 30)

/-- The sums of the normal equations. -/
structure Sums where
  s0 : ℚ := 0
  s1 : ℚ := 0
  s2 : ℚ := 0
  s3 : ℚ := 0
  s4 : ℚ := 0
  sy0 : ℚ := 0
  sy1 : ℚ := 0
  sy2 : ℚ := 0

/-- The weight of the candle at index `i` of a window. -/
def weight (windowSize i : ℕ) (candle : OhlcCandle) : ℚ :=
  let vol := max candle.volume 1
  let decay := alpha ^ (windowSize - 1 - i)
  vol * decay

/-- One turn of the loop over the window. -/
def accumulate (windowSize : ℕ) (s : Sums) (p : OhlcCandle × ℕ) : Sums :=
  let (candle, i) := p
  let w := weight windowSize i candle
  let x : ℚ := i
  let y := candle.close
  let x2 := x * x
  let x3 := x2 * x
  let x4 := x3 * x
  { s0 := s.s0 + w
    s1 := s.s1 + w * x
    s2 := s.s2 + w * x2
    s3 := s.s3 + w * x3
    s4 := s.s4 + w * x4
    sy0 := s.sy0 + w * y
    sy1 := s.sy1 + w * x * y
    sy2 := s.sy2 + w * x2 * y }

section
variable (candles : List OhlcCandle)

def windowSize : ℕ := min candles.length maxWindow

/-- The trailing candles. -/
def window : List OhlcCandle := candles.drop (candles.length - windowSize candles)

def sums : Sums := (window candles).zipIdx.foldl (accumulate (windowSize candles)) {}

/-- The coefficients of the fit, the intercept first. -/
def coeffs : Option (Fin 3 → ℚ) :=
  let s := sums candles
  solveSystem3x3 ![![s.s0, s.s1, s.s2], ![s.s1, s.s2, s.s3], ![s.s2, s.s3, s.s4]]
    ![s.sy0, s.sy1, s.sy2]

/-- `vwepr_core`: the points, and the acceleration coefficient. -/
def vweprCore (projectionLength : ℕ) (intervalSec : ℤ) : List ProjectedPoint × ℚ :=
  match (window candles).getLast? with
  | none => ([], 0)
  | some last =>
      if projectionLength = 0 then ([], 0)
      else match coeffs candles with
        | none => ([⟨last.time, last.close⟩], 0)
        | some a =>
            let nIndex : ℚ := (windowSize candles - 1 : ℕ)
            let fittedAtAnchor := a 2 * nIndex * nIndex + a 1 * nIndex + a 0
            let future := (List.range' 1 projectionLength).map fun (i : ℕ) =>
              let futureX := nIndex + i
              let fittedAtFuture := a 2 * futureX * futureX + a 1 * futureX + a 0
              let delta := fittedAtFuture - fittedAtAnchor
              ProjectedPoint.mk (last.time + i * intervalSec) (last.close + delta)
            (⟨last.time, last.close⟩ :: future, a 2)

/-! ### The sums are the normal equations -/

/-- A candle of the window as a sample. -/
def sample (windowSize : ℕ) (p : OhlcCandle × ℕ) : Sample ℚ :=
  ⟨weight windowSize p.2 p.1, p.2, p.1.close⟩

def samples : List (Sample ℚ) := (window candles).zipIdx.map (sample (windowSize candles))

end

section
variable {candles : List OhlcCandle} {n : ℕ}

theorem foldl_accumulate (ps : List (OhlcCandle × ℕ)) (s : Sums) :
    let t := ps.foldl (accumulate n) s
    let f (g : Sample ℚ → ℚ) : ℚ := weighted (ps.map (sample n)) g
    t.s0 = s.s0 + f (fun s => s.x ^ 0) ∧ t.s1 = s.s1 + f (fun s => s.x ^ 1) ∧
    t.s2 = s.s2 + f (fun s => s.x ^ 2) ∧ t.s3 = s.s3 + f (fun s => s.x ^ 3) ∧
    t.s4 = s.s4 + f (fun s => s.x ^ 4) ∧ t.sy0 = s.sy0 + f (fun s => s.x ^ 0 * s.y) ∧
    t.sy1 = s.sy1 + f (fun s => s.x ^ 1 * s.y) ∧ t.sy2 = s.sy2 + f (fun s => s.x ^ 2 * s.y) := by
  induction ps generalizing s with
  | nil => simp [weighted]
  | cons p ps ih =>
      simp only [List.foldl_cons, List.map_cons, weighted, List.sum_cons] at ih ⊢
      obtain ⟨h0, h1, h2, h3, h4, hy0, hy1, hy2⟩ := ih (accumulate n s p)
      rw [h0, h1, h2, h3, h4, hy0, hy1, hy2]
      simp only [accumulate, sample]
      refine ⟨?_, ?_, ?_, ?_, ?_, ?_, ?_, ?_⟩ <;> ring

theorem coeffs_eq : coeffs candles = (normalEquations 2 (samples candles)).solve (1 / 10 ^ 30) := by
  obtain ⟨h0, h1, h2, h3, h4, hy0, hy1, hy2⟩ :=
    foldl_accumulate (n := windowSize candles) (window candles).zipIdx {}
  simp only [zero_add] at h0 h1 h2 h3 h4 hy0 hy1 hy2
  unfold coeffs solveSystem3x3 sums
  simp only [h0, h1, h2, h3, h4, hy0, hy1, hy2]
  congr 1
  unfold normalEquations samples
  congr 1
  · funext r c
    fin_cases r <;> fin_cases c <;> rfl
  · funext r
    fin_cases r <;> rfl

theorem windowSize_le : windowSize candles ≤ 50 := min_le_right _ _

theorem length_window : (window candles).length = windowSize candles := by
  have hle : windowSize candles ≤ candles.length := min_le_left _ _
  rw [window, List.length_drop]
  omega

/-! ### Pivots -/

/-- The least weight of a candle in a window. -/
def leastWeight : ℚ := alpha ^ 49

theorem leastWeight_le (hn : n ≤ 50) (i : ℕ) (candle : OhlcCandle) :
    leastWeight ≤ weight n i candle := by
  have hdecay : leastWeight ≤ alpha ^ (n - 1 - i) :=
    pow_le_pow_of_le_one (by norm_num [alpha]) (by norm_num [alpha]) (by omega)
  have hpos : 0 < alpha ^ (n - 1 - i) := pow_pos (by norm_num [alpha]) _
  calc leastWeight ≤ 1 * alpha ^ (n - 1 - i) := by rwa [one_mul]
    _ ≤ max candle.volume 1 * alpha ^ (n - 1 - i) :=
        mul_le_mul_of_nonneg_right (le_max_right _ _) hpos.le

theorem leastWeight_pos : 0 < leastWeight := pow_pos (by norm_num [alpha]) 49

theorem weight_pos_of_mem : ∀ s ∈ samples candles, 0 < s.weight := by
  intro s hs
  obtain ⟨q, -, rfl⟩ := List.mem_map.mp hs
  exact leastWeight_pos.trans_le (leastWeight_le windowSize_le q.2 q.1)

/-- A coefficient of a parabola is a combination of its values at `0`, `1` and `2`. -/
theorem sq_le_of_combination {a b c q₀ q₁ q₂ x : ℚ} (hx : x = a * q₀ + b * q₁ + c * q₂)
    (habc : a ^ 2 + b ^ 2 + c ^ 2 ≤ 7) : x ^ 2 ≤ 7 * (q₀ ^ 2 + q₁ ^ 2 + q₂ ^ 2) := by
  have hsum : 0 ≤ q₀ ^ 2 + q₁ ^ 2 + q₂ ^ 2 := by positivity
  have hcauchy : x ^ 2 ≤ (a ^ 2 + b ^ 2 + c ^ 2) * (q₀ ^ 2 + q₁ ^ 2 + q₂ ^ 2) := by
    rw [hx]
    linarith [sq_nonneg (a * q₁ - b * q₀), sq_nonneg (a * q₂ - c * q₀), sq_nonneg (b * q₂ - c * q₁)]
  exact hcauchy.trans (mul_le_mul_of_nonneg_right habc hsum)

theorem coeff_sq_le (x : Fin 3 → ℚ) (c : Fin 3) :
    x c ^ 2 ≤ 7 * ((ofCoeffs x).eval 0 ^ 2 + (ofCoeffs x).eval 1 ^ 2 +
      (ofCoeffs x).eval 2 ^ 2) := by
  have heval (t : ℚ) : (ofCoeffs x).eval t = x 0 + x 1 * t + x 2 * t ^ 2 := by
    rw [eval_ofCoeffs, Fin.sum_univ_three]
    simp
  rw [heval, heval, heval]
  match c with
  | 0 => exact sq_le_of_combination (a := 1) (b := 0) (c := 0) (by ring) (by norm_num)
  | 1 => exact sq_le_of_combination (a := -3 / 2) (b := 2) (c := -1 / 2) (by ring) (by norm_num)
  | 2 => exact sq_le_of_combination (a := 1 / 2) (b := -1) (c := 1 / 2) (by ring) (by norm_num)

/-- From three candles on the normal equations are coercive. -/
theorem coercive (h : 3 ≤ windowSize candles) (x : Fin 3 → ℚ) (c : Fin 3) :
    leastWeight / 7 * x c ^ 2 ≤
      ∑ r, x r * ((normalEquations 2 (samples candles)).a r ⬝ᵥ x) := by
  rw [form_eq]
  have hw := @weight_pos_of_mem candles
  rw [← length_window] at h
  unfold samples at hw ⊢
  have hleast (q : OhlcCandle × ℕ) (t : ℚ) :
      leastWeight * t ^ 2 ≤ (sample (windowSize candles) q).weight * t ^ 2 :=
    mul_le_mul_of_nonneg_right (leastWeight_le windowSize_le q.2 q.1) (sq_nonneg t)
  match hcs : window candles, h with
  | c₀ :: c₁ :: c₂ :: rest, _ =>
      rw [hcs] at hw
      simp only [List.zipIdx_cons, List.map_cons, List.forall_mem_cons] at hw ⊢
      obtain ⟨-, -, -, hrest⟩ := hw
      have htail := weighted_sq_nonneg hrest fun s => (ofCoeffs x).eval s.x
      have hfirst := hleast (c₀, 0) ((ofCoeffs x).eval 0)
      have hsecond := hleast (c₁, 1) ((ofCoeffs x).eval 1)
      have hthird := hleast (c₂, 2) ((ofCoeffs x).eval 2)
      have hcoeff := mul_le_mul_of_nonneg_left (coeff_sq_le x c) leastWeight_pos.le
      simp only [weighted, List.map_cons, List.sum_cons] at htail ⊢
      have hx (i : ℕ) (candle : OhlcCandle) :
          (sample (windowSize candles) (candle, i)).x = (i : ℚ) := rfl
      simp only [hx, Nat.cast_zero, Nat.cast_one, Nat.cast_ofNat, zero_add, Nat.reduceAdd]
        at htail ⊢
      linarith

theorem exists_coeffs (h : 3 ≤ windowSize candles) : ∃ a, coeffs candles = some a := by
  rw [coeffs_eq]
  refine System.exists_solve (by norm_num) ?_
    (System.boundedBelow_of_coercive (div_pos leastWeight_pos (by norm_num)) (coercive h))
  norm_num [leastWeight, alpha]

/-- With one or two candles a parabola through all of them is in the kernel. -/
theorem coeffs_eq_none (h : windowSize candles ≤ 2) : coeffs candles = none := by
  by_contra hne
  obtain ⟨a, ha⟩ := Option.ne_none_iff_exists'.mp hne
  rw [coeffs_eq] at ha
  have hker := (System.solve_spec (by norm_num) ha).2 ![0, -1, 1] fun r => by
    rw [normalEquations_dotProduct, zero_mul]
    refine List.sum_eq_zero fun t ht => ?_
    obtain ⟨s, hs, rfl⟩ := List.mem_map.mp ht
    obtain ⟨⟨candle, i⟩, hi, rfl⟩ := List.mem_map.mp hs
    have hlt : i < 2 := by
      have := (List.mem_zipIdx hi).2.1
      rw [length_window] at this
      omega
    have hzero : (ofCoeffs ![0, -1, 1] : ℚ[X]).eval (i : ℚ) = 0 := by
      rw [eval_ofCoeffs, Fin.sum_univ_three]
      obtain rfl | rfl : i = 0 ∨ i = 1 := by omega
      · simp
      · simp
    show _ * (_ * (ofCoeffs ![0, -1, 1] : ℚ[X]).eval (i : ℚ)) = 0
    rw [hzero, mul_zero, mul_zero]
  exact one_ne_zero (show (1 : ℚ) = 0 from congrFun hker 2)

end

/-! ### The curve -/

/-- The weighted sum of the squared distances of a window's closes from a polynomial. -/
noncomputable def windowError (candles : List OhlcCandle) (p : ℚ[X]) : ℚ :=
  ((window candles).zipIdx.map fun (candle, i) =>
    max candle.volume 1 * (9 / 10) ^ (windowSize candles - 1 - i) *
      (p.eval (i : ℚ) - candle.close) ^ 2).sum

/-- No polynomial of degree at most two is nearer to the closes. -/
def IsBestParabola (candles : List OhlcCandle) (p : ℚ[X]) : Prop :=
  p.natDegree ≤ 2 ∧ ∀ q : ℚ[X], q.natDegree ≤ 2 → windowError candles p ≤ windowError candles q

section
variable {candles : List OhlcCandle} {last : OhlcCandle} {projectionLength : ℕ}

theorem isBestFit_iff_isBestParabola (p : ℚ[X]) :
    IsBestFit 2 (samples candles) p ↔ IsBestParabola candles p := by
  have herror (q : ℚ[X]) : error (samples candles) q = windowError candles q := by
    rw [error, weighted, samples, List.map_map]
    rfl
  unfold IsBestFit IsBestParabola
  simp only [herror]

theorem getLast?_window (h : candles.getLast? = some last) :
    (window candles).getLast? = some last := by
  have hne : candles ≠ [] := by
    rintro rfl
    cases h
  have hpos := List.length_pos_iff.mpr hne
  have hsize : 0 < windowSize candles := lt_min hpos (by decide)
  rw [window, List.getLast?_drop, if_neg (by omega), h]

/-- The points of a curve that is `f` at the future indices. -/
def curve (last : OhlcCandle) (intervalSec : ℤ) (f : ℕ → ℚ) (projectionLength : ℕ) :
    List ProjectedPoint :=
  (List.range (projectionLength + 1)).map fun (i : ℕ) => ⟨last.time + i * intervalSec, f i⟩

theorem vweprCore_eq (h : candles.getLast? = some last) (hlength : 1 ≤ projectionLength)
    {a : Fin 3 → ℚ} (ha : coeffs candles = some a) (intervalSec : ℤ) :
    vweprCore candles projectionLength intervalSec =
      (curve last intervalSec (fun i => last.close +
        ((ofCoeffs a).eval ((windowSize candles - 1 + i : ℕ) : ℚ) -
          (ofCoeffs a).eval ((windowSize candles - 1 : ℕ) : ℚ))) projectionLength,
        (ofCoeffs a).coeff 2) := by
  have heval (t : ℚ) : (ofCoeffs a).eval t = a 2 * t * t + a 1 * t + a 0 := by
    rw [eval_ofCoeffs, Fin.sum_univ_three]
    simp
    ring
  rw [vweprCore, getLast?_window h]
  dsimp only
  have hcoeff : (ofCoeffs a).coeff 2 = a 2 := coeff_ofCoeffs a 2
  rw [if_neg (by omega), ha, curve, List.range_eq_range', List.range'_succ, List.map_cons, hcoeff]
  have hanchor : ProjectedPoint.mk (last.time + (0 : ℕ) * intervalSec) (last.close +
      ((ofCoeffs a).eval ((windowSize candles - 1 + 0 : ℕ) : ℚ) -
        (ofCoeffs a).eval ((windowSize candles - 1 : ℕ) : ℚ))) = ⟨last.time, last.close⟩ := by
    simp
  rw [hanchor]
  refine congrArg (fun future => (_ :: future, a 2)) (List.map_congr_left fun i _ => ?_)
  rw [heval, heval]
  push_cast
  rfl

end

/-- **The Ghost Line is the weighted least-squares parabola**, continued from the last close. -/
theorem vweprCore_fits (candles : List OhlcCandle) {last : OhlcCandle} {projectionLength : ℕ}
    (hlast : candles.getLast? = some last) (hlength : 1 ≤ projectionLength) (intervalSec : ℤ) :
    (candles.length ≤ 2 →
      vweprCore candles projectionLength intervalSec = ([⟨last.time, last.close⟩], 0)) ∧
    (3 ≤ candles.length → ∃ p : ℚ[X], (∀ q, IsBestParabola candles q ↔ q = p) ∧
      vweprCore candles projectionLength intervalSec =
        (curve last intervalSec (fun i => last.close +
          (p.eval ((windowSize candles - 1 + i : ℕ) : ℚ) -
            p.eval ((windowSize candles - 1 : ℕ) : ℚ))) projectionLength, p.coeff 2)) ∧
    ∀ p : ℚ[X], 3 ≤ candles.length → p.natDegree ≤ 2 →
      (∀ (i : ℕ) (c : OhlcCandle), (window candles)[i]? = some c → c.close = p.eval (i : ℚ)) →
      vweprCore candles projectionLength intervalSec =
        (curve last intervalSec (fun i => p.eval ((windowSize candles - 1 + i : ℕ) : ℚ))
          projectionLength, p.coeff 2) := by
  have hfit (hlen : 3 ≤ candles.length) : ∃ p : ℚ[X], (∀ q, IsBestParabola candles q ↔ q = p) ∧
      vweprCore candles projectionLength intervalSec =
        (curve last intervalSec (fun i => last.close +
          (p.eval ((windowSize candles - 1 + i : ℕ) : ℚ) -
            p.eval ((windowSize candles - 1 : ℕ) : ℚ))) projectionLength, p.coeff 2) := by
    obtain ⟨a, ha⟩ := exists_coeffs (show 3 ≤ windowSize candles from le_min hlen (by decide))
    have hsolve := ha
    rw [coeffs_eq] at hsolve
    obtain ⟨hholds, hker⟩ := System.solve_spec (by norm_num) hsolve
    refine ⟨ofCoeffs a, fun q => ?_, vweprCore_eq hlast hlength ha intervalSec⟩
    rw [← isBestFit_iff_isBestParabola, isBestFit_iff weight_pos_of_mem hholds hker]
  refine ⟨fun hlen => ?_, hfit, fun p hlen hp hcloses => ?_⟩
  · rw [vweprCore, getLast?_window hlast]
    dsimp only
    rw [if_neg (by omega), coeffs_eq_none ((min_le_left _ _).trans hlen)]
  · obtain ⟨q, hbest, hcore⟩ := hfit hlen
    have hq : p = q := by
      refine (hbest p).mp ((isBestFit_iff_isBestParabola p).mp
        (isBestFit_of_eval weight_pos_of_mem hp fun s hs => ?_))
      obtain ⟨⟨c, i⟩, hi, rfl⟩ := List.mem_map.mp hs
      exact hcloses i c (List.mem_zipIdx_iff_getElem?.mp hi)
    subst hq
    have hanchor : last.close = p.eval ((windowSize candles - 1 : ℕ) : ℚ) := by
      refine hcloses _ last ?_
      rw [← length_window, ← List.getLast?_eq_getElem?, getLast?_window hlast]
    rw [hcore]
    simp only [hanchor, add_sub_cancel]

/-- A minute of closes on `t² + 100`, with uneven volumes. -/
def bentCandles : List OhlcCandle := [⟨0, 100, 5⟩, ⟨60, 101, 0⟩, ⟨120, 104, 700⟩]

theorem vweprCore_fits_bent :
    (bentCandles.length ≤ 2 → vweprCore bentCandles 2 60 = ([⟨120, 104⟩], 0)) ∧
    (3 ≤ bentCandles.length → ∃ p : ℚ[X], (∀ q, IsBestParabola bentCandles q ↔ q = p) ∧
      vweprCore bentCandles 2 60 =
        (curve ⟨120, 104, 700⟩ 60 (fun i => 104 +
          (p.eval ((windowSize bentCandles - 1 + i : ℕ) : ℚ) -
            p.eval ((windowSize bentCandles - 1 : ℕ) : ℚ))) 2, p.coeff 2)) ∧
    ∀ p : ℚ[X], 3 ≤ bentCandles.length → p.natDegree ≤ 2 →
      (∀ (i : ℕ) (c : OhlcCandle), (window bentCandles)[i]? = some c →
        c.close = p.eval (i : ℚ)) →
      vweprCore bentCandles 2 60 =
        (curve ⟨120, 104, 700⟩ 60 (fun i => p.eval ((windowSize bentCandles - 1 + i : ℕ) : ℚ)) 2,
          p.coeff 2) :=
  vweprCore_fits bentCandles rfl (by decide) 60

end AiTrader.QuantCore
