import AiTrader.Value
import Mathlib.Algebra.Order.Ring.Rat

/-! # Arithmetic of doubles

An operation on two numbers is exact and then rounded by `rnd`; infinities and not-a-number go
through as the standard has it.  `rnd = F64.fin` is exact arithmetic. -/

namespace AiTrader.F64

def neg : F64 → F64
  | nan => nan
  | negInf => posInf
  | fin a => fin (-a)
  | posInf => negInf

def abs : F64 → F64
  | nan => nan
  | fin a => fin |a|
  | _ => posInf

section
variable (rnd : ℚ → F64)

def add : F64 → F64 → F64
  | fin a, fin b => rnd (a + b)
  | nan, _ => nan
  | _, nan => nan
  | posInf, negInf => nan
  | negInf, posInf => nan
  | fin _, b => b
  | a, _ => a

def sub (a b : F64) : F64 := add rnd a (neg b)

def mul (a b : F64) : F64 :=
  match mulExact a b with
  | fin q => rnd q
  | x => x

/-- The quotient; a zero divisor counts as positive. -/
def div : F64 → F64 → F64
  | nan, _ => nan
  | _, nan => nan
  | fin a, fin b =>
      if b = 0 then if a = 0 then nan else if a < 0 then negInf else posInf else rnd (a / b)
  | fin _, _ => fin 0
  | a, fin b => if b < 0 then neg a else a
  | _, _ => nan

end

/-- `f64::max`: not a number gives way. -/
def fmax : F64 → F64 → F64
  | nan, b => b
  | a, nan => a
  | a, b => if lt a b then b else a

/-- `f64::min`. -/
def fmin : F64 → F64 → F64
  | nan, b => b
  | a, nan => a
  | a, b => if lt b a then b else a

theorem nan_lt (a : F64) : lt nan a = false := by
  cases a <;> rfl

theorem lt_nan (a : F64) : lt a nan = false := by
  cases a <;> rfl

theorem fmax_of_ne_nan {a : F64} (h : a ≠ nan) (b : F64) :
    fmax a b = if lt a b then b else a := by
  cases a with
  | nan => exact absurd rfl h
  | _ => cases b <;> simp [fmax, lt]

theorem fmin_of_ne_nan {a : F64} (h : a ≠ nan) (b : F64) :
    fmin a b = if lt b a then b else a := by
  cases a with
  | nan => exact absurd rfl h
  | _ => cases b <;> simp [fmin, lt]

theorem fmax_eq_nan {a b : F64} : fmax a b = nan ↔ a = nan ∧ b = nan := by
  cases a with
  | nan => simp [fmax]
  | _ =>
      rw [fmax_of_ne_nan (by simp)]
      split
      · rename_i h
        cases b <;> simp_all [lt]
      · simp

theorem fmin_eq_nan {a b : F64} : fmin a b = nan ↔ a = nan ∧ b = nan := by
  cases a with
  | nan => simp [fmin]
  | _ =>
      rw [fmin_of_ne_nan (by simp)]
      split
      · rename_i h
        cases b <;> simp_all [lt]
      · simp

instance : LT F64 := ⟨fun a b => lt a b = true⟩

instance : LE F64 := ⟨fun a b => le a b = true⟩

instance : DecidableLT F64 := fun a b => inferInstanceAs (Decidable (lt a b = true))

instance : DecidableLE F64 := fun a b => inferInstanceAs (Decidable (le a b = true))

theorem lt_iff {a b : F64} : a < b ↔ lt a b = true := Iff.rfl

theorem le_iff {a b : F64} : a ≤ b ↔ le a b = true := Iff.rfl

theorem lt_trans {a b c : F64} (hab : a < b) (hbc : b < c) : a < c := by
  rw [lt_iff] at *
  cases a <;> cases b <;> cases c <;> simp_all [lt]
  exact hab.trans hbc

theorem le_of_le_of_le {a b c : F64} (hab : le a b = true) (hbc : le b c = true) : le a c = true := by
  cases a <;> cases b <;> cases c <;> simp_all [le, lt, eq]
  rename_i p q r
  rcases hab with hab | rfl
  · rcases hbc with hbc | rfl
    · exact .inl (hab.trans hbc)
    · exact .inl hab
  · exact hbc

theorem ne_nan_of_le {a b : F64} (h : le a b = true) : b ≠ nan := by
  rintro rfl
  cases a <;> cases h

theorem le_of_ne_nan {a b : F64} (ha : a ≠ nan) (hb : b ≠ nan) : le a b = !lt b a := by
  cases a <;> cases b <;> simp_all [le, lt, eq]
  rename_i p q
  rw [Bool.eq_iff_iff]
  simp [← le_iff_lt_or_eq]

theorem le_self {a : F64} (h : a ≠ nan) : le a a = true := by
  rw [le_of_ne_nan h h, lt_irrefl, Bool.not_false]

theorem fmax_eq_or (a b : F64) : fmax a b = a ∨ fmax a b = b := by
  cases a with
  | nan => exact .inr rfl
  | _ =>
      rw [fmax_of_ne_nan (by simp)]
      split
      · exact .inr rfl
      · exact .inl rfl

theorem fmin_eq_or (a b : F64) : fmin a b = a ∨ fmin a b = b := by
  cases a with
  | nan => exact .inr rfl
  | _ =>
      rw [fmin_of_ne_nan (by simp)]
      split
      · exact .inr rfl
      · exact .inl rfl

theorem le_fmax_left {a : F64} (h : a ≠ nan) (b : F64) : le a (fmax a b) = true := by
  rw [fmax_of_ne_nan h]
  split
  · rename_i hlt
    rw [le, hlt, Bool.true_or]
  · exact le_self h

theorem le_fmax_right (a : F64) {b : F64} (h : b ≠ nan) : le b (fmax a b) = true := by
  by_cases ha : a = nan
  · rw [ha, fmax, le_self h]
  · rw [fmax_of_ne_nan ha]
    split
    · exact le_self h
    · rename_i hlt
      rw [le_of_ne_nan h ha, Bool.not_eq_true _ |>.mp hlt, Bool.not_false]

theorem fmin_le_left {a : F64} (h : a ≠ nan) (b : F64) : le (fmin a b) a = true := by
  rw [fmin_of_ne_nan h]
  split
  · rename_i hlt
    rw [le, hlt, Bool.true_or]
  · exact le_self h

theorem fmin_le_right (a : F64) {b : F64} (h : b ≠ nan) : le (fmin a b) b = true := by
  by_cases ha : a = nan
  · rw [ha, fmin, le_self h]
  · rw [fmin_of_ne_nan ha]
    split
    · exact le_self h
    · rename_i hlt
      rw [le_of_ne_nan ha h, Bool.not_eq_true _ |>.mp hlt, Bool.not_false]

/-- The IEEE maximum of some values: one of them that no number among them exceeds. -/
structure IsHighest (x : F64) (values : List F64) : Prop where
  mem : x ∈ values
  le : ∀ y ∈ values, y ≠ nan → le y x = true

/-- The IEEE minimum of some values. -/
structure IsLowest (x : F64) (values : List F64) : Prop where
  mem : x ∈ values
  le : ∀ y ∈ values, y ≠ nan → le x y = true

section
variable {x : F64} {values : List F64}

theorem isHighest_singleton (x : F64) : IsHighest x [x] where
  mem := List.mem_singleton_self x
  le y hy hnum := by
    rw [List.mem_singleton.mp hy] at hnum ⊢
    exact le_self hnum

theorem isLowest_singleton (x : F64) : IsLowest x [x] where
  mem := List.mem_singleton_self x
  le y hy hnum := by
    rw [List.mem_singleton.mp hy] at hnum ⊢
    exact le_self hnum

theorem IsHighest.concat (h : IsHighest x values) (y : F64) :
    IsHighest (fmax x y) (values ++ [y]) where
  mem := by
    rcases fmax_eq_or x y with hx | hy
    · rw [hx]
      exact List.mem_append_left _ h.mem
    · rw [hy]
      exact List.mem_append_right _ (List.mem_singleton_self y)
  le z hz hnum := by
    rcases List.mem_append.mp hz with hz | hz
    · have hzx := h.le z hz hnum
      exact le_of_le_of_le hzx (le_fmax_left (ne_nan_of_le hzx) y)
    · rw [List.mem_singleton.mp hz] at hnum ⊢
      exact le_fmax_right x hnum

theorem IsLowest.concat (h : IsLowest x values) (y : F64) :
    IsLowest (fmin x y) (values ++ [y]) where
  mem := by
    rcases fmin_eq_or x y with hx | hy
    · rw [hx]
      exact List.mem_append_left _ h.mem
    · rw [hy]
      exact List.mem_append_right _ (List.mem_singleton_self y)
  le z hz hnum := by
    rcases List.mem_append.mp hz with hz | hz
    · have hxz := h.le z hz hnum
      have hx : x ≠ nan := by
        rintro rfl
        cases z <;> cases hxz
      exact le_of_le_of_le (fmin_le_left hx y) hxz
    · rw [List.mem_singleton.mp hz] at hnum ⊢
      exact fmin_le_right x hnum

end

/-- The number that passes a finiteness check of either language; `none` is an absent field. -/
def finiteValue : Option F64 → Option ℚ
  | some (.fin q) => some q
  | _ => none

theorem finiteValue_eq_some {x : Option F64} {q : ℚ} :
    finiteValue x = some q ↔ x = some (.fin q) := by
  match x with
  | none => simp [finiteValue]
  | some .nan => simp [finiteValue]
  | some .negInf => simp [finiteValue]
  | some (.fin _) => simp [finiteValue]
  | some .posInf => simp [finiteValue]

/-- The number, or zero where there is none. -/
def finiteOrZero (x : Option F64) : ℚ := (finiteValue x).getD 0

/-! ### On numbers -/

section
variable {rnd : ℚ → F64} {a b : ℚ}

@[simp] theorem lt_fin : lt (fin a) (fin b) = decide (a < b) := rfl

@[simp] theorem le_fin : le (fin a) (fin b) = decide (a ≤ b) := by
  rw [Bool.eq_iff_iff, le, Bool.or_eq_true, lt_fin, decide_eq_true_eq, decide_eq_true_eq]
  simp [eq, le_iff_lt_or_eq]

@[simp] theorem isFinite_fin : (fin a).isFinite = true := rfl

theorem isFinite_iff {x : F64} : x.isFinite = true ↔ ∃ q, x = fin q := by
  cases x <;> simp [isFinite]

@[simp] theorem abs_fin : abs (fin a) = fin |a| := rfl
@[simp] theorem add_fin : add rnd (fin a) (fin b) = rnd (a + b) := rfl

@[simp] theorem sub_fin : sub rnd (fin a) (fin b) = rnd (a - b) := by
  rw [sub, neg, add_fin, ← sub_eq_add_neg]

@[simp] theorem mul_fin : mul rnd (fin a) (fin b) = rnd (a * b) := rfl

theorem div_fin (h : b ≠ 0) : div rnd (fin a) (fin b) = rnd (a / b) := if_neg h

end

end AiTrader.F64
