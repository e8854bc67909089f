import Mathlib.Data.Rat.Defs
import Mathlib.Algebra.Order.Ring.Unbundled.Rat

/-! # Python values

* `F64`: the values of a double as far as comparisons see them.  Finite values are exact
  rationals; an operation that rounds is a parameter of the definitions that use one.
* `PyVal`: what `json.loads` and a tool call's argument dictionary can hold. -/

namespace AiTrader

/-- A double: a number, an infinity or not a number. -/
inductive F64 where
  | nan
  | negInf
  | fin (q : ℚ)
  | posInf
deriving DecidableEq, Repr

namespace F64

/-- IEEE `<`: false as soon as one side is not a number. -/
def lt : F64 → F64 → Bool
  | nan, _ => false
  | _, nan => false
  | negInf, negInf => false
  | negInf, _ => true
  | _, negInf => false
  | fin a, fin b => decide (a < b)
  | fin _, posInf => true
  | posInf, _ => false

/-- IEEE `==`: not a number differs from everything. -/
def eq : F64 → F64 → Bool
  | nan, _ => false
  | _, nan => false
  | a, b => decide (a = b)

/-- IEEE `<=`. -/
def le (a b : F64) : Bool := lt a b || eq a b

/-- `math.isfinite`, `f64::is_finite`. -/
def isFinite : F64 → Bool
  | fin _ => true
  | _ => false

@[simp] theorem lt_irrefl (a : F64) : lt a a = false := by
  cases a <;> simp [lt]

theorem not_lt_of_le {a b : F64} (h : le a b = true) : lt b a = false := by
  cases a <;> cases b <;> simp_all [le, lt, eq]
  rename_i p q
  rcases h with h | h
  · exact le_of_lt h
  · exact le_of_eq h

/-- The sign: `-1`, `0` or `1`. -/
def sign : F64 → ℤ
  | nan => 0
  | negInf => -1
  | posInf => 1
  | fin q => if q < 0 then -1 else if q = 0 then 0 else 1

/-- The product before rounding. -/
def mulExact : F64 → F64 → F64
  | nan, _ => nan
  | _, nan => nan
  | fin a, fin b => fin (a * b)
  | a, b =>
      if sign a * sign b = 0 then nan else if sign a * sign b < 0 then negInf else posInf

end F64

/-- A Python value built from literals, lists and dictionaries with string keys. -/
inductive PyVal where
  | none
  | bool (b : Bool)
  | int (z : ℤ)
  | float (x : F64)
  | str (s : String)
  | list (xs : List PyVal)
  | dict (kvs : List (String × PyVal))
deriving Repr

/-- `_is_finite_number`: a finite int or float, and no bool.  `math.isfinite` raises (`none`) for an
int too large for a double. -/
def isFiniteNumber : PyVal → Option Bool
  | .int z => if z.natAbs < Nat.pow 2 1024 - Nat.pow 2 970 then some true else none
  | .float x => some x.isFinite
  | _ => some false

/-- A keyword dictionary, in insertion order. -/
abbrev Kwargs := List (String × PyVal)

/-- `d.get(k)`: `None` when the key is absent. -/
def Kwargs.get (d : Kwargs) (k : String) : PyVal := (List.lookup k d).getD .none

/-- `d[k] = v`. -/
def Kwargs.set (d : Kwargs) (k : String) (v : PyVal) : Kwargs :=
  if d.any (fun kv => decide (kv.1 = k)) then
    d.map fun kv => if kv.1 = k then (k, v) else kv
  else d ++ [(k, v)]

theorem lookup_cons_ite (d : Kwargs) (k j : String) (v : PyVal) :
    List.lookup j ((k, v) :: d) = if j = k then some v else List.lookup j d := by
  by_cases h : j = k
  · subst h
    rw [List.lookup_cons_self, if_pos rfl]
  · have hbeq : (j == k) = false := beq_false_of_ne h
    rw [List.lookup_cons, hbeq, if_neg h]

theorem lookup_map_set (d : Kwargs) (k j : String) (v : PyVal) :
    List.lookup j (d.map fun kv => if kv.1 = k then (k, v) else kv) =
      if j = k then (List.lookup j d).map (fun _ => v) else List.lookup j d := by
  induction d with
  | nil => simp
  | cons kv d ih =>
      obtain ⟨k', v'⟩ := kv
      rw [List.map_cons, lookup_cons_ite]
      by_cases hk : k' = k
      · rw [if_pos hk, lookup_cons_ite, ih]
        by_cases hj : j = k
        · rw [if_pos hj, if_pos hj, if_pos (hj.trans hk.symm), Option.map_some]
        · rw [if_neg hj, if_neg hj, if_neg hj, if_neg (fun h => hj (h.trans hk))]
      · rw [if_neg hk, lookup_cons_ite, ih]
        by_cases hj : j = k
        · rw [if_neg (fun h => hk (h.symm.trans hj)), if_pos hj, if_pos hj,
            if_neg (fun h => hk (h.symm.trans hj))]
        · rw [if_neg hj, if_neg hj]

theorem Kwargs.get_set_self (d : Kwargs) (k : String) (v : PyVal) : (d.set k v).get k = v := by
  unfold Kwargs.set Kwargs.get
  split
  · rename_i h
    obtain ⟨kv, hkv, hk⟩ := List.any_eq_true.mp h
    have hsome : (List.lookup k d).isSome = true :=
      List.lookup_isSome_iff.mpr ⟨kv, hkv, beq_iff_eq.mpr (of_decide_eq_true hk).symm⟩
    obtain ⟨w, hw⟩ := Option.isSome_iff_exists.mp hsome
    rw [lookup_map_set, if_pos rfl, hw]
    rfl
  · rename_i h
    have hnone : List.lookup k d = Option.none := by
      rw [List.lookup_eq_none_iff]
      intro kv hkv
      have hne : kv.1 ≠ k := fun hk => h (List.any_eq_true.mpr ⟨kv, hkv, decide_eq_true hk⟩)
      exact bne_iff_ne.mpr (Ne.symm hne)
    rw [List.lookup_append, hnone, lookup_cons_ite, if_pos rfl]
    rfl

theorem Kwargs.get_set_of_ne {d : Kwargs} {k j : String} {v : PyVal} (h : j ≠ k) :
    (d.set k v).get j = d.get j := by
  unfold Kwargs.set Kwargs.get
  split
  · rw [lookup_map_set, if_neg h]
  · rw [List.lookup_append, lookup_cons_ite, if_neg h, List.lookup_nil, Option.or_none]

namespace PyVal

/-- Truthiness, as `bool(v)`. -/
def truthy : PyVal → Bool
  | none => false
  | bool b => b
  | int z => decide (z ≠ 0)
  | float x => !(F64.eq x (.fin 0))
  | str s => decide (s ≠ "")
  | list xs => !xs.isEmpty
  | dict kvs => !kvs.isEmpty

end PyVal

end AiTrader
