import AiTrader.Float
import AiTrader.Text
import Mathlib.Data.List.Induction
import Mathlib.Algebra.Order.Field.Rat

/-! # Option chain snapshots

`src/agents/deep-quant-loop/options.py`: the quotes of a chain, strike by strike, and the guards
that every analytic reads them through.  `none` is `None`; a field that is present may still be
infinite or not a number. -/

namespace AiTrader.Options

open F64 (finiteValue finiteValue_eq_some finiteOrZero)

/-- `StrikeQuote`. -/
structure StrikeQuote where
  strike : F64
  cePrice : Option F64 := none
  pePrice : Option F64 := none
  ceOi : Option F64 := none
  peOi : Option F64 := none
  deriving DecidableEq

/-- `ChainSnapshot`. -/
structure ChainSnapshot where
  strikes : List StrikeQuote
  deriving DecidableEq

/-- The two sides of a chain. -/
inductive OptionKind where
  | call
  | put
  deriving DecidableEq

/-- `_normalize_option_type`. -/
def normalizeOptionType (C : Text.Casing) (optionType : String) : Option OptionKind :=
  let tag := C.lower (Text.strip optionType)
  if tag ∈ ["ce", "c", "call"] then some .call
  else if tag ∈ ["pe", "p", "put"] then some .put
  else none

/-- `_is_finite`. -/
def isFinite (x : Option F64) : Bool := x.any F64.isFinite

/-- One entry of `_sum_finite`. -/
def addFinite (rnd : ℚ → F64) (total : F64) : Option F64 → F64
  | some x => if x.isFinite then F64.add rnd total x else total
  | none => total

/-- `_sum_finite`. -/
def sumFinite (rnd : ℚ → F64) (values : List (Option F64)) : F64 :=
  values.foldl (addFinite rnd) (.fin 0)

@[simp] theorem isFinite_some (x : F64) : isFinite (some x) = x.isFinite := rfl
@[simp] theorem isFinite_none : isFinite none = false := rfl

theorem isFinite_eq (x : Option F64) : isFinite x = (finiteValue x).isSome := by
  match x with
  | none => rfl
  | some .nan => rfl
  | some .negInf => rfl
  | some (.fin _) => rfl
  | some .posInf => rfl

/-- The numbers among the listed strikes. -/
def listedStrikes (strikes : List StrikeQuote) : List ℚ :=
  strikes.filterMap fun q => finiteValue (some q.strike)

theorem mem_listedStrikes {strikes : List StrikeQuote} {k : ℚ} :
    k ∈ listedStrikes strikes ↔ ∃ q ∈ strikes, q.strike = .fin k := by
  simp [listedStrikes, finiteValue_eq_some]

theorem listedStrikes_cons {q : StrikeQuote} {k : ℚ} (hq : q.strike = .fin k)
    (strikes : List StrikeQuote) : listedStrikes (q :: strikes) = k :: listedStrikes strikes :=
  List.filterMap_cons_some (finiteValue_eq_some.mpr (congrArg some hq))

/-- The running totals of a list are numbers that `rnd` does not change. -/
def TotalsExact (rnd : ℚ → F64) (values : List (Option F64)) : Prop :=
  ∀ seen, seen <+: values → rnd (seen.map finiteOrZero).sum = .fin (seen.map finiteOrZero).sum

/-- A total that needs no rounding on its way is the sum of the numbers present.  Induction from
the last entry on. -/
theorem sumFinite_of_exact {rnd : ℚ → F64} {values : List (Option F64)}
    (h : TotalsExact rnd values) :
    sumFinite rnd values = .fin (values.map finiteOrZero).sum := by
  induction values using List.reverseRecOn with
  | nil => rfl
  | append_singleton values v ih =>
      have ih := ih fun seen hseen => h seen (hseen.trans (List.prefix_append values [v]))
      have hlast := h _ List.prefix_rfl
      rw [sumFinite] at ih ⊢
      rw [List.foldl_append, ih, List.foldl_cons, List.foldl_nil]
      rw [List.map_append, List.sum_append, List.map_singleton, List.sum_singleton] at hlast ⊢
      match v with
      | none => simp [addFinite, finiteOrZero, finiteValue]
      | some .nan => simp [addFinite, finiteOrZero, finiteValue, F64.isFinite]
      | some .negInf => simp [addFinite, finiteOrZero, finiteValue, F64.isFinite]
      | some (.fin q) => simpa [addFinite, finiteOrZero, finiteValue] using hlast
      | some .posInf => simp [addFinite, finiteOrZero, finiteValue, F64.isFinite]

end AiTrader.Options
