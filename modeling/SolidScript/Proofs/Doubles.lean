/-
This file holds the facts on doubles and ranges that equality and the texts of values rest on: a
double that is a number equals itself, and every range equals itself, since a range with a component
that is no number is empty. A finite double other than zero has a mantissa of 53 bits, or of fewer
and then the least exponent.
-/

import Mathlib.Algebra.Group.Nat.Defs
import SolidScript.Range

namespace SolidScript

open Float.Model

theorem compare_self {x : UnpackedFloat} (number : x.isNaN = false) : x.compare x = some .eq := by
  cases x with
  | notANumber => contradiction
  | infinity sign => cases sign <;> rfl
  | zero sign => rfl
  | finite sign mantissa exponent =>
    have same : (compare exponent exponent).then (compare mantissa mantissa) = .eq := by
      rw [Int.compare_eq_eq.mpr rfl, Nat.compare_eq_eq.mpr rfl]
      rfl
    cases sign with
    | negative => exact congrArg (fun order => some order.swap) same
    | positive => exact congrArg some same

/-- A double that is a number equals itself. -/
theorem floatOrder_self {x : Float} (number : x.isNaN = false) : floatOrder x x = some .eq := by
  have same : x.toModel.unpack.compare x.toModel.unpack = some .eq := compare_self number
  have notLess : ¬ x < x := by
    intro less
    have below : (x.toModel.unpack.compare x.toModel.unpack == some .lt) = true :=
      of_decide_eq_true less
    rw [same] at below
    contradiction
  have equal : (x == x) = true := by
    show (x.toModel.unpack.compare x.toModel.unpack == some .eq) = true
    rw [same]
    rfl
  rw [floatOrder, if_neg notLess, if_pos equal]

/-! ### Mantissas and exponents -/

/-- The numbers that are mantissas and exponents of doubles. Only with the least exponent a mantissa
has fewer than 53 bits. -/
structure IsDouble (mantissa : Nat) (exponent : Int) : Prop where
  positive : 0 < mantissa
  small : mantissa < 2 ^ 53
  least : -1074 ≤ exponent
  greatest : exponent ≤ 971
  normal : exponent = -1074 ∨ 2 ^ 52 ≤ mantissa

/-- The leading bit of a mantissa that is not stored. -/
theorem toNat_implicit (stored : BitVec 52) : (1#1 ++ stored).toNat = 2 ^ 52 + stored.toNat := by
  rw [BitVec.toNat_append, ← Nat.shiftLeft_add_eq_or_of_lt stored.isLt]
  rfl

theorem isDouble_of_unpack {bits : BitVec Format.binary64.numBits} {sign : UnpackedFloat.Sign}
    {mantissa : Nat} {exponent : Int} {positive : 0 < mantissa}
    (unpacked : UnpackedFloat.unpack Format.binary64 bits =
      .finite sign mantissa exponent positive) : IsDouble mantissa exponent := by
  have stored : (UnpackedFloat.unpackMantissa bits).toNat < 2 ^ 52 := BitVec.isLt _
  have biased : (UnpackedFloat.unpackExponent bits).toNat < 2 ^ 11 := BitVec.isLt _
  have bias : Format.binary64.exponentBias = 1023 := rfl
  unfold UnpackedFloat.unpack at unpacked
  dsimp only at unpacked
  by_cases special : UnpackedFloat.unpackExponent bits = -1#_
  · rw [if_pos special] at unpacked
    by_cases infinite : UnpackedFloat.unpackMantissa bits = 0#_
    · rw [if_pos infinite] at unpacked
      contradiction
    · rw [if_neg infinite] at unpacked
      contradiction
  rw [if_neg special] at unpacked
  by_cases subnormal : UnpackedFloat.unpackExponent bits = 0#_
  · rw [if_pos subnormal] at unpacked
    by_cases zero : UnpackedFloat.unpackMantissa bits = 0#_
    · rw [dif_pos zero] at unpacked
      contradiction
    · rw [dif_neg zero] at unpacked
      injection unpacked with _ ofMantissa ofExponent
      have least : (UnpackedFloat.unpackExponent bits).toNat = 0 := by
        rw [subnormal]
        rfl
      rw [least, bias] at ofExponent
      exact ⟨positive, by omega, by omega, by omega, by omega⟩
  · rw [if_neg subnormal] at unpacked
    injection unpacked with _ ofMantissa ofExponent
    have nonzero : (UnpackedFloat.unpackExponent bits).toNat ≠ 0 := fun zero =>
      subnormal (BitVec.eq_of_toNat_eq zero)
    have notAll : (UnpackedFloat.unpackExponent bits).toNat ≠ 2047 := fun all =>
      special (BitVec.eq_of_toNat_eq all)
    have implicit := toNat_implicit (UnpackedFloat.unpackMantissa bits)
    rw [ofMantissa] at implicit
    rw [bias] at ofExponent
    exact ⟨positive, by omega, by omega, by omega, by omega⟩

/-- A finite double other than zero is a multiple of a power of two. -/
theorem exists_isDouble {x : Float} (finite : x.isFinite = true) (nonzero : (x == 0) = false) :
    ∃ negative mantissa exponent,
      Binary64.ofFloat x = .finite negative mantissa exponent ∧ IsDouble mantissa exponent := by
  have number : x.toModel.unpack.isFinite = true := finite
  have apart : (x.toModel.unpack.compare (.zero .positive) == some .eq) = false := nonzero
  unfold Binary64.ofFloat
  cases unpacked : x.toModel.unpack with
  | notANumber | infinity =>
    rw [unpacked] at number
    contradiction
  | zero sign =>
    rw [unpacked] at apart
    contradiction
  | finite sign mantissa exponent positive =>
    exact ⟨_, mantissa, exponent, rfl, isDouble_of_unpack unpacked⟩

namespace Range

/-- Only a range of numbers has values. -/
theorem isNumber_of_count {range : Range} (some' : range.count ≠ 0) :
    range.first.isNaN = false ∧ range.step.isNaN = false ∧ range.last.isNaN = false := by
  rw [count] at some'
  split at some'
  · contradiction
  next numbers => simpa [and_assoc] using numbers

theorem order_self (range : Range) : range.order range = some .eq := by
  unfold order
  cases counted : range.count with
  | zero => rfl
  | succ count =>
    have some' : range.count ≠ 0 := by omega
    obtain ⟨first, step, _⟩ := isNumber_of_count some'
    rw [floatOrder_self first, floatOrder_self step]
    exact congrArg some (Nat.compare_eq_eq.mpr rfl)

/-- Every range equals itself, so it does not matter whether two ranges are kept in one place. -/
theorem equals_self (range : Range) : range.equals range = true := by
  rw [equals, order_self]
  rfl

end Range

end SolidScript
