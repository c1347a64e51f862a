/-
This file says which doubles denote a natural number, and proves that the way from a whole number of
32 bits to a double is exact: a mantissa has room for 53 bits, so none is rounded off.
-/

import Mathlib
import SolidScript.Proofs.Doubles

namespace SolidScript

open Float.Model

/-- The double denotes the natural number. With a minus sign it denotes none but zero. -/
def Counts (x : Float) (count : Nat) : Prop :=
  ∃ negative mantissa exponent, Binary64.ofFloat x = .finite negative mantissa exponent ∧
    (negative = true → count = 0) ∧
      mantissa * 2 ^ exponent.toNat = count * 2 ^ (-exponent).toNat

/-- Nothing of a whole number is cut off. -/
theorem Binary64.wholePart_eq {mantissa count : Nat} {exponent : Int}
    (same : mantissa * 2 ^ exponent.toNat = count * 2 ^ (-exponent).toNat) :
    Binary64.wholePart mantissa exponent = count := by
  rw [Binary64.wholePart]
  by_cases whole : 0 ≤ exponent
  · rw [if_pos whole, Nat.shiftLeft_eq, same, Int.toNat_eq_zero.mpr (by omega), Nat.pow_zero,
      Nat.mul_one]
  · rw [if_neg whole, Nat.shiftRight_eq_div_pow]
    rw [Int.toNat_eq_zero.mpr (by omega), Nat.pow_zero, Nat.mul_one] at same
    rw [same, Nat.mul_div_cancel _ (Nat.two_pow_pos _)]

/-! ### Whole numbers as doubles -/

/-- A mantissa of 53 bits survives the bits of a double. -/
theorem unpack_pack {sign : UnpackedFloat.Sign} {mantissa : Nat} {exponent : Int}
    {positive : 0 < mantissa} (full : mantissa.log2 = 52) (least : -1074 ≤ exponent)
    (greatest : exponent ≤ 971) :
    (Float.Model.pack (.finite sign mantissa exponent positive)).unpack =
      .finite sign mantissa exponent positive := by
  have bounds := (Nat.log2_eq_iff (Nat.ne_of_gt positive)).mp full
  have biased : (exponent + Format.binary64.exponentBias +
      Format.binary64.mantissaBitsWithoutImplicit).toNat = (exponent + 1075).toNat := by
    show (exponent + (1023 : Nat) + (52 : Nat)).toNat = (exponent + 1075).toNat
    omega
  have stored : (BitVec.ofNat 11 (exponent + 1075).toNat).toNat = (exponent + 1075).toNat := by
    rw [BitVec.toNat_ofNat]
    omega
  have finite : BitVec.ofNat 11 (exponent + 1075).toNat ≠ -1#11 := by
    intro equal
    rw [equal] at stored
    have : (-1#11).toNat = 2047 := rfl
    omega
  have normal : BitVec.ofNat 11 (exponent + 1075).toNat ≠ 0#11 := by
    intro equal
    rw [equal] at stored
    have : (0#11).toNat = 0 := rfl
    omega
  show UnpackedFloat.unpack Format.binary64 (UnpackedFloat.pack Format.binary64 _) = _
  simp only [UnpackedFloat.pack, full, biased]
  rw [if_neg (by omega), if_pos (show 52 + 1 = Format.binary64.mantissaBits from rfl)]
  simp only [UnpackedFloat.unpack, UnpackedFloat.unpackMantissa_packComponents,
    UnpackedFloat.unpackExponent_packComponents, UnpackedFloat.unpackSign_packComponents,
    UnpackedFloat.Sign.ofBitVec_toBitVec]
  rw [if_neg finite, if_neg normal]
  congr 1
  · rw [toNat_implicit, BitVec.toNat_ofNat]
    omega
  · have bias : ((Format.binary64.exponentBias : Nat) : Int) = 1023 := rfl
    rw [stored, bias]
    omega

/-- A mantissa of 53 bits is not rounded. -/
theorem roundWithAccuracy_full {mantissa : Nat} {exponent : Int} (full : mantissa.log2 = 52)
    (positive : 0 < mantissa) (least : -1074 ≤ exponent) :
    UnpackedFloat.roundWithAccuracy Format.binary64 .positive mantissa exponent .exact =
      .finite .positive mantissa exponent positive := by
  have target :
      Format.binary64.targetExponent (totalExponent mantissa exponent) = exponent := by
    have precision : ((Format.binary64.mantissaBits : Nat) : Int) = 53 := rfl
    have lowest : Format.binary64.minExponent = -1074 := rfl
    rw [Format.targetExponent, totalExponent, full, precision, lowest]
    omega
  have shifted : UnpackedFloat.shiftToTargetExponent Format.binary64 mantissa exponent .exact =
      (⟨mantissa, false, false⟩, exponent) := by
    rw [UnpackedFloat.shiftToTargetExponent, target, UnpackedFloat.shiftToExponent, Int.sub_self]
    exact congrArg (Prod.mk _) (Int.add_zero exponent)
  have kept : UnpackedFloat.ExtendedMantissa.roundedMantissa ⟨mantissa, false, false⟩ = mantissa :=
    rfl
  simp only [UnpackedFloat.roundWithAccuracy, shifted, kept]
  rw [dif_neg (Nat.ne_of_gt positive)]

/-- The number with its leading bit moved to the leading bit of a mantissa. -/
theorem log2_aligned {count : Nat} (positive : 0 < count) (small : count < 2 ^ 53) :
    (count <<< (52 - count.log2)).log2 = 52 := by
  have nonzero : count ≠ 0 := Nat.ne_of_gt positive
  have room : count.log2 < 53 := (Nat.log2_lt nonzero).mpr small
  have bounds := (Nat.log2_eq_iff nonzero).mp rfl
  have split : 2 ^ 52 = 2 ^ count.log2 * 2 ^ (52 - count.log2) := by
    rw [← Nat.pow_add]
    congr 1
    omega
  rw [Nat.shiftLeft_eq,
    Nat.log2_eq_iff (Nat.ne_of_gt (Nat.mul_pos positive (Nat.two_pow_pos _))), Nat.pow_succ 2 52,
    split, Nat.mul_right_comm]
  exact ⟨Nat.mul_le_mul_right _ bounds.1,
    Nat.mul_lt_mul_of_pos_right bounds.2 (Nat.two_pow_pos _)⟩

theorem round_natural {count : Nat} (positive : 0 < count) (small : count < 2 ^ 53)
    (shifted : 0 < count <<< (52 - count.log2)) :
    UnpackedFloat.round Format.binary64 .positive count 0 =
      .finite .positive (count <<< (52 - count.log2)) (count.log2 - 52) shifted := by
  have room : count.log2 < 53 := (Nat.log2_lt (Nat.ne_of_gt positive)).mpr small
  have target : Format.binary64.targetExponent (totalExponent count 0) = count.log2 - 52 := by
    have precision : ((Format.binary64.mantissaBits : Nat) : Int) = 53 := rfl
    have lowest : Format.binary64.minExponent = -1074 := rfl
    rw [Format.targetExponent, totalExponent, precision, lowest]
    omega
  have amount : ((0 : Int) - (count.log2 - 52)).toNat = 52 - count.log2 := by omega
  have lowered : (0 : Int) - (52 - count.log2 : Nat) = count.log2 - 52 := by omega
  rw [UnpackedFloat.round, target, UnpackedFloat.decreaseExponent, amount]
  simp only [lowered]
  exact roundWithAccuracy_full (log2_aligned positive small) shifted (by omega)

/-- A whole number of 32 bits is a double. -/
theorem counts_toFloat (count : UInt32) : Counts count.toFloat count.toNat := by
  by_cases zero : count.toNat = 0
  · rw [UInt32.toNat_inj.mp (show count.toNat = (0 : UInt32).toNat from zero)]
    refine ⟨false, 0, -1074, rfl, fun _ => rfl, ?_⟩
    rw [UInt32.toNat_zero, Nat.zero_mul, Nat.zero_mul]
  have small : count.toNat < 2 ^ 53 := Nat.lt_trans count.toNat_lt (by decide)
  have positive : 0 < count.toNat := Nat.pos_of_ne_zero zero
  have shifted : 0 < count.toNat <<< (52 - count.toNat.log2) := by
    rw [Nat.shiftLeft_eq]
    exact Nat.mul_pos positive (Nat.two_pow_pos _)
  have room : count.toNat.log2 < 53 := (Nat.log2_lt zero).mpr small
  have unpacked : count.toFloat.toModel.unpack =
      .finite .positive (count.toNat <<< (52 - count.toNat.log2)) (count.toNat.log2 - 52)
        shifted := by
    show (Float.Model.pack (UnpackedFloat.normalize Format.binary64 count.toNat 0 .positive)).unpack
      = _
    rw [UnpackedFloat.normalize, Int.compare_eq_gt.mpr (by omega)]
    simp only [Int.toNat_natCast, round_natural positive small shifted]
    exact unpack_pack (log2_aligned positive small) (by omega) (by omega)
  refine ⟨false, count.toNat <<< (52 - count.toNat.log2), count.toNat.log2 - 52, ?_,
    fun negative => Bool.noConfusion negative, ?_⟩
  · rw [Binary64.ofFloat, unpacked]
    rfl
  · rw [Nat.shiftLeft_eq, Int.toNat_eq_zero.mpr (by omega), Nat.pow_zero, Nat.mul_one]
    congr 2
    omega

end SolidScript
