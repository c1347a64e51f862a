/-
This file proves that the difference and the quotient of two doubles are the doubles nearest to the
exact difference and quotient. What is behind the last bit of a mantissa is kept in two bits, and
these tell enough to round. The results are packed into the bits of a double and read back without
a change, unless they are too great for a double.
-/

import SolidScript.Proofs.Number.Counting
import SolidScript.Proofs.Number.Nearest

namespace SolidScript

open Float.Model

/-! ### Packing -/

/-- A subnormal mantissa survives the bits of a double. -/
theorem unpack_pack_subnormal {sign : UnpackedFloat.Sign} {mantissa : ℕ}
    {positive : 0 < mantissa} (small : mantissa < 2 ^ 52) :
    (Float.Model.pack (.finite sign mantissa (-1074) positive)).unpack =
      .finite sign mantissa (-1074) positive := by
  have short : mantissa.log2 < 52 := (Nat.log2_lt positive.ne').mpr small
  have stored : (BitVec.ofNat 52 mantissa).toNat = mantissa := by
    rw [BitVec.toNat_ofNat]
    exact Nat.mod_eq_of_lt small
  have nonzero : BitVec.ofNat 52 mantissa ≠ 0#52 := by
    intro equal
    rw [equal] at stored
    exact positive.ne stored
  have finite : (0#11) ≠ -1#11 := by decide
  have bounded : ¬ 2 ^ 11 ≤ (-1074 + (Format.binary64.exponentBias : ℤ) + (52 : ℕ)).toNat + 1 := by
    decide
  have missing : ¬ mantissa.log2 + 1 = Format.binary64.mantissaBits := by
    show ¬ mantissa.log2 + 1 = 1 + 52
    omega
  show UnpackedFloat.unpack Format.binary64 (UnpackedFloat.pack Format.binary64 _) = _
  simp only [UnpackedFloat.pack]
  rw [if_neg bounded, if_neg missing]
  simp only [UnpackedFloat.unpack, UnpackedFloat.unpackMantissa_packComponents,
    UnpackedFloat.unpackExponent_packComponents, UnpackedFloat.unpackSign_packComponents,
    UnpackedFloat.Sign.ofBitVec_toBitVec]
  rw [if_neg finite, if_pos trivial, dif_neg nonzero]
  congr 1

/-- The parts of a double survive its bits. -/
theorem unpack_pack_double {sign : UnpackedFloat.Sign} {mantissa : ℕ} {exponent : ℤ}
    {positive : 0 < mantissa} (double : IsDouble mantissa exponent) :
    (Float.Model.pack (.finite sign mantissa exponent positive)).unpack =
      .finite sign mantissa exponent positive := by
  rcases Nat.lt_or_ge mantissa (2 ^ 52) with short | full
  · obtain rfl := double.normal.resolve_right (by omega)
    exact unpack_pack_subnormal short
  · have bits := (Nat.log2_eq_iff positive.ne').mpr ⟨full, double.small⟩
    exact unpack_pack bits double.least double.greatest

/-- An exponent that is too great for a double is packed as infinity. -/
theorem unpack_pack_overflow {sign : UnpackedFloat.Sign} {mantissa : ℕ} {exponent : ℤ}
    {positive : 0 < mantissa} (great : 971 < exponent) :
    (Float.Model.pack (.finite sign mantissa exponent positive)).unpack = .infinity sign := by
  have packed : UnpackedFloat.pack Format.binary64 (.finite sign mantissa exponent positive) =
      UnpackedFloat.packedInfinity Format.binary64 sign := by
    refine if_pos ?_
    show 2 ^ 11 ≤ (exponent + (1023 : ℕ) + (52 : ℕ)).toNat + 1
    omega
  show UnpackedFloat.unpack Format.binary64 (UnpackedFloat.pack Format.binary64 _) = _
  rw [packed]
  cases sign <;> rfl

namespace Binary64

/-- What a double denotes, told from its parts. -/
def ofUnpacked : UnpackedFloat → Binary64
  | .notANumber => .nan
  | .infinity sign => .infinite (sign == .negative)
  | .zero sign => .finite (sign == .negative) 0 leastExponent
  | .finite sign mantissa exponent _ => .finite (sign == .negative) mantissa exponent

theorem ofFloat_eq (x : Float) : ofFloat x = ofUnpacked x.toModel.unpack := by
  unfold ofFloat
  cases x.toModel.unpack <;> rfl

end Binary64

/-- The parts of the number with the mantissa and the exponent. -/
def assemble (sign : UnpackedFloat.Sign) (mantissa : ℕ) (exponent : ℤ) : UnpackedFloat :=
  if zero : mantissa = 0 then .zero sign
  else .finite sign mantissa exponent (Nat.pos_of_ne_zero zero)

/-- A rounded number is read back from the bits of a double as itself, or as infinity. -/
theorem ofUnpacked_pack_assemble (sign : UnpackedFloat.Sign) {mantissa : ℕ} {exponent : ℤ}
    (canonical : Canonical mantissa exponent) :
    Binary64.ofUnpacked (Float.Model.pack (assemble sign mantissa exponent)).unpack =
      .bounded (sign == .negative) mantissa exponent := by
  rcases Nat.eq_zero_or_pos mantissa with rfl | positive
  · obtain rfl := canonical.normal.resolve_right (by decide)
    cases sign <;> rfl
  rw [assemble, dif_neg positive.ne', Binary64.bounded]
  rcases lt_or_ge 971 exponent with great | bounded
  · rw [unpack_pack_overflow great, if_neg (by omega)]
    rfl
  rw [if_pos bounded, unpack_pack_double (canonical.isDouble positive bounded)]
  rfl

/-! ### The bits behind a mantissa -/

/-- What an accuracy tells of a part of the last place. -/
def Fits : UnpackedFloat.Accuracy → ℚ → Prop
  | .exact, part => part = 0
  | .inexact .lt, part => 0 < part ∧ part < 1 / 2
  | .inexact .eq, part => part = 1 / 2
  | .inexact .gt, part => 1 / 2 < part ∧ part < 1

theorem Fits.bounds {accuracy : UnpackedFloat.Accuracy} {part : ℚ} (fits : Fits accuracy part) :
    0 ≤ part ∧ part < 1 := by
  match accuracy with
  | .exact | .inexact .lt | .inexact .eq | .inexact .gt =>
    rw [Fits] at fits
    constructor <;> linarith

/-- Half of a part, or of a whole and a part: the bit in front of it and whether any follows. -/
theorem Fits.halved {mantissa : ℕ} {roundBit stickyBit : Bool} {part : ℚ}
    (fits : Fits (UnpackedFloat.ExtendedMantissa.accuracy ⟨mantissa, roundBit, stickyBit⟩) part)
    (half : ℕ) :
    Fits (UnpackedFloat.ExtendedMantissa.accuracy ⟨half, false, roundBit || stickyBit⟩)
        (part / 2) ∧
      Fits (UnpackedFloat.ExtendedMantissa.accuracy ⟨half, true, roundBit || stickyBit⟩)
        ((part + 1) / 2) := by
  cases roundBit <;> cases stickyBit
  case false.false =>
    have none : part = 0 := fits
    exact ⟨show part / 2 = 0 by linarith, show (part + 1) / 2 = 1 / 2 by linarith⟩
  all_goals
    obtain ⟨low, high⟩ : 0 < part ∧ part < 1 := by
      simp only [UnpackedFloat.ExtendedMantissa.accuracy, Fits] at fits
      constructor <;> linarith
    exact ⟨show 0 < part / 2 ∧ part / 2 < 1 / 2 by constructor <;> linarith,
      show 1 / 2 < (part + 1) / 2 ∧ (part + 1) / 2 < 1 by constructor <;> linarith⟩

/-- The mantissa with the bits behind it stands for the number. -/
def StandsFor (bits : UnpackedFloat.ExtendedMantissa) (x : ℚ) : Prop :=
  Fits bits.accuracy (x - bits.mantissa)

theorem standsFor_ofMantissaAndAccuracy {mantissa : ℕ} {accuracy : UnpackedFloat.Accuracy} {x : ℚ} :
    StandsFor (.ofMantissaAndAccuracy mantissa accuracy) x ↔ Fits accuracy (x - mantissa) := by
  match accuracy with
  | .exact | .inexact .lt | .inexact .eq | .inexact .gt => exact Iff.rfl

namespace StandsFor

variable {bits : UnpackedFloat.ExtendedMantissa} {x : ℚ}

theorem floor_eq (stands : StandsFor bits x) : ⌊x⌋₊ = bits.mantissa := by
  obtain ⟨low, high⟩ := Fits.bounds stands
  have nonneg : (0 : ℚ) ≤ bits.mantissa := Nat.cast_nonneg _
  rw [Nat.floor_eq_iff (by linarith)]
  constructor <;> linarith

/-- The bits tell how to round. -/
theorem roundedMantissa_eq (stands : StandsFor bits x) :
    bits.roundedMantissa = roundEven x := by
  have whole := stands.floor_eq
  rw [UnpackedFloat.ExtendedMantissa.roundedMantissa]
  rw [StandsFor, ← whole] at stands
  rw [← whole]
  match accuracy : bits.accuracy with
  | .exact =>
    rw [accuracy, Fits] at stands
    exact (roundEven_of_lt (by linarith)).symm
  | .inexact .lt =>
    rw [accuracy] at stands
    exact (roundEven_of_lt stands.2).symm
  | .inexact .eq =>
    rw [accuracy] at stands
    exact (roundEven_of_eq stands).symm
  | .inexact .gt =>
    rw [accuracy] at stands
    exact (roundEven_of_gt stands.1).symm

theorem shiftRightOne (stands : StandsFor bits x) : StandsFor bits.shiftRightOne (x / 2) := by
  obtain ⟨mantissa, roundBit, stickyBit⟩ := bits
  obtain ⟨even', odd'⟩ := Fits.halved stands (mantissa / 2)
  have split := congrArg (Nat.cast : ℕ → ℚ) (Nat.div_add_mod mantissa 2)
  push_cast at split
  rw [StandsFor, UnpackedFloat.ExtendedMantissa.shiftRightOne]
  dsimp only
  rcases Nat.mod_two_eq_zero_or_one mantissa with even | odd
  · rw [even, Nat.cast_zero] at split
    have half : x / 2 - (mantissa / 2 : ℕ) = (x - mantissa) / 2 := by linarith
    rw [even, half]
    exact even'
  · rw [odd, Nat.cast_one] at split
    have half : x / 2 - (mantissa / 2 : ℕ) = (x - mantissa + 1) / 2 := by linarith
    rw [odd, half]
    exact odd'

theorem shiftRight (stands : StandsFor bits x) (count : ℕ) :
    StandsFor (bits >>> count) (x / 2 ^ count) := by
  show StandsFor (count.repeat UnpackedFloat.ExtendedMantissa.shiftRightOne bits) (x / 2 ^ count)
  induction count with
  | zero =>
    rw [pow_zero, div_one]
    exact stands
  | succ count inductionHypothesis =>
    rw [pow_succ, ← div_div]
    exact inductionHypothesis.shiftRightOne

end StandsFor

/-- What is left of a whole division tells which part of the last place is missing. -/
theorem fits_accuracyOfFraction {rest divisor : ℕ} (below : rest < divisor) :
    Fits (UnpackedFloat.accuracyOfFraction rest divisor) (rest / divisor) := by
  have some' : (0 : ℚ) < divisor := by exact_mod_cast Nat.zero_lt_of_lt below
  rw [UnpackedFloat.accuracyOfFraction]
  split
  next none =>
    rw [none, Nat.cast_zero, zero_div]
    rfl
  next more =>
    have positive : (0 : ℚ) < rest / divisor := by
      have : (0 : ℚ) < rest := by exact_mod_cast Nat.pos_of_ne_zero more
      positivity
    have less : (rest / divisor : ℚ) < 1 := by
      rw [div_lt_one some']
      exact_mod_cast below
    cases compared : compare (2 * rest) divisor with
    | lt =>
      refine ⟨positive, ?_⟩
      have : ((2 * rest : ℕ) : ℚ) < divisor := by exact_mod_cast Nat.compare_eq_lt.mp compared
      rw [div_lt_iff₀ some']
      push_cast at this
      linarith
    | eq =>
      have : ((2 * rest : ℕ) : ℚ) = divisor := by exact_mod_cast Nat.compare_eq_eq.mp compared
      show (rest / divisor : ℚ) = 1 / 2
      rw [div_eq_iff some'.ne']
      push_cast at this
      linarith
    | gt =>
      refine ⟨?_, less⟩
      have : (divisor : ℚ) < (2 * rest : ℕ) := by exact_mod_cast Nat.compare_eq_gt.mp compared
      rw [lt_div_iff₀ some']
      push_cast at this
      linarith

/-! ### Rounding -/

theorem targetExponent_eq (total : ℤ) :
    Format.binary64.targetExponent total = max (total - 53) (-1074) := rfl

/-- The last place of a number is told from the whole part of its mantissa. -/
theorem targetExponent_totalExponent {x : ℚ} {mantissa : ℕ} {exponent : ℤ} (positive : 0 < x)
    (low : mantissa * 2 ^ exponent ≤ x) (high : x < (mantissa + 1) * 2 ^ exponent)
    (enough : exponent ≤ -1074 ∨ 2 ^ 52 ≤ mantissa) :
    Format.binary64.targetExponent (totalExponent mantissa exponent) = lastExponent x ∧
      exponent ≤ lastExponent x := by
  have unit : (0 : ℚ) < 2 ^ exponent := by positivity
  rw [targetExponent_eq, totalExponent, lastExponent_of_pos positive]
  rcases Nat.eq_zero_or_pos mantissa with rfl | some'
  · have small : exponent ≤ -1074 := enough.resolve_right (by decide)
    have log : Int.log 2 x < exponent := by
      refine (Int.lt_zpow_iff_log_lt (by decide) positive).mp ?_
      rwa [Nat.cast_zero, zero_add, one_mul] at high
    have none : Nat.log2 0 = 0 := Nat.log2_zero
    omega
  · have bits := (Nat.log2_eq_iff some'.ne').mp rfl
    have least : (mantissa.log2 : ℤ) + exponent ≤ Int.log 2 x := by
      refine (Int.zpow_le_iff_le_log (by decide) positive).mp ?_
      rw [Nat.cast_ofNat, zpow_add₀ (by norm_num), zpow_natCast]
      have : (2 : ℚ) ^ mantissa.log2 ≤ mantissa := by exact_mod_cast bits.1
      exact le_trans (by gcongr) low
    have most : Int.log 2 x < mantissa.log2 + 1 + exponent := by
      refine (Int.lt_zpow_iff_log_lt (by decide) positive).mp (high.trans_le ?_)
      rw [Nat.cast_ofNat, zpow_add₀ (by norm_num),
        show (mantissa.log2 : ℤ) + 1 = (mantissa.log2 + 1 : ℕ) from rfl, zpow_natCast]
      have : (mantissa + 1 : ℚ) ≤ 2 ^ (mantissa.log2 + 1) := by exact_mod_cast bits.2
      gcongr
    have long : exponent ≤ -1074 ∨ 52 ≤ mantissa.log2 :=
      enough.imp_right (Nat.le_log2 some'.ne').mpr
    omega

/-- A rounded mantissa is moved by one place if it is a bit too long, and else is not moved. -/
theorem shiftToTargetExponent_rounded {x : ℚ} (nonneg : 0 ≤ x) :
    UnpackedFloat.shiftToTargetExponent Format.binary64 (roundEven (scaled x)) (lastExponent x)
      .exact = (⟨(rounded x).1, false, false⟩, (rounded x).2) := by
  have least := least_le_lastExponent x
  have small := roundEven_scaled_le nonneg
  rw [rounded]
  generalize roundEven (scaled x) = mantissa at small ⊢
  generalize lastExponent x = exponent at least ⊢
  rw [UnpackedFloat.shiftToTargetExponent, targetExponent_eq, totalExponent,
    UnpackedFloat.shiftToExponent]
  split
  next carries =>
    have shift : (max ((mantissa.log2 : ℤ) + 1 + exponent - 53) (-1074) - exponent).toNat = 1 := by
      rw [carries, Nat.log2_two_pow]
      omega
    rw [shift, carries]
    rfl
  next stays =>
    have short : mantissa.log2 < 53 := by
      rcases Nat.eq_zero_or_pos mantissa with rfl | positive
      · decide
      · exact (Nat.log2_lt positive.ne').mpr (Nat.lt_of_le_of_ne small stays)
    have shift : (max ((mantissa.log2 : ℤ) + 1 + exponent - 53) (-1074) - exponent).toNat = 0 := by
      omega
    rw [shift]
    exact congrArg (Prod.mk _) (Int.add_zero exponent)

/-- A mantissa with enough bits is rounded to the nearest one. -/
theorem roundWithAccuracy_eq {x : ℚ} {mantissa : ℕ} {exponent : ℤ}
    {accuracy : UnpackedFloat.Accuracy} (sign : UnpackedFloat.Sign) (positive : 0 < x)
    (fits : Fits accuracy (x / 2 ^ exponent - mantissa))
    (enough : exponent ≤ -1074 ∨ 2 ^ 52 ≤ mantissa) :
    UnpackedFloat.roundWithAccuracy Format.binary64 sign mantissa exponent accuracy =
      assemble sign (rounded x).1 (rounded x).2 := by
  have unit : (0 : ℚ) < 2 ^ exponent := by positivity
  obtain ⟨low, high⟩ := fits.bounds
  obtain ⟨target, within⟩ := targetExponent_totalExponent positive
    ((le_div_iff₀ unit).mp (sub_nonneg.mp low)) ((div_lt_iff₀ unit).mp (by linarith)) enough
  obtain ⟨shift, distance⟩ := Int.eq_ofNat_of_zero_le (Int.sub_nonneg_of_le within)
  have last : lastExponent x = exponent + shift := by omega
  have first : UnpackedFloat.shiftToTargetExponent Format.binary64 mantissa exponent accuracy =
      (UnpackedFloat.ExtendedMantissa.ofMantissaAndAccuracy mantissa accuracy >>> shift,
        lastExponent x) := by
    rw [UnpackedFloat.shiftToTargetExponent, target, UnpackedFloat.shiftToExponent, distance,
      Int.toNat_natCast, last]
  have kept : (UnpackedFloat.ExtendedMantissa.ofMantissaAndAccuracy mantissa accuracy >>>
      shift).roundedMantissa = roundEven (scaled x) := by
    have shifted := (standsFor_ofMantissaAndAccuracy.mpr fits).shiftRight shift
    rw [shifted.roundedMantissa_eq, scaled, last, zpow_add₀ (by norm_num), zpow_natCast, div_div]
  simp only [UnpackedFloat.roundWithAccuracy, first, kept,
    shiftToTargetExponent_rounded positive.le, assemble]

/-- A natural number times a power of two is rounded to the nearest number. -/
theorem round_assemble (sign : UnpackedFloat.Sign) {mantissa : ℕ} (positive : 0 < mantissa)
    (exponent : ℤ) :
    UnpackedFloat.round Format.binary64 sign mantissa exponent =
      assemble sign (rounded (mantissa * 2 ^ exponent)).1
        (rounded (mantissa * 2 ^ exponent)).2 := by
  rw [UnpackedFloat.round, targetExponent_eq, totalExponent, UnpackedFloat.decreaseExponent]
  dsimp only
  generalize amount :
    (exponent - max ((mantissa.log2 : ℤ) + 1 + exponent - 53) (-1074)).toNat = shift
  have same :
      ((mantissa <<< shift : ℕ) : ℚ) * 2 ^ (exponent - shift) = mantissa * 2 ^ exponent := by
    rw [Nat.shiftLeft_eq, zpow_sub₀ (by norm_num), zpow_natCast]
    push_cast
    field_simp
  have enough : exponent - shift ≤ -1074 ∨ 2 ^ 52 ≤ mantissa <<< shift := by
    rcases Int.lt_or_le (-1074) (exponent - shift) with above | least
    · have long : 52 ≤ mantissa.log2 + shift := by omega
      have bits := Nat.log2_self_le positive.ne'
      refine Or.inr ?_
      calc 2 ^ 52 ≤ 2 ^ (mantissa.log2 + shift) := Nat.pow_le_pow_right (by decide) long
        _ = 2 ^ mantissa.log2 * 2 ^ shift := Nat.pow_add ..
        _ ≤ mantissa * 2 ^ shift := Nat.mul_le_mul_right _ bits
        _ = mantissa <<< shift := (Nat.shiftLeft_eq ..).symm
    · exact Or.inl least
  refine roundWithAccuracy_eq sign (by positivity) ?_ enough
  rw [← same, mul_div_cancel_right₀ _ (by positivity), sub_self]
  rfl

/-! ### Differences and quotients -/

/-- The number with the sign and the magnitude. -/
def signed (sign : UnpackedFloat.Sign) (x : ℚ) : ℚ := (if sign == .negative then -1 else 1) * x

theorem signed_negative (x : ℚ) : signed .negative x = -x := neg_one_mul x

theorem signed_positive (x : ℚ) : signed .positive x = x := one_mul x

theorem signed_neg (sign : UnpackedFloat.Sign) (x : ℚ) : signed (-sign) x = -signed sign x := by
  cases sign
  · exact (signed_positive x).trans (neg_eq_iff_eq_neg.mp (signed_negative x).symm)
  · exact (signed_negative x).trans (congrArg Neg.neg (signed_positive x).symm)

theorem signed_mul (sign : UnpackedFloat.Sign) (x y : ℚ) :
    signed sign x * y = signed sign (x * y) := mul_assoc ..

theorem signed_div (first second : UnpackedFloat.Sign) (x y : ℚ) :
    signed (first / second) (x / y) = signed first x / signed second y := by
  cases first <;> cases second <;> simp only [signed_negative, signed_positive]
  · exact (signed_positive _).trans (neg_div_neg_eq x y).symm
  · exact (signed_negative _).trans (neg_div y x).symm
  · exact (signed_negative _).trans (div_neg x).symm
  · exact signed_positive _

theorem cast_apply (sign : UnpackedFloat.Sign) (mantissa : ℕ) :
    ((sign.apply mantissa : ℤ) : ℚ) = signed sign mantissa := by
  cases sign
  · rw [signed_negative]
    exact Int.cast_neg _
  · exact (signed_positive _).symm

namespace Binary64

/-- The sign is kept apart when a number is rounded. -/
theorem nearest_signed (sign : UnpackedFloat.Sign) {x : ℚ} (positive : 0 < x) :
    nearest (signed sign x) = bounded (sign == .negative) (rounded x).1 (rounded x).2 := by
  cases sign
  · rw [nearest, signed_negative, abs_neg, abs_of_pos positive, decide_eq_true (by linarith)]
    rfl
  · rw [nearest, signed_positive, abs_of_pos positive, decide_eq_false (by linarith)]
    rfl

theorem ofUnpacked_assemble_rounded (sign : UnpackedFloat.Sign) {x : ℚ} (positive : 0 < x) :
    ofUnpacked (Float.Model.pack (assemble sign (rounded x).1 (rounded x).2)).unpack =
      nearest (signed sign x) := by
  rw [ofUnpacked_pack_assemble sign (rounded_canonical positive.le), nearest_signed sign positive]

theorem ofUnpacked_normalize {mantissa : ℤ} (nonzero : mantissa ≠ 0) (exponent : ℤ)
    (zeroSign : UnpackedFloat.Sign) :
    ofUnpacked (Float.Model.pack
      (UnpackedFloat.normalize Format.binary64 mantissa exponent zeroSign)).unpack =
        nearest (mantissa * 2 ^ exponent) := by
  rcases lt_or_gt_of_ne nonzero with below | above
  · obtain ⟨count, rfl⟩ : ∃ count : ℕ, mantissa = -count := ⟨(-mantissa).toNat, by omega⟩
    have positive : 0 < count := by omega
    have number : ((-count : ℤ) * 2 ^ exponent : ℚ) = signed .negative (count * 2 ^ exponent) := by
      rw [signed_negative]
      push_cast
      exact neg_mul ..
    rw [UnpackedFloat.normalize, Int.compare_eq_lt.mpr below, number]
    dsimp only
    rw [neg_neg, Int.toNat_natCast, round_assemble .negative positive]
    exact ofUnpacked_assemble_rounded .negative (by positivity)
  · obtain ⟨count, rfl⟩ := Int.eq_ofNat_of_zero_le above.le
    have positive : 0 < count := by omega
    have number : ((count : ℤ) * 2 ^ exponent : ℚ) = signed .positive (count * 2 ^ exponent) := by
      rw [signed_positive, Int.cast_natCast]
    rw [UnpackedFloat.normalize, Int.compare_eq_gt.mpr above, number]
    dsimp only
    rw [Int.toNat_natCast, round_assemble .positive positive]
    exact ofUnpacked_assemble_rounded .positive (by positivity)

/-- What a double denotes is not rounded. -/
theorem ofUnpacked_double (sign : UnpackedFloat.Sign) {mantissa : ℕ} {exponent : ℤ}
    (positive : 0 < mantissa) (double : IsDouble mantissa exponent) :
    ofUnpacked (Float.Model.pack (.finite sign mantissa exponent positive)).unpack =
      nearest (signed sign (mantissa * 2 ^ exponent)) := by
  rw [nearest_signed sign (by positivity), rounded_of_canonical double.canonical, bounded,
    if_pos double.greatest, unpack_pack_double double]
  rfl

end Binary64

/-- The rational number that a finite double denotes. -/
def amount (x : Float) : ℚ := (Binary64.ofFloat x).value

/-- What a finite double is made of. -/
inductive Consists : UnpackedFloat → ℚ → Prop where
  | zero (sign : UnpackedFloat.Sign) : Consists (.zero sign) 0
  | finite (sign : UnpackedFloat.Sign) {mantissa : ℕ} {exponent : ℤ} (positive : 0 < mantissa)
      (double : IsDouble mantissa exponent) :
      Consists (.finite sign mantissa exponent positive) (signed sign (mantissa * 2 ^ exponent))

theorem consists_of_finite {x : Float} (finite : x.isFinite = true) :
    Consists x.toModel.unpack (amount x) := by
  have number : x.toModel.unpack.isFinite = true := finite
  rw [amount, Binary64.ofFloat_eq]
  cases unpacked : x.toModel.unpack with
  | notANumber | infinity =>
    rw [unpacked] at number
    contradiction
  | zero sign =>
    have none : (Binary64.ofUnpacked (.zero sign)).value = 0 := by
      rw [Binary64.ofUnpacked, Binary64.value, Nat.cast_zero, zero_mul, mul_zero]
    rw [none]
    exact .zero sign
  | finite sign mantissa exponent positive =>
    exact .finite sign positive (isDouble_of_unpack unpacked)

theorem isFinite_of_ofFloat {x : Float} {negative : Bool} {mantissa : ℕ} {exponent : ℤ}
    (finite : Binary64.ofFloat x = .finite negative mantissa exponent) : x.isFinite = true := by
  rw [Binary64.ofFloat_eq] at finite
  show x.toModel.unpack.isFinite = true
  cases unpacked : x.toModel.unpack with
  | notANumber | infinity =>
    rw [unpacked] at finite
    cases finite
  | zero | finite => rfl

/-- Mantissas that are moved to the lesser exponent are subtracted without a loss. -/
theorem aligned_sub (first second : UnpackedFloat.Sign) (m n : ℕ) (d e : ℤ) :
    ((first.apply (m <<< (d - min d e).toNat : ℕ) -
        second.apply (n <<< (e - min d e).toNat : ℕ) : ℤ) : ℚ) * 2 ^ min d e =
      signed first (m * 2 ^ d) - signed second (n * 2 ^ e) := by
  have moved : ∀ (mantissa : ℕ) (exponent : ℤ), min d e ≤ exponent →
      ((mantissa <<< (exponent - min d e).toNat : ℕ) : ℚ) * 2 ^ min d e =
        mantissa * 2 ^ exponent := by
    intro mantissa exponent least
    obtain ⟨shift, distance⟩ := Int.eq_ofNat_of_zero_le (Int.sub_nonneg_of_le least)
    have last : exponent = shift + min d e := by omega
    rw [distance, Int.toNat_natCast, Nat.shiftLeft_eq, last, zpow_add₀ (by norm_num),
      zpow_natCast]
    push_cast
    ring
  rw [Int.cast_sub, cast_apply, cast_apply, sub_mul, signed_mul, signed_mul,
    moved m d (min_le_left d e), moved n e (min_le_right d e)]

/-- The division of mantissas gives enough bits, and tells what is left behind them. -/
theorem divCore_spec {m n : ℕ} (positive : 0 < m) (positive' : 0 < n) (d e : ℤ) :
    Fits (UnpackedFloat.divCore Format.binary64 m d n e).2.2
        ((m * 2 ^ d / (n * 2 ^ e) : ℚ) / 2 ^ (UnpackedFloat.divCore Format.binary64 m d n e).2.1 -
          (UnpackedFloat.divCore Format.binary64 m d n e).1) ∧
      ((UnpackedFloat.divCore Format.binary64 m d n e).2.1 ≤ -1074 ∨
        2 ^ 52 ≤ (UnpackedFloat.divCore Format.binary64 m d n e).1) := by
  rw [UnpackedFloat.divCore, targetExponent_eq, totalExponent, totalExponent]
  dsimp only
  generalize target :
    min (d - e) (max ((m.log2 : ℤ) + 1 + d - (n.log2 + 1 + e) - 53) (-1074)) = least
  obtain ⟨shift, distance⟩ := Int.eq_ofNat_of_zero_le (show 0 ≤ d - e - least by omega)
  rw [distance, Int.toNat_natCast]
  constructor
  · have some' : (0 : ℚ) < n := by exact_mod_cast positive'
    have last : d = e + least + shift := by omega
    have exact : (m * 2 ^ d / (n * 2 ^ e) : ℚ) / 2 ^ least = (m <<< shift : ℕ) / n := by
      rw [Nat.shiftLeft_eq, last, zpow_add₀ (by norm_num), zpow_add₀ (by norm_num), zpow_natCast]
      push_cast
      field_simp
    have whole := congrArg (Nat.cast : ℕ → ℚ) (Nat.div_add_mod (m <<< shift) n)
    push_cast at whole
    have part : ((m <<< shift : ℕ) / n : ℚ) - ((m <<< shift) / n : ℕ) =
        ((m <<< shift) % n : ℕ) / n := by
      rw [eq_div_iff some'.ne', sub_mul, div_mul_cancel₀ _ some'.ne']
      linarith
    rw [exact, part]
    exact fits_accuracyOfFraction (Nat.mod_lt _ positive')
  · rcases Int.lt_or_le (-1074) least with above | below
    · have long : n.log2 + 53 ≤ m.log2 + shift := by omega
      have bits := Nat.log2_self_le positive.ne'
      have bits' := ((Nat.log2_eq_iff positive'.ne').mp rfl).2
      refine Or.inr ((Nat.le_div_iff_mul_le positive').mpr ?_)
      calc 2 ^ 52 * n ≤ 2 ^ 52 * 2 ^ (n.log2 + 1) := Nat.mul_le_mul_left _ bits'.le
        _ = 2 ^ (n.log2 + 53) := by rw [← Nat.pow_add, Nat.add_comm, Nat.add_assoc]
        _ ≤ 2 ^ (m.log2 + shift) := Nat.pow_le_pow_right (by decide) long
        _ = 2 ^ m.log2 * 2 ^ shift := Nat.pow_add ..
        _ ≤ m * 2 ^ shift := Nat.mul_le_mul_right _ bits
        _ = m <<< shift := (Nat.shiftLeft_eq ..).symm
    · exact Or.inl below

/-- The difference of two doubles is the double nearest to the exact one. -/
theorem ofFloat_sub {x y : Float} (first : x.isFinite = true) (second : y.isFinite = true)
    (apart : amount x ≠ amount y) :
    Binary64.ofFloat (x - y) = .nearest (amount x - amount y) := by
  have left := consists_of_finite first
  have right := consists_of_finite second
  rw [Binary64.ofFloat_eq]
  show Binary64.ofUnpacked (Float.Model.pack (UnpackedFloat.sub Format.binary64
    x.toModel.unpack y.toModel.unpack)).unpack = _
  generalize x.toModel.unpack = u, amount x = a at left apart ⊢
  generalize y.toModel.unpack = v, amount y = b at right apart ⊢
  cases left with
  | zero sign =>
    cases right with
    | zero => exact absurd rfl apart
    | finite sign positive double =>
      rw [zero_sub, ← signed_neg]
      exact Binary64.ofUnpacked_double (-sign) positive double
  | @finite sign m d positive double =>
    cases right with
    | zero =>
      rw [sub_zero]
      exact Binary64.ofUnpacked_double sign positive double
    | @finite other n e positive' double' =>
      have exact := aligned_sub sign other m n d e
      have nonzero : sign.apply (m <<< (d - min d e).toNat : ℕ) -
          other.apply (n <<< (e - min d e).toNat : ℕ) ≠ 0 := by
        intro none
        rw [none, Int.cast_zero, zero_mul] at exact
        exact apart (sub_eq_zero.mp exact.symm)
      rw [← exact]
      exact Binary64.ofUnpacked_normalize nonzero (min d e) .positive

/-- The quotient of two doubles is the double nearest to the exact one. -/
theorem ofFloat_div {x y : Float} (first : x.isFinite = true) (second : y.isFinite = true)
    (dividend : amount x ≠ 0) (divisor : amount y ≠ 0) :
    Binary64.ofFloat (x / y) = .nearest (amount x / amount y) := by
  have left := consists_of_finite first
  have right := consists_of_finite second
  rw [Binary64.ofFloat_eq]
  show Binary64.ofUnpacked (Float.Model.pack (UnpackedFloat.div Format.binary64
    x.toModel.unpack y.toModel.unpack)).unpack = _
  generalize x.toModel.unpack = u, amount x = a at left dividend ⊢
  generalize y.toModel.unpack = v, amount y = b at right divisor ⊢
  cases left with
  | zero => exact absurd rfl dividend
  | @finite sign m d positive double =>
    cases right with
    | zero => exact absurd rfl divisor
    | @finite other n e positive' double' =>
      have quotient : (0 : ℚ) < m * 2 ^ d / (n * 2 ^ e) := by positivity
      obtain ⟨fits, enough⟩ := divCore_spec positive positive' d e
      rw [← signed_div, ← Binary64.ofUnpacked_assemble_rounded _ quotient,
        ← roundWithAccuracy_eq _ quotient fits enough]
      rfl

end SolidScript
