/-
This file proves that the digits of a number are those of its exact value rounded to six digits,
although they are rounded twice: first to 41 digits, and then by the seventh of these. The first
rounding stays on the same side of every half-way point, since no double lies close below one.
-/

import Mathlib.Data.Int.Log
import SolidScript.Proofs.Number.Digits
import SolidScript.Proofs.Number.Spacing

namespace SolidScript

namespace Decimal

/-- The number that a decimal denotes. -/
def value (number : Decimal) : ℚ := number.coefficient * 10 ^ number.exponent

theorem value_ofBinary (mantissa : Nat) (exponent : Int) :
    (ofBinary mantissa exponent).value = mantissa * 2 ^ exponent := by
  unfold ofBinary value
  split
  next positive =>
    obtain ⟨power, rfl⟩ := Int.eq_ofNat_of_zero_le positive
    simp [Nat.shiftLeft_eq]
  next negative =>
    obtain ⟨power, rfl⟩ : ∃ power : Nat, exponent = -power := ⟨(-exponent).toNat, by omega⟩
    have five : ((Nat.pow 5 power : ℕ) : ℚ) = 5 ^ power := Nat.cast_pow 5 power
    have two : ((2 : ℚ) ^ power)⁻¹ = 5 ^ power * (10 ^ power)⁻¹ := by
      rw [show (10 : ℚ) = 5 * 2 by norm_num, mul_pow, mul_inv, mul_inv_cancel_left₀ (by positivity)]
    simp only [neg_neg, Int.toNat_natCast, zpow_neg, zpow_natCast, Nat.cast_mul, five, two]
    rw [mul_assoc]

theorem ofBinary_pos {mantissa : Nat} (positive : 0 < mantissa) (exponent : Int) :
    0 < (ofBinary mantissa exponent).coefficient := by
  unfold ofBinary
  split
  · rw [Nat.shiftLeft_eq]
    exact Nat.mul_pos positive (Nat.two_pow_pos _)
  · exact Nat.mul_pos positive (Nat.pow_pos (by decide))

variable {number : Decimal}

theorem length_digits_pos (number : Decimal) : 0 < number.digits.length := Nat.length_toDigits_pos

theorem coefficient_lt (number : Decimal) : number.coefficient < 10 ^ number.digits.length :=
  (Nat.length_toDigits_le_iff (by decide) number.length_digits_pos).mp (Nat.le_refl _)

theorem le_coefficient (positive : 0 < number.coefficient) :
    10 ^ (number.digits.length - 1) ≤ number.coefficient := by
  rcases Nat.eq_zero_or_pos (number.digits.length - 1) with single | more
  · rw [single]
    exact positive
  · refine Nat.le_of_not_lt fun below => ?_
    have shorter := (Nat.length_toDigits_le_iff (by decide) more).mpr below
    have longer := number.length_digits_pos
    unfold digits at shorter longer more
    omega

/-- The digits of a number that is less than a power of ten, but not than the one before. -/
theorem length_digits {number : Decimal} {places : Nat} (some' : 0 < places)
    (least : 10 ^ (places - 1) ≤ number.coefficient) (most : number.coefficient < 10 ^ places) :
    number.digits.length = places := by
  have below := (Nat.length_toDigits_le_iff (b := 10) (by decide) some').mpr most
  have above := Nat.pow_lt_pow_iff_right (by decide) |>.mp
    (Nat.lt_of_le_of_lt least number.coefficient_lt)
  unfold digits at *
  omega

/-- The point tells between which powers of ten a number lies. -/
theorem value_bounds (positive : 0 < number.coefficient) :
    (10 : ℚ) ^ (number.point - 1) ≤ number.value ∧ number.value < 10 ^ number.point := by
  have some' := number.length_digits_pos
  have ten : (0 : ℚ) < 10 ^ number.exponent := by positivity
  have least : ((10 ^ (number.digits.length - 1) : ℕ) : ℚ) ≤ number.coefficient := by
    exact_mod_cast le_coefficient positive
  have most : (number.coefficient : ℚ) < ((10 ^ number.digits.length : ℕ) : ℚ) := by
    exact_mod_cast number.coefficient_lt
  have first : number.point - 1 = ((number.digits.length - 1 : ℕ) : ℤ) + number.exponent := by
    rw [point]
    omega
  have last : number.point = (number.digits.length : ℤ) + number.exponent := by
    rw [point]
    omega
  rw [first, last, zpow_add₀ (by norm_num), zpow_add₀ (by norm_num), zpow_natCast, zpow_natCast,
    value]
  push_cast at least most
  constructor
  · gcongr
  · gcongr

/-! ### Rendering -/

/-- The nearest natural number is at most a half away. -/
theorem nearestEven_spec (dividend : Nat) {divisor : Nat} (positive : 0 < divisor) :
    2 * (nearestEven dividend divisor * divisor) ≤ 2 * dividend + divisor ∧
      2 * dividend ≤ 2 * (nearestEven dividend divisor * divisor) + divisor := by
  have split := Nat.div_add_mod dividend divisor
  have below := Nat.mod_lt dividend positive
  have next : (dividend / divisor + 1) * divisor = divisor * (dividend / divisor) + divisor := by
    rw [Nat.add_mul, Nat.mul_comm, Nat.one_mul]
  have same : dividend / divisor * divisor = divisor * (dividend / divisor) := Nat.mul_comm _ _
  unfold nearestEven
  dsimp only
  split
  next less =>
    have := Nat.compare_eq_lt.mp less
    omega
  next equal =>
    have := Nat.compare_eq_eq.mp equal
    rcases Nat.mod_two_eq_zero_or_one (dividend / divisor) with even | odd
    · rw [even, Nat.add_zero]
      omega
    · rw [odd]
      omega
  next greater =>
    have := Nat.compare_eq_gt.mp greater
    omega

/-- A number between two powers of ten is rounded to one between them, or to the upper one. -/
theorem nearestEven_bounds {dividend divisor low high : Nat} (positive : 0 < divisor)
    (least : low * divisor ≤ dividend) (most : dividend < high * divisor) :
    low ≤ nearestEven dividend divisor ∧ nearestEven dividend divisor ≤ high := by
  obtain ⟨upper, lower⟩ := nearestEven_spec dividend positive
  constructor
  · refine Nat.le_of_not_lt fun below => ?_
    have := Nat.mul_le_mul_right divisor (Nat.succ_le_of_lt below)
    rw [Nat.succ_mul] at this
    omega
  · refine Nat.le_of_not_lt fun above => ?_
    have := Nat.mul_le_mul_right divisor (Nat.succ_le_of_lt above)
    rw [Nat.succ_mul] at this
    omega

/-- A decimal of exactly so many digits: the multiple of their last place that is nearest to the
number, unless that is the next power of ten, which is then written with a zero less. -/
def IsRendering (places : Nat) (number result : Decimal) : Prop :=
  result.digits.length = places ∧ ∃ kept : ℕ, 10 ^ (places - 1) ≤ kept ∧
    (result = ⟨kept, number.point - places⟩ ∨
      kept = 10 ^ places ∧ result = ⟨10 ^ (places - 1), number.point - places + 1⟩) ∧
    |number.value - kept * 10 ^ (number.point - places)| ≤ 10 ^ (number.point - places) / 2

/-- A number of no more digits is rendered exactly, with zeros at the end. -/
theorem isRendering_of_short {more : Nat} (positive : 0 < number.coefficient) :
    IsRendering (number.digits.length + more) number
      ⟨number.coefficient * 10 ^ more, number.exponent - more⟩ := by
  have length := number.length_digits_pos
  have last : number.point - ((number.digits.length + more : ℕ) : ℤ) =
      number.exponent - more := by
    rw [point]
    push_cast
    ring
  have exact : number.value = (number.coefficient * 10 ^ more : ℕ) *
      10 ^ (number.exponent - more) := by
    rw [value, zpow_sub₀ (by norm_num), zpow_natCast]
    push_cast
    field_simp
  have low : 10 ^ (number.digits.length + more - 1) ≤ number.coefficient * 10 ^ more := by
    rw [show number.digits.length + more - 1 = number.digits.length - 1 + more by omega, pow_add]
    exact Nat.mul_le_mul_right _ (le_coefficient positive)
  have high : number.coefficient * 10 ^ more < 10 ^ (number.digits.length + more) := by
    rw [pow_add]
    exact Nat.mul_lt_mul_of_pos_right number.coefficient_lt (by positivity)
  refine ⟨length_digits (by omega) low high, _, low, Or.inl ?_, ?_⟩
  · rw [last]
  · rw [last, ← exact, sub_self, abs_zero]
    positivity

/-- Dropping digits changes a number by half of the last place that is kept, at most. -/
theorem abs_sub_nearestEven_le (number : Decimal) (dropped : Nat) :
    |number.value -
        nearestEven number.coefficient (10 ^ dropped) * 10 ^ (number.exponent + dropped)| ≤
      10 ^ (number.exponent + dropped) / 2 := by
  obtain ⟨upper, lower⟩ :=
    nearestEven_spec number.coefficient (show 0 < 10 ^ dropped by positivity)
  generalize nearestEven number.coefficient (10 ^ dropped) = kept at *
  have upperCast : (2 : ℚ) * (kept * 10 ^ dropped) ≤ 2 * number.coefficient + 10 ^ dropped := by
    exact_mod_cast upper
  have lowerCast : (2 : ℚ) * number.coefficient ≤ 2 * (kept * 10 ^ dropped) + 10 ^ dropped := by
    exact_mod_cast lower
  have unit : (0 : ℚ) < 10 ^ number.exponent := by positivity
  rw [zpow_add₀ (by norm_num), zpow_natCast, value, abs_le]
  constructor
  · nlinarith
  · nlinarith

theorem isRendering_rendered {places : Nat} (some' : 0 < places)
    (positive : 0 < number.coefficient) :
    IsRendering places number (number.rendered places) := by
  unfold rendered
  dsimp only
  split
  next short =>
    obtain ⟨more, rfl⟩ := Nat.exists_eq_add_of_le short
    rw [Nat.add_sub_cancel_left]
    exact isRendering_of_short positive
  next long =>
    obtain ⟨dropped, sum⟩ := Nat.exists_eq_add_of_le (Nat.le_of_not_le long)
    have last : number.point - (places : ℤ) = number.exponent + dropped := by
      rw [point]
      omega
    have least := le_coefficient positive
    have most := number.coefficient_lt
    have near := number.abs_sub_nearestEven_le dropped
    rw [sum, pow_add] at most
    rw [show number.digits.length - 1 = places - 1 + dropped by omega, pow_add] at least
    obtain ⟨low, high⟩ := nearestEven_bounds (show 0 < 10 ^ dropped by positivity) least most
    rw [sum, Nat.add_sub_cancel_left, show Nat.pow 10 dropped = 10 ^ dropped from rfl]
    rw [← last] at near ⊢
    split
    next carries =>
      refine ⟨length_digits some' (Nat.le_refl _) ?_, _, low, Or.inr ⟨carries, rfl⟩, near⟩
      exact Nat.pow_lt_pow_right (by decide) (by omega)
    next stays =>
      exact ⟨length_digits some' low (Nat.lt_of_le_of_ne high stays), _, low, Or.inl rfl, near⟩

/-- The number of the power of ten that a number begins with. -/
theorem log_value (positive : 0 < number.coefficient) :
    Int.log 10 number.value = number.point - 1 := by
  obtain ⟨least, most⟩ := value_bounds positive
  have some' : 0 < number.value := by
    unfold value
    positivity
  have low := (Int.zpow_le_iff_le_log (b := 10) (by decide) some').mp least
  have high := (Int.lt_zpow_iff_log_lt (b := 10) (by decide) some').mp most
  omega

end Decimal

/-! ### Rounding to significant digits -/

/-- What one counts for in the last of a number's leading digits. -/
def lastPlace (places : Nat) (number : ℚ) : ℚ := 10 ^ (Int.log 10 number + 1 - places)

/-- A positive number rounded to its leading digits, a half away from zero. -/
def roundedTo (places : Nat) (number : ℚ) : ℚ :=
  round (number / lastPlace places number) * lastPlace places number

namespace NumberText

variable {mantissa : Nat} {exponent : Int}

/-- The rendered digits as a multiple of a place that depends only on the number, with what tells it
from the number. A carry out of the first digit gives the multiple a digit more. -/
structure Renders (mantissa : Nat) (exponent power : Int) (kept : Nat) : Prop where
  least : (10 : ℚ) ^ power ≤ mantissa * 2 ^ exponent
  most : (mantissa * 2 ^ exponent : ℚ) < 10 ^ (power + 1)
  long : 10 ^ 40 ≤ kept
  near : |(mantissa * 2 ^ exponent - kept * 10 ^ (power - 40) : ℚ)| ≤ 10 ^ (power - 40) / 2
  rendered : rendering mantissa exponent = ⟨kept, power - 40⟩ ∨
    kept = 10 ^ 41 ∧ rendering mantissa exponent = ⟨10 ^ 40, power - 39⟩

theorem length_rendering (positive : 0 < mantissa) (exponent : Int) :
    (rendering mantissa exponent).digits.length = 41 :=
  (Decimal.isRendering_rendered (by decide) (Decimal.ofBinary_pos positive exponent)).1

theorem exists_renders (positive : 0 < mantissa) (exponent : Int) :
    ∃ kept, Renders mantissa exponent (Int.log 10 (mantissa * 2 ^ exponent : ℚ)) kept := by
  have some' := Decimal.ofBinary_pos positive exponent
  have log := Decimal.log_value some'
  obtain ⟨least, most⟩ := Decimal.value_bounds some'
  obtain ⟨_, kept, long, rendered, near⟩ :=
    Decimal.isRendering_rendered (show 0 < roundingDigits + 1 by decide) some'
  have last : (Decimal.ofBinary mantissa exponent).point - ((roundingDigits + 1 : ℕ) : ℤ) =
      Int.log 10 (Decimal.ofBinary mantissa exponent).value - 40 := by
    rw [log, roundingDigits]
    omega
  rw [last] at rendered near
  rw [← log] at least
  rw [← sub_add_cancel (Decimal.ofBinary mantissa exponent).point 1, ← log] at most
  rw [Decimal.value_ofBinary] at *
  refine ⟨kept, least, most, long, near, ?_⟩
  rcases rendered with same | ⟨carries, same⟩
  · exact Or.inl same
  · refine Or.inr ⟨carries, same.trans ?_⟩
    congr 1
    ring

theorem Renders.kept_lt_iff {power : Int} {kept : Nat}
    (renders : Renders mantissa exponent power kept) (double : IsDouble mantissa exponent)
    (whole : Nat) :
    kept < whole * 10 ^ 34 ↔ (mantissa * 2 ^ exponent : ℚ) < whole * 10 ^ (power - 6) := by
  obtain ⟨above, below⟩ := abs_le.mp renders.near
  have unit : (0 : ℚ) < 10 ^ (power - 40) := by positivity
  have scaled : (10 : ℚ) ^ (power - 6) = 10 ^ 34 * 10 ^ (power - 40) := by
    rw [show power - 6 = 34 + (power - 40) by ring, zpow_add₀ (by norm_num)]
    rfl
  constructor
  · intro less
    have next : ((kept : ℚ) + 1) ≤ whole * 10 ^ 34 := by exact_mod_cast less
    rw [scaled]
    nlinarith
  · intro less
    have apart := Spacing.half_apart double renders.least renders.most less
    rw [scaled] at apart
    have under : (kept : ℚ) * 10 ^ (power - 40) < (whole * 10 ^ 34 : ℕ) * 10 ^ (power - 40) := by
      push_cast
      linarith
    exact_mod_cast lt_of_mul_lt_mul_right under unit.le

/-- Rounding the rendered digits by the seventh one rounds the number. -/
theorem Renders.rounds {power : Int} {kept : Nat} (renders : Renders mantissa exponent power kept)
    (double : IsDouble mantissa exponent) :
    round (mantissa * 2 ^ exponent / 10 ^ (power - 5) : ℚ) = ((kept / 10 ^ 34 + 5) / 10 : ℕ) := by
  have long := renders.long
  have unit : (0 : ℚ) < 10 ^ (power - 6) := by positivity
  have scaled : (10 : ℚ) ^ (power - 5) = 10 * 10 ^ (power - 6) := by
    rw [show power - 5 = 1 + (power - 6) by ring, zpow_add₀ (by norm_num), zpow_one]
  obtain ⟨rounded, same⟩ : ∃ rounded, (kept / 10 ^ 34 + 5) / 10 = rounded + 1 :=
    ⟨(kept / 10 ^ 34 + 5) / 10 - 1, by omega⟩
  have low := (renders.kept_lt_iff double (10 * rounded + 5)).not.mp (by omega)
  have high := (renders.kept_lt_iff double (10 * rounded + 15)).mp (by omega)
  push_cast at low high
  rw [not_lt] at low
  rw [same, round_eq, Int.floor_eq_iff, scaled, div_add_div _ _ (by positivity) (by norm_num)]
  push_cast
  constructor
  · rw [le_div_iff₀ (by positivity)]
    linarith
  · rw [div_lt_iff₀ (by positivity)]
    linarith

/-- The rendering lies on the same side of every number of seven digits as the number itself. So it
never is pushed up to a half-way point between numbers of six. -/
theorem Renders.rendering_lt_iff {power : Int} {kept : Nat}
    (renders : Renders mantissa exponent power kept) (double : IsDouble mantissa exponent)
    (whole : Nat) :
    (rendering mantissa exponent).value < whole * 10 ^ (power - 6) ↔
      (mantissa * 2 ^ exponent : ℚ) < whole * 10 ^ (power - 6) := by
  have unit : (0 : ℚ) < 10 ^ (power - 40) := by positivity
  have value : (rendering mantissa exponent).value = kept * 10 ^ (power - 40) := by
    rcases renders.rendered with same | ⟨rfl, same⟩
    · rw [same, Decimal.value]
    · rw [same, Decimal.value, show power - 39 = 1 + (power - 40) by ring,
        zpow_add₀ (by norm_num), zpow_one]
      norm_num
      ring
  rw [← renders.kept_lt_iff double, value, show power - 6 = 34 + (power - 40) by ring,
    zpow_add₀ (by norm_num), ← mul_assoc, mul_lt_mul_iff_left₀ unit]
  exact_mod_cast Iff.rfl

/-! ### The digits of a number -/

/-- The digits that are shown stand for the rendered ones, rounded by the one that follows. -/
theorem significantDigits_spec {digits : List Char} {power : Int}
    (found : significantDigits mantissa exponent = (digits, power))
    (length : (rendering mantissa exponent).digits.length = 41) :
    digits.length = 6 ∧ IsDigits digits ∧ (digitsValue digits * 10 ^ (power - 5) : ℚ) =
      (((rendering mantissa exponent).coefficient / 10 ^ 34 + 5) / 10 : ℕ) *
        10 ^ ((rendering mantissa exponent).point - 6) := by
  unfold significantDigits at found
  dsimp only at found
  generalize rendering mantissa exponent = rendered at *
  have isDigits : IsDigits rendered.digits := isDigits_toDigits _
  have all : digitsValue rendered.digits = rendered.coefficient := digitsValue_toDigits _
  have isTaken := isDigits.sublist (List.take_sublist precision _)
  have taken : (rendered.digits.take precision).length = 6 := by
    rw [List.length_take, length]
    rfl
  obtain ⟨next, at'⟩ : ∃ next, rendered.digits[precision]? = some next :=
    ⟨_, List.getElem?_eq_getElem (by rw [length]; decide)⟩
  have bounds := digit_bounds (isDigits next (List.mem_of_getElem? at'))
  have seven := digitsValue_take_next isDigits at'
  rw [all, length, show 41 - (precision + 1) = 34 from rfl] at seven
  have same : (10 : ℚ) ^ (rendered.point - 6) = 10 ^ (rendered.point - 1 - 5) := by
    congr 1
    ring
  rw [at', Option.any_some] at found
  split at found
  next up =>
    have five := five_le_iff.mp (of_decide_eq_true up)
    have rounds : (rendered.coefficient / 10 ^ 34 + 5) / 10 =
        digitsValue (rendered.digits.take precision) + 1 := by omega
    rcases added : increment (rendered.digits.take precision) with ⟨carry, result⟩
    obtain ⟨resultLength, isResult, result'⟩ := increment_spec isTaken added
    rw [added] at found
    cases carry with
    | false =>
      cases found
      refine ⟨resultLength.trans taken, isResult, ?_⟩
      rw [same, rounds, ← result']
      rfl
    | true =>
      cases found
      refine ⟨rfl, (isDigits_toDigits 1).append (isDigits_zeros 5), ?_⟩
      rw [same, rounds, digitsValue_of_carry isTaken added, taken, digitsValue_one_zeros,
        show precision - 1 = 5 from rfl,
        show rendered.point - 1 + 1 - 5 = rendered.point - 1 - 5 + 1 by ring,
        zpow_add_one₀ (by norm_num)]
      push_cast
      ring
  next down =>
    have five := mt five_le_iff.mpr fun up => down (decide_eq_true up)
    have rounds : (rendered.coefficient / 10 ^ 34 + 5) / 10 =
        digitsValue (rendered.digits.take precision) := by omega
    cases found
    refine ⟨taken, isTaken, ?_⟩
    rw [same, rounds]

/-- The digits that are shown stand for the number rounded to six of them. -/
theorem significantDigits_eq_roundedTo (double : IsDouble mantissa exponent) {digits : List Char}
    {power : Int} (found : significantDigits mantissa exponent = (digits, power)) :
    digits.length = 6 ∧ IsDigits digits ∧
      (digitsValue digits * 10 ^ (power - 5) : ℚ) = roundedTo 6 (mantissa * 2 ^ exponent) := by
  have length := length_rendering double.positive exponent
  obtain ⟨digitsLength, isDigits, value⟩ := significantDigits_spec found length
  refine ⟨digitsLength, isDigits, ?_⟩
  obtain ⟨kept, renders⟩ := exists_renders double.positive exponent
  have rounds := renders.rounds double
  rw [roundedTo, lastPlace]
  generalize Int.log 10 (mantissa * 2 ^ exponent : ℚ) = first at *
  rw [show first + 1 - ((6 : ℕ) : ℤ) = first - 5 by omega, rounds, value, Decimal.point, length]
  rcases renders.rendered with same | ⟨rfl, same⟩
  · rw [same, show first - 40 + ((41 : ℕ) : ℤ) - 6 = first - 5 by omega]
    rfl
  · rw [same, show first - 39 + ((41 : ℕ) : ℤ) - 6 = first - 5 + 1 by omega,
      zpow_add_one₀ (by norm_num)]
    norm_num
    ring

end NumberText

end SolidScript
