/-
This file proves that no double lies close below a half-way point between decimals of six digits.
A multiple of a power of two that is close below a multiple of a power of ten gives a fraction close
above the ratio of the two powers, and with a small denominator only a few fractions are. For each
exponent two neighbouring fractions are found that bracket the ratio; that they do so is checked,
the way they are found is of no concern.
-/

import Mathlib.Algebra.Order.Field.Power
import Mathlib.Data.Nat.Cast.Order.Field
import Mathlib.Data.Rat.Floor
import Mathlib.Tactic.FieldSimp
import Mathlib.Tactic.Linarith
import Mathlib.Tactic.LinearCombination
import Mathlib.Tactic.Positivity
import Mathlib.Tactic.Ring
import SolidScript.Proofs.Doubles

namespace SolidScript.Spacing

/-! ### Fractions around a ratio -/

/-- The ratio of a power of two and a power of ten. -/
structure Ratio where
  numerator : Nat
  denominator : Nat

/-- Two fractions, `low / lowSize` and `high / highSize`. -/
structure Bracket where
  low : Nat
  lowSize : Nat
  high : Nat
  highSize : Nat

/-- The ratio lies between the fractions, and these are neighbours: no fraction between them has a
denominator below the sum of theirs. -/
def Bracket.Holds (bracket : Bracket) (ratio : Ratio) : Prop :=
  bracket.high * bracket.lowSize = bracket.low * bracket.highSize + 1 ∧
    bracket.low * ratio.denominator ≤ bracket.lowSize * ratio.numerator ∧
    bracket.highSize * ratio.numerator < bracket.high * ratio.denominator

instance (bracket : Bracket) (ratio : Ratio) : Decidable (bracket.Holds ratio) :=
  inferInstanceAs (Decidable (_ ∧ _))

/-- How far the upper fraction is above the ratio. -/
def Bracket.gap (bracket : Bracket) (ratio : Ratio) : Nat :=
  bracket.high * ratio.denominator - bracket.highSize * ratio.numerator

/-- A fraction above the ratio with a denominator below the sum of theirs is as far above it as the
upper one. It is a combination of the two, and takes the lower one no positive number of times. -/
theorem Bracket.Holds.gap_le {bracket : Bracket} {ratio : Ratio} (holds : bracket.Holds ratio)
    {size whole : Nat} (positive : 0 < size) (small : size < bracket.lowSize + bracket.highSize)
    (above : size * ratio.numerator < whole * ratio.denominator) :
    bracket.gap ratio + size * ratio.numerator ≤ whole * ratio.denominator := by
  obtain ⟨neighbours, below, beyond⟩ := holds
  obtain ⟨low, lowSize, high, highSize⟩ := bracket
  obtain ⟨numerator, denominator⟩ := ratio
  simp only [gap] at *
  zify [beyond.le] at *
  obtain ⟨x, y, ofWhole, ofSize⟩ : ∃ x y : ℤ, whole = x * low + y * high ∧
      size = x * lowSize + y * highSize := by
    refine ⟨high * size - highSize * whole, lowSize * whole - low * size, ?_, ?_⟩
    · linear_combination (-(whole : ℤ)) * neighbours
    · linear_combination (-(size : ℤ)) * neighbours
  have marginLow : (0 : ℤ) ≤ lowSize * numerator - low * denominator := by linarith
  have marginHigh : (0 : ℤ) < high * denominator - highSize * numerator := by linarith
  have apart : (whole : ℤ) * denominator - size * numerator =
      y * (high * denominator - highSize * numerator) -
        x * (lowSize * numerator - low * denominator) := by
    rw [ofWhole, ofSize]
    ring
  have lowNonneg : (0 : ℤ) ≤ lowSize := Int.natCast_nonneg _
  have highNonneg : (0 : ℤ) ≤ highSize := Int.natCast_nonneg _
  rcases le_or_gt y 0 with none | some
  · have first : 0 < x := by
      by_contra nonpositive
      nlinarith
    nlinarith
  · have last : x ≤ 0 := by
      by_contra positive
      nlinarith
    nlinarith

/-! ### Finding the fractions -/

/-- The mantissas of doubles are below this. -/
def mantissaLimit : Nat := 9007199254740992

/-- Go on with a number once it is evaluated, which keeps the terms of a computation small. The
kernel opens the recursor in one step. -/
def evaluated {α : Type} (number : Nat) (next : Nat → α) : α :=
  Nat.rec (next 0) (fun number _ => next (Nat.succ number)) number

theorem evaluated_eq {α : Type} (number : Nat) (next : Nat → α) :
    evaluated number next = next number := by
  cases number <;> rfl

/-- How often a denominator is added: at most so often, and only until the room is filled. -/
def repetitions (most room size : Nat) : Nat :=
  if size = 0 then most else min most ((room + size - 1) / size)

/-- Move two fractions towards a ratio in turn, until there is no room for a denominator between
them. `below` and `above` say how far they are from it. -/
def tighten : Nat → (low lowSize high highSize below above : Nat) → Bracket
  | 0, low, lowSize, high, highSize, _, _ => ⟨low, lowSize, high, highSize⟩
  | fuel + 1, low, lowSize, high, highSize, below, above =>
    evaluated (repetitions (below / above) (mantissaLimit - lowSize - highSize) highSize)
        fun count =>
    evaluated (low + count * high) fun low =>
    evaluated (lowSize + count * highSize) fun lowSize =>
    evaluated (below - count * above) fun below =>
    evaluated (repetitions (if below = 0 then mantissaLimit else (above - 1) / below)
      (mantissaLimit - lowSize - highSize) lowSize) fun count =>
    evaluated (high + count * low) fun high =>
    evaluated (highSize + count * lowSize) fun highSize =>
    evaluated (above - count * below) fun above =>
    if mantissaLimit ≤ lowSize + highSize then ⟨low, lowSize, high, highSize⟩
    else tighten fuel low lowSize high highSize below above

/-! ### The ratio of an exponent -/

/-- The ratio of `2 ^ exponent` and `10 ^ power`, in lowest terms. -/
def ratio (exponent power : Int) : Ratio where
  numerator := 2 ^ (exponent - power).toNat * 5 ^ (-power).toNat
  denominator := 2 ^ (power - exponent).toNat * 5 ^ power.toNat

/-- The power of ten that the last of seven digits stands for in the least number with the exponent
whose mantissa has more than `bits` bits. -/
def scale (bits : Nat) (exponent : Int) : Int := (exponent + bits) * 30103 / 100000 - 6

/-- Numbers with mantissas from `2 ^ bits` on have their seventh digit at the power of ten of the
ratio or up to `spread` places above, and no fraction with such a denominator comes close above the
ratio. -/
def Far (bits spread : Nat) (ratio : Ratio) (bracket : Bracket) : Prop :=
  10 ^ 6 * ratio.denominator ≤ 2 ^ bits * ratio.numerator ∧
    mantissaLimit * ratio.numerator ≤ 10 ^ (spread + 7) * ratio.denominator ∧
    bracket.Holds ratio ∧ mantissaLimit ≤ bracket.lowSize + bracket.highSize ∧
    10 ^ spread * ratio.denominator < 2 * 10 ^ 34 * bracket.gap ratio

instance (bits spread : Nat) (ratio : Ratio) (bracket : Bracket) :
    Decidable (Far bits spread ratio bracket) :=
  inferInstanceAs (Decidable (_ ∧ _))

/-- Whether fractions are found that keep numbers with the exponent away from half-way points. -/
def keepsAway (bits spread : Nat) (exponent : Int) : Bool :=
  evaluated (ratio exponent (scale bits exponent)).numerator fun numerator =>
  evaluated (ratio exponent (scale bits exponent)).denominator fun denominator =>
    Far bits spread ⟨numerator, denominator⟩
      (tighten 20 0 1 1 0 numerator denominator)

/-- The exponents of doubles whose mantissas have all 53 bits. -/
theorem keepsAway_normal : ∀ place : Nat, place < 2045 →
    keepsAway 52 1 (place - 1073) = true := by
  decide +kernel

/-- The exponent that smaller mantissas come with, down to a single bit. -/
theorem keepsAway_least : keepsAway 0 16 (-1074) = true := by
  decide +kernel

/-! ### Doubles -/

theorem far_of_keepsAway {bits spread : Nat} {exponent : Int}
    (keeps : keepsAway bits spread exponent = true) :
    ∃ bracket, Far bits spread (ratio exponent (scale bits exponent)) bracket := by
  rw [keepsAway, evaluated_eq, evaluated_eq] at keeps
  exact ⟨_, of_decide_eq_true keeps⟩

theorem exists_far {mantissa : Nat} {exponent : Int} (double : IsDouble mantissa exponent) :
    ∃ bits spread bracket, 2 ^ bits ≤ mantissa ∧
      Far bits spread (ratio exponent (scale bits exponent)) bracket := by
  by_cases least : exponent = -1074
  · subst least
    obtain ⟨bracket, far⟩ := far_of_keepsAway keepsAway_least
    exact ⟨0, 16, bracket, double.positive, far⟩
  · have above := double.least
    have below := double.greatest
    obtain ⟨place, inside, rfl⟩ : ∃ place : Nat, place < 2045 ∧ exponent = place - 1073 :=
      ⟨(exponent + 1073).toNat, by omega, by omega⟩
    obtain ⟨bracket, far⟩ := far_of_keepsAway (keepsAway_normal place inside)
    exact ⟨52, 1, bracket, double.normal.resolve_left least, far⟩

/-! ### Half-way points -/

theorem zpow_toNat_div {base : ℚ} (positive : 0 < base) (power : ℤ) :
    base ^ power.toNat = base ^ power * base ^ (-power).toNat := by
  rw [← zpow_natCast, ← zpow_natCast, ← zpow_add₀ positive.ne']
  congr 1
  omega

/-- The ratio is the quotient of the powers. -/
theorem ratio_eq (exponent power : Int) :
    ((ratio exponent power).numerator : ℚ) * 10 ^ power =
      (ratio exponent power).denominator * 2 ^ exponent := by
  have two := zpow_toNat_div (show (0 : ℚ) < 2 by norm_num) (exponent - power)
  have five := zpow_toNat_div (show (0 : ℚ) < 5 by norm_num) power
  have ten : (10 : ℚ) ^ power = 2 ^ power * 5 ^ power := by
    rw [← mul_zpow]
    norm_num
  have split : (2 : ℚ) ^ exponent = 2 ^ (exponent - power) * 2 ^ power := by
    rw [← zpow_add₀ two_ne_zero, Int.sub_add_cancel]
  rw [Int.neg_sub] at two
  simp only [ratio, Nat.cast_mul, Nat.cast_pow, Nat.cast_ofNat]
  rw [two, five, ten, split]
  ring

theorem denominator_pos (exponent power : Int) : 0 < (ratio exponent power).denominator :=
  Nat.mul_pos (Nat.two_pow_pos _) (Nat.pow_pos (by decide))

/-- The powers of ten that a double lies between. -/
theorem Far.bounds {bits spread mantissa : Nat} {exponent : Int} {bracket : Bracket}
    (far : Far bits spread (ratio exponent (scale bits exponent)) bracket)
    (large : 2 ^ bits ≤ mantissa) (small : mantissa < mantissaLimit) :
    (10 : ℚ) ^ (scale bits exponent + 6) ≤ mantissa * 2 ^ exponent ∧
      (mantissa * 2 ^ exponent : ℚ) < 10 ^ (scale bits exponent + 6 + spread + 1) := by
  obtain ⟨lead, trail, _⟩ := far
  have same := ratio_eq exponent (scale bits exponent)
  have positive := denominator_pos exponent (scale bits exponent)
  generalize scale bits exponent = power at *
  generalize ratio exponent power = around at *
  have cleared : (0 : ℚ) < around.denominator := by exact_mod_cast positive
  have two : (0 : ℚ) < 2 ^ exponent := by positivity
  have ten : (0 : ℚ) < 10 ^ power := by positivity
  have leadCast : (10 : ℚ) ^ 6 * around.denominator ≤ 2 ^ bits * around.numerator := by
    exact_mod_cast lead
  have trailCast : (mantissaLimit : ℚ) * around.numerator ≤
      10 ^ (spread + 7) * around.denominator := by
    exact_mod_cast trail
  have largeCast : (2 : ℚ) ^ bits ≤ mantissa := by exact_mod_cast large
  have smallCast : (mantissa : ℚ) < mantissaLimit := by exact_mod_cast small
  constructor
  · refine le_of_mul_le_mul_right ?_ cleared
    calc (10 : ℚ) ^ (power + 6) * around.denominator
        = 10 ^ 6 * around.denominator * 10 ^ power := by
          rw [zpow_add₀ (by norm_num), zpow_ofNat]
          ring
      _ ≤ 2 ^ bits * around.numerator * 10 ^ power := by gcongr
      _ = 2 ^ bits * 2 ^ exponent * around.denominator := by rw [mul_assoc, same]; ring
      _ ≤ mantissa * 2 ^ exponent * around.denominator := by gcongr
  · refine lt_of_mul_lt_mul_right ?_ cleared.le
    calc (mantissa : ℚ) * 2 ^ exponent * around.denominator
        < mantissaLimit * 2 ^ exponent * around.denominator := by gcongr
      _ = mantissaLimit * around.numerator * 10 ^ power := by
          rw [mul_assoc _ (around.numerator : ℚ), same]
          ring
      _ ≤ 10 ^ (spread + 7) * around.denominator * 10 ^ power := by gcongr
      _ = 10 ^ (power + 6 + spread + 1) * around.denominator := by
          rw [show power + 6 + spread + 1 = power + ((spread + 7 : ℕ) : ℤ) by push_cast; ring,
            zpow_add₀ (by norm_num), zpow_natCast]
          ring

/-- A double below a multiple of the power of ten is below it by more than the fractions are
required to keep away. -/
theorem Far.apart {bits spread mantissa : Nat} {exponent unit : Int} {bracket : Bracket}
    (far : Far bits spread (ratio exponent unit) bracket) (positive : 0 < mantissa)
    (small : mantissa < mantissaLimit) {multiple : Nat}
    (below : (mantissa * 2 ^ exponent : ℚ) < multiple * 10 ^ unit) :
    mantissa * 2 ^ exponent + 10 ^ unit * 10 ^ spread / (2 * 10 ^ 34) <
      (multiple * 10 ^ unit : ℚ) := by
  obtain ⟨_, _, holds, room, apart⟩ := far
  have same := ratio_eq exponent unit
  have cleared : (0 : ℚ) < (ratio exponent unit).denominator := by
    exact_mod_cast denominator_pos exponent unit
  generalize ratio exponent unit = around at *
  have ten : (0 : ℚ) < 10 ^ unit := by positivity
  have value : (mantissa * 2 ^ exponent : ℚ) * around.denominator =
      mantissa * around.numerator * 10 ^ unit := by
    rw [mul_assoc (mantissa : ℚ) around.numerator, same]
    ring
  have beyond : mantissa * around.numerator < multiple * around.denominator := by
    have times : (mantissa * around.numerator : ℚ) * 10 ^ unit <
        multiple * around.denominator * 10 ^ unit := by
      rw [← value, mul_right_comm (multiple : ℚ)]
      exact mul_lt_mul_of_pos_right below cleared
    exact_mod_cast lt_of_mul_lt_mul_right times ten.le
  have gap : (bracket.gap around : ℚ) + mantissa * around.numerator ≤
      multiple * around.denominator := by
    exact_mod_cast holds.gap_le positive (small.trans_le room) beyond
  have large : (10 : ℚ) ^ spread * around.denominator / (2 * 10 ^ 34) < bracket.gap around := by
    rw [div_lt_iff₀' (by norm_num)]
    exact_mod_cast apart
  refine lt_of_mul_lt_mul_right ?_ cleared.le
  calc (mantissa * 2 ^ exponent + 10 ^ unit * 10 ^ spread / (2 * 10 ^ 34) : ℚ) *
        around.denominator
      = mantissa * around.numerator * 10 ^ unit +
          10 ^ unit * (10 ^ spread * around.denominator / (2 * 10 ^ 34)) := by
        rw [add_mul, value]
        ring
    _ < mantissa * around.numerator * 10 ^ unit + 10 ^ unit * bracket.gap around := by
        gcongr
    _ = (bracket.gap around + mantissa * around.numerator) * 10 ^ unit := by ring
    _ ≤ multiple * around.denominator * 10 ^ unit := by gcongr
    _ = multiple * 10 ^ unit * around.denominator := by ring

/-- A double below a multiple of the last of seven digits is below it by more than half of the last
of 41 digits. -/
theorem half_apart {mantissa : Nat} {exponent power : Int}
    (double : IsDouble mantissa exponent) (least : (10 : ℚ) ^ power ≤ mantissa * 2 ^ exponent)
    (most : (mantissa * 2 ^ exponent : ℚ) < 10 ^ (power + 1)) {whole : Nat}
    (below : (mantissa * 2 ^ exponent : ℚ) < whole * 10 ^ (power - 6)) :
    mantissa * 2 ^ exponent + 10 ^ (power - 40) / 2 < (whole * 10 ^ (power - 6) : ℚ) := by
  obtain ⟨bits, spread, bracket, large, far⟩ := exists_far double
  have small : mantissa < mantissaLimit := double.small
  obtain ⟨first, last⟩ := far.bounds large small
  generalize scale bits exponent = unit at *
  have unitLe : unit + 6 ≤ power := by
    have := (zpow_lt_zpow_iff_right₀ (by norm_num : (1 : ℚ) < 10)).mp (first.trans_lt most)
    omega
  have powerLe : power - 40 ≤ unit + spread - 34 := by
    have := (zpow_lt_zpow_iff_right₀ (by norm_num : (1 : ℚ) < 10)).mp (least.trans_lt last)
    omega
  -- the multiple as one of the unit that the fractions are about
  obtain ⟨more, moved⟩ : ∃ more : ℕ, power - 6 = unit + more := ⟨(power - 6 - unit).toNat, by omega⟩
  have scaled : (whole * 10 ^ (power - 6) : ℚ) = (whole * 10 ^ more : ℕ) * 10 ^ unit := by
    rw [moved, zpow_add₀ (by norm_num), zpow_natCast]
    push_cast
    ring
  rw [scaled] at below ⊢
  have half : (10 : ℚ) ^ (power - 40) / 2 ≤ 10 ^ unit * 10 ^ spread / (2 * 10 ^ 34) := by
    calc (10 : ℚ) ^ (power - 40) / 2 ≤ 10 ^ (unit + spread - 34) / 2 := by
          gcongr
          norm_num
      _ = 10 ^ unit * 10 ^ spread / (2 * 10 ^ 34) := by
          rw [zpow_sub₀ (by norm_num), zpow_add₀ (by norm_num), zpow_natCast, zpow_ofNat,
            div_div, mul_comm (2 : ℚ)]
  exact (add_le_add_right half _).trans_lt (far.apart double.positive small below)

end SolidScript.Spacing
