/-
This file tells what the values of a range are, which are computed from their positions with two
roundings. They are in order, so those between two equal ones are equal to both. Equal ranges have
the same values. Where the step is not tiny beside the first value, each value is less than half a
step away from the exact one, and no value comes twice.
-/

import SolidScript.Proofs.Number.Extended
import SolidScript.Proofs.Preorder
import SolidScript.Proofs.Strides

namespace SolidScript

/-! ### The values of a range -/

theorem Counts.finite {x : Float} {count : ℕ} (counts : Counts x count) :
    x.isFinite = true ∧ amount x = count := by
  obtain ⟨negative, mantissa, exponent, parts, none, same⟩ := counts
  refine ⟨isFinite_of_ofFloat parts, ?_⟩
  have number : (mantissa * 2 ^ exponent : ℚ) = count := by
    have whole := congrArg (Nat.cast : ℕ → ℚ) same
    have split : (2 : ℚ) ^ exponent * 2 ^ (-exponent).toNat = 2 ^ exponent.toNat := by
      rw [← zpow_natCast, ← zpow_natCast, ← zpow_add₀ (by norm_num)]
      congr 1
      omega
    push_cast at whole
    rw [← split, ← mul_assoc] at whole
    exact mul_right_cancel₀ (by positivity) whole
  rw [amount, parts, Binary64.value, number]
  cases negative with
  | false => rw [if_neg Bool.false_ne_true, one_mul]
  | true => rw [none rfl, Nat.cast_zero, mul_zero]

namespace Range

variable {range other : Range} {position : ℕ}

theorem equals_comm (range other : Range) : other.equals range = range.equals other := by
  rw [equals, equals, order_swap range other]
  cases range.order other with
  | none => rfl
  | some order => cases order <;> rfl

/-- The value at a position is the first one and so many steps, rounded once after the steps are
multiplied and once after they are added. -/
theorem extended_valueOf (finite : range.step.isFinite = true) (small : position < 2 ^ 32) :
    extended (range.valueOf position) =
      (extended range.first).bind fun a => a.plus (.rounded (amount range.step * position)) := by
  cases position with
  | zero =>
    rw [Nat.cast_zero, mul_zero]
    cases meant : extended range.first with
    | none => exact meant
    | some a => exact meant.trans (plus_zero (meant ▸ means range.first)).symm
  | succ position =>
    obtain ⟨counted, count⟩ := (counts_toFloat (UInt32.ofNat (position + 1))).finite
    rw [UInt32.toNat_ofNat_of_lt' small] at count
    rw [valueOf, extended_add, extended_mul finite counted, count]
    rfl

/-- With an infinite step a range has no value but the first. -/
theorem position_of_infinite (infinite : range.step.isInf = true)
    (inside : position < range.yield) : position = 0 := by
  have few : range.count ≤ 1 := by
    rw [count]
    split
    · exact Nat.zero_le _
    split
    · exact Nat.zero_le _
    rw [infinite, Bool.or_true, if_pos rfl]
  have := range.yield_le_count
  omega

/-- Steps are finite, or there is one value only. -/
theorem finite_or_first (inside : position < range.yield) :
    range.step.isFinite = true ∨ position = 0 := by
  have some' : range.count ≠ 0 := by
    have := range.yield_le_count
    omega
  cases infinite : range.step.isInf with
  | false => exact .inl (isFinite_iff.mpr ⟨(isNumber_of_count some').2.1, infinite⟩)
  | true => exact .inr (position_of_infinite infinite inside)

/-- The values of a range are in order. Those between two equal ones are equal to them. -/
theorem valueOf_between {low middle high : ℕ} (behind : low ≤ middle) (before : middle ≤ high)
    (inside : high < range.yield) (same : (range.valueOf low == range.valueOf high) = true) :
    (range.valueOf low == range.valueOf middle) = true := by
  rcases finite_or_first inside with finite | rfl
  · have limit := range.count_lt
    have few := range.yield_le_count
    obtain ⟨alike, number⟩ := beq_iff_extended.mp same
    rw [beq_iff_extended]
    refine ⟨?_, number⟩
    rw [extended_valueOf finite (by omega), extended_valueOf finite (by omega)] at alike ⊢
    rw [extended_valueOf finite (by omega)] at number
    cases meant : extended range.first with
    | none => rfl
    | some a =>
      rw [meant, Option.bind_some] at number alike
      rw [Option.bind_some, Option.bind_some]
      obtain ⟨sum, first⟩ := Option.ne_none_iff_exists'.mp number
      have last := alike.symm.trans first
      have near : (low : ℚ) ≤ middle := by exact_mod_cast behind
      have far : (middle : ℚ) ≤ high := by exact_mod_cast before
      rw [first]
      rcases le_or_gt 0 (amount range.step) with rising | falling
      · exact (Extended.plus_between (Extended.rounded_mono (by gcongr))
          (Extended.rounded_mono (by gcongr)) first last).symm
      · have near' := mul_le_mul_of_nonpos_left near falling.le
        have far' := mul_le_mul_of_nonpos_left far falling.le
        exact (Extended.plus_between (Extended.rounded_mono far') (Extended.rounded_mono near')
          last first).symm
  · obtain rfl : middle = 0 := by omega
    exact same

/-- Ranges with values are equal if they start alike and have as many. -/
theorem agree_of_equals (same : range.equals other = true) (some' : range.count ≠ 0) :
    extended range.first = extended other.first ∧ extended range.step = extended other.step ∧
      range.count = other.count := by
  rcases rank_eq_iff.mp (ties_iff_rank.mp (equals_iff.mp same)) with ⟨empty, -⟩ |
    ⟨firsts, steps, counts⟩
  · exact absurd empty some'
  · exact ⟨(beq_iff_extended.mp firsts).1, (beq_iff_extended.mp steps).1, counts⟩

/-- Equal ranges have as many values, and the same ones. -/
theorem yield_congr (same : range.equals other = true) : range.yield = other.yield := by
  rcases rank_eq_iff.mp (ties_iff_rank.mp (equals_iff.mp same)) with ⟨empty, empty'⟩ |
    ⟨-, steps, counts⟩
  · have none := range.yield_le_count
    have none' := other.yield_le_count
    omega
  · have zero : (range.step == 0) = (other.step == 0) := by
      rw [Bool.eq_iff_iff, beq_iff_extended, beq_iff_extended, (beq_iff_extended.mp steps).1]
    rw [yield, yield, zero, counts]

theorem valueOf_congr (same : range.equals other = true) (inside : position < range.yield) :
    extended (range.valueOf position) = extended (other.valueOf position) := by
  have limit := range.count_lt
  have few := range.yield_le_count
  obtain ⟨first, step, -⟩ := agree_of_equals same (by omega)
  rcases finite_or_first inside with finite | rfl
  · rw [extended_of_finite finite] at step
    obtain ⟨finite', amounts⟩ := isFinite_of_extended step.symm
    rw [extended_valueOf finite (by omega), extended_valueOf finite' (by omega), first, amounts]
  · exact first

/-- A range that starts from a finite number has only numbers as values. -/
theorem isNaN_valueOf (finite : range.first.isFinite = true) (inside : position < range.yield) :
    (range.valueOf position).isNaN = false := by
  have limit := range.count_lt
  have few := range.yield_le_count
  rcases finite_or_first inside with steps | rfl
  · rw [← Bool.not_eq_true, isNaN_iff_extended, extended_valueOf steps (by omega),
      extended_of_finite finite, Option.bind_some]
    cases Extended.rounded (amount range.step * position) <;> exact nofun
  · exact (isFinite_iff.mp finite).1

end Range

/-! ### Steps that are not lost -/

/-- Multiples of the least double are rounded little, and to such multiples. -/
theorem signedMagnitude_near {number : ℚ} {count : ℤ}
    (multiple : number = count * 2 ^ (-1074 : ℤ)) :
    |number - signedMagnitude number| * 2 ^ 53 ≤ |signedMagnitude number| ∧
      |signedMagnitude number| ≤ 2 * |number| ∧
        ∃ count : ℤ, signedMagnitude number = count * 2 ^ (-1074 : ℤ) := by
  have near : Near |number| := multiple ▸ near_abs_multiple count
  have least := (rounded_canonical (abs_nonneg number)).least
  obtain ⟨power, above⟩ := Int.eq_ofNat_of_zero_le
    (show 0 ≤ (rounded |number|).2 + 1074 by omega)
  have whole : magnitude |number| =
      ((rounded |number|).1 * 2 ^ power : ℕ) * 2 ^ (-1074 : ℤ) := by
    rw [magnitude, show (rounded |number|).2 = power + -1074 by omega, zpow_add₀ (by norm_num),
      zpow_natCast, Nat.cast_mul, Nat.cast_pow, Nat.cast_ofNat, mul_assoc]
  refine ⟨?_, ?_, ?_⟩
  · rw [abs_sub_signedMagnitude, abs_signedMagnitude]
    exact near
  · have low := near.ge
    have some' := magnitude_nonneg |number|
    rw [abs_signedMagnitude]
    linarith
  · rw [signedMagnitude, whole]
    split
    · exact ⟨-((rounded |number|).1 * 2 ^ power : ℕ), by
        rw [Int.cast_neg, Int.cast_natCast, neg_one_mul, neg_mul]⟩
    · exact ⟨((rounded |number|).1 * 2 ^ power : ℕ), by rw [Int.cast_natCast, one_mul]⟩

namespace Range

/-- Steps that are not lost: they are not tiny beside the first value, and lead to nothing that is
too great for a double. -/
structure KeepsSteps (range : Range) : Prop where
  first : range.first.isFinite = true
  step : range.step.isFinite = true
  reach : |amount range.first| ≤ 2 ^ 50 * |amount range.step|
  small : |amount range.step| ≤ 2 ^ (970 : ℤ)

namespace KeepsSteps

variable {range other : Range} {position : ℕ} (keeps : range.KeepsSteps)

include keeps

/-- Nothing that is less than so many steps is rounded to an infinity. -/
theorem lt_overflowLimit {number : ℚ} (size : |number| ≤ 2 ^ 51 * |amount range.step|) :
    |number| < overflowLimit := by
  have small := keeps.small
  have unit : (0 : ℚ) < 2 ^ (970 : ℤ) := by positivity
  rw [overflowLimit]
  generalize (2 : ℚ) ^ (970 : ℤ) = scale at *
  linarith

/-- The way of so many steps, rounded. -/
theorem rounded_steps (few : position < 2 ^ 32) :
    ∃ way count, Extended.rounded (amount range.step * position) = .exact way ∧
      way = (count : ℤ) * 2 ^ (-1074 : ℤ) ∧ |way| ≤ 2 ^ 33 * |amount range.step| ∧
        |amount range.step * position - way| * 2 ^ 53 ≤ |way| := by
  obtain ⟨count, whole⟩ := exists_multiple keeps.step
  have multiple : amount range.step * position = (count * position : ℤ) * 2 ^ (-1074 : ℤ) := by
    rw [whole, Int.cast_mul, Int.cast_natCast, mul_right_comm]
  have size : |amount range.step * position| ≤ 2 ^ 32 * |amount range.step| := by
    have places : (position : ℚ) ≤ 2 ^ 32 := by exact_mod_cast few.le
    rw [abs_mul, Nat.abs_cast, mul_comm]
    gcongr
  have some' := abs_nonneg (amount range.step)
  obtain ⟨near, most, count, rounds⟩ := signedMagnitude_near multiple
  exact ⟨_, count, Extended.rounded_of_lt (keeps.lt_overflowLimit (by linarith)), rounds,
    by linarith, near⟩

/-- Each value is less than half a step away from the exact one. -/
theorem valueOf_near (nonzero : amount range.step ≠ 0) (few : position < 2 ^ 32) :
    ∃ value, extended (range.valueOf position) = some (.exact value) ∧
      2 * |amount range.first + amount range.step * position - value| < |amount range.step| := by
  obtain ⟨way, count, found, whole, most, close⟩ := keeps.rounded_steps few
  obtain ⟨start, begins⟩ := exists_multiple keeps.first
  have multiple : amount range.first + way = (start + count : ℤ) * 2 ^ (-1074 : ℤ) := by
    rw [begins, whole, Int.cast_add, add_mul]
  have reach := keeps.reach
  have positive := abs_pos.mpr nonzero
  have size := abs_add_le (amount range.first) way
  have room : |amount range.first + way| < overflowLimit := keeps.lt_overflowLimit (by linarith)
  obtain ⟨near, bound, -⟩ := signedMagnitude_near multiple
  refine ⟨signedMagnitude (amount range.first + way), ?_, ?_⟩
  · rw [extended_valueOf keeps.step few, extended_of_finite keeps.first, Option.bind_some, found,
      ← Extended.rounded_of_lt room]
    rfl
  · have both := abs_add_le (amount range.step * position - way)
      (amount range.first + way - signedMagnitude (amount range.first + way))
    rw [show amount range.step * position - way +
        (amount range.first + way - signedMagnitude (amount range.first + way)) =
      amount range.first + amount range.step * position -
        signedMagnitude (amount range.first + way) by ring] at both
    linarith

/-- Different positions have different values. -/
theorem valueOf_apart (nonzero : amount range.step ≠ 0) {low high : ℕ} (less : low < high)
    (few : high < 2 ^ 32) : (range.valueOf low == range.valueOf high) = false := by
  rw [← Bool.not_eq_true]
  intro same
  obtain ⟨value, found, near⟩ := keeps.valueOf_near nonzero (less.trans few)
  obtain ⟨value', found', near'⟩ := keeps.valueOf_near nonzero few
  have alike := (beq_iff_extended.mp same).1
  rw [found, found', Option.some.injEq, Extended.exact.injEq] at alike
  subst alike
  have apart : (1 : ℚ) ≤ high - low := by
    have next : (low + 1 : ℚ) ≤ high := by exact_mod_cast less
    linarith
  have way : |amount range.step| ≤ |amount range.step * (high - low)| := by
    rw [abs_mul, abs_of_pos (by linarith : (0 : ℚ) < high - low)]
    exact le_mul_of_one_le_right (abs_nonneg _) apart
  have both := abs_sub (amount range.first + amount range.step * high - value)
    (amount range.first + amount range.step * low - value)
  rw [show amount range.first + amount range.step * high - value -
    (amount range.first + amount range.step * low - value) =
      amount range.step * (high - low) by ring] at both
  linarith

theorem congr (same : range.equals other = true)
    (some' : range.count ≠ 0) : other.KeepsSteps := by
  obtain ⟨first, step, -⟩ := agree_of_equals same some'
  rw [extended_of_finite keeps.first] at first
  rw [extended_of_finite keeps.step] at step
  obtain ⟨firstFinite, firsts⟩ := isFinite_of_extended first.symm
  obtain ⟨stepFinite, steps⟩ := isFinite_of_extended step.symm
  exact ⟨firstFinite, stepFinite, by rw [firsts, steps]; exact keeps.reach,
    by rw [steps]; exact keeps.small⟩

end KeepsSteps

end Range

end SolidScript
