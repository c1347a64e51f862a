/-
This file proves how many values a range of finite doubles counts. The way from the first value to
the bound is rounded, its quotient by the step is rounded, and one unit in the last place is added.
What was added makes up for both roundings and is too little to do more, so the count is that of the
exact quotient, or one more if the quotient is a whole number but for rounding. Only a way that is
too great for a double is counted as if it were infinite.
-/

import SolidScript.Proofs.Number.Ordering
import SolidScript.Proofs.Progression

namespace SolidScript

open Float.Model

/-! ### The next number -/

/-- The number one unit in the last place above the nearest one. -/
def raised (x : ℚ) : ℚ := ((rounded x).1 + 1) * 2 ^ (rounded x).2

theorem raised_eq (x : ℚ) : raised x = magnitude x + 2 ^ (rounded x).2 := by
  rw [raised, magnitude, add_mul, one_mul]

theorem raised_nonneg (x : ℚ) : 0 ≤ raised x := by
  unfold raised
  positivity

theorem raised_mono {x y : ℚ} (nonneg : 0 ≤ x) (le : x ≤ y) : raised x ≤ raised y :=
  (rounded_canonical nonneg).succ_mono (rounded_canonical (nonneg.trans le))
    (magnitude_mono nonneg le)

/-- A whole number of 32 bits that rounding moved a number away from, and an error before it, is
reached again by the next number. -/
theorem le_raised {x : ℚ} {count : ℕ} (nonneg : 0 ≤ x) (small : count < 2 ^ 32)
    (close : count ≤ x * (1 + 1 / 2 ^ 53)) : count ≤ raised x := by
  have canonical := rounded_canonical nonneg
  have half := (abs_le.mp (abs_sub_magnitude_le nonneg)).2
  have units : (2 : ℚ) ^ lastExponent x ≤ 2 ^ (rounded x).2 :=
    zpow_le_zpow_right₀ (by norm_num) (lastExponent_le_rounded x)
  by_contra less
  rw [not_le] at less
  rw [magnitude] at half
  rw [raised] at less
  generalize (rounded x).1 = mantissa, (rounded x).2 = exponent at *
  have few : (count : ℚ) < 2 ^ 32 := by exact_mod_cast small
  have bits : (mantissa : ℚ) + 1 ≤ 2 ^ 53 := by exact_mod_cast canonical.small
  have negative : exponent < 0 := by
    by_contra whole
    have full : (2 : ℚ) ^ 52 ≤ mantissa := by
      exact_mod_cast canonical.normal.resolve_left (by omega)
    have one : (1 : ℚ) ≤ 2 ^ exponent := one_le_zpow₀ (by norm_num) (not_lt.mp whole)
    nlinarith
  obtain ⟨power, rfl⟩ : ∃ power : ℕ, exponent = -power := ⟨(-exponent).toNat, by omega⟩
  have unit : (0 : ℚ) < 2 ^ (-power : ℤ) := by positivity
  have scale : (2 : ℚ) ^ (-power : ℤ) * 2 ^ power = 1 := by
    rw [← zpow_natCast, ← zpow_add₀ (by norm_num), neg_add_cancel, zpow_zero]
  -- In units of the last place the count is whole, so it is two units or more above the mantissa.
  have whole : mantissa + 1 < count * 2 ^ power := by
    have : ((mantissa : ℚ) + 1) * 2 ^ (-power : ℤ) * 2 ^ power < count * 2 ^ power := by gcongr
    rw [mul_assoc, scale, mul_one] at this
    exact_mod_cast this
  have above : ((mantissa : ℚ) + 2) * 2 ^ (-power : ℤ) ≤ count := by
    have : (mantissa : ℚ) + 2 ≤ count * 2 ^ power := by exact_mod_cast whole
    calc ((mantissa : ℚ) + 2) * 2 ^ (-power : ℤ) ≤ count * 2 ^ power * 2 ^ (-power : ℤ) := by gcongr
      _ = count := by rw [mul_assoc, mul_comm (2 ^ power), scale, mul_one]
  have below : x ≤ (mantissa + 1 / 2) * 2 ^ (-power : ℤ) := by linarith
  have error : ((mantissa : ℚ) + 1 / 2) * (1 + 1 / 2 ^ 53) < mantissa + 3 / 2 := by
    linarith
  have beyond : (count : ℚ) < (mantissa + 3 / 2) * 2 ^ (-power : ℤ) := by
    calc (count : ℚ) ≤ x * (1 + 1 / 2 ^ 53) := close
      _ ≤ (mantissa + 1 / 2) * 2 ^ (-power : ℤ) * (1 + 1 / 2 ^ 53) := by gcongr
      _ = (mantissa + 1 / 2) * (1 + 1 / 2 ^ 53) * 2 ^ (-power : ℤ) := by ring
      _ < (mantissa + 3 / 2) * 2 ^ (-power : ℤ) := by gcongr
  nlinarith

theorem rounded_exponent_le (x : ℚ) : (rounded x).2 ≤ lastExponent x + 1 := by
  unfold rounded
  split
  · exact le_refl _
  · exact Int.le_add_one (le_refl _)

/-- Where the next number reaches one, it is little greater than the number. -/
theorem raised_le {x : ℚ} (nonneg : 0 ≤ x) (reaches : 1 ≤ raised x) :
    raised x * (1 - 1 / 2 ^ 53) ≤ x * (1 + 1 / 2 ^ 52) := by
  have canonical := rounded_canonical nonneg
  have bits : ((rounded x).1 : ℚ) + 1 ≤ 2 ^ 53 := by exact_mod_cast canonical.small
  have unit : (0 : ℚ) < 2 ^ (rounded x).2 := by positivity
  have above : lastExponent x ≠ -1074 := by
    intro least
    have tiny : (2 : ℚ) ^ (rounded x).2 ≤ 2 ^ (-1000 : ℤ) :=
      zpow_le_zpow_right₀ (by norm_num) (by have := rounded_exponent_le x; omega)
    have : raised x ≤ 2 ^ 53 * 2 ^ (-1000 : ℤ) := by
      unfold raised
      gcongr
    have : (2 : ℚ) ^ 53 * 2 ^ (-1000 : ℤ) < 1 := by
      rw [← zpow_natCast, ← zpow_add₀ (by norm_num)]
      exact zpow_lt_one_of_neg₀ (by norm_num) (by norm_num)
    linarith
  have full : (2 : ℚ) ^ 52 ≤ (rounded x).1 := by
    have := lastExponent_le_rounded x
    have := least_le_lastExponent x
    exact_mod_cast canonical.normal.resolve_left (by omega)
  have near := (near_of_full nonneg (le_scaled nonneg above)).ge
  have wider : raised x ≤ magnitude x * (1 + 1 / 2 ^ 52) := by
    rw [raised_eq, magnitude]
    nlinarith
  nlinarith

/-! ### The steps in a quotient -/

theorem wholePart_eq_floor (mantissa : ℕ) (exponent : ℤ) :
    Binary64.wholePart mantissa exponent = ⌊(mantissa * 2 ^ exponent : ℚ)⌋₊ := by
  rw [Binary64.wholePart]
  split
  next whole =>
    obtain ⟨power, rfl⟩ := Int.eq_ofNat_of_zero_le whole
    rw [Int.toNat_natCast, Nat.shiftLeft_eq, zpow_natCast]
    exact_mod_cast (Nat.floor_natCast (R := ℚ) (mantissa * 2 ^ power)).symm
  next broken =>
    obtain ⟨power, rfl⟩ : ∃ power : ℕ, exponent = -power := ⟨(-exponent).toNat, by omega⟩
    rw [neg_neg, Int.toNat_natCast, Nat.shiftRight_eq_div_pow, zpow_neg, zpow_natCast,
      ← div_eq_mul_inv]
    exact_mod_cast (Nat.floor_div_eq_div (K := ℚ) mantissa (2 ^ power)).symm

namespace Range

theorem countOfSteps_mono {m n : ℕ} (le : m ≤ n) : countOfSteps m ≤ countOfSteps n :=
  min_le_min_right _ (Nat.add_le_add_right le 1)

theorem countOfSteps_of_le {steps : ℕ} (many : countLimit ≤ steps) :
    countOfSteps steps = countLimit :=
  Nat.min_eq_right (Nat.le_succ_of_le many)

/-- A quotient gives as many steps as there are whole ones in the next number. -/
theorem countOfQuotient_nearest {x : ℚ} (nonneg : 0 ≤ x) :
    countOfQuotient (.nearest x) = countOfSteps ⌊raised x⌋₊ := by
  have canonical := rounded_canonical nonneg
  rw [Binary64.nearest, abs_of_nonneg nonneg, decide_eq_false (not_lt.mpr nonneg),
    Binary64.bounded, raised]
  split
  · rw [countOfQuotient, wholePart_eq_floor, Nat.cast_add_one]
  next great =>
    have full : (2 : ℚ) ^ 52 ≤ (rounded x).1 := by
      exact_mod_cast canonical.normal.resolve_left (by omega)
    have one : (1 : ℚ) ≤ 2 ^ (rounded x).2 := one_le_zpow₀ (by norm_num) (by omega)
    have limit : (countLimit : ℚ) ≤ 2 ^ 32 := by exact_mod_cast (by decide : countLimit ≤ 2 ^ 32)
    refine (countOfSteps_of_le (Nat.le_floor ?_)).symm
    nlinarith

/-! ### The exact quotient -/

/-- The way from the first value to the bound. -/
def way (range : Range) : ℚ := amount range.last - amount range.first

/-- The number of steps in the way, which need not be whole. -/
def quotient (range : Range) : ℚ := range.way / amount range.step

/-- A range of finite doubles with a step other than zero, which leads to the bound or is not
needed to reach it. -/
structure Ordinary (range : Range) : Prop where
  first : range.first.isFinite = true
  step : range.step.isFinite = true
  last : range.last.isFinite = true
  nonzero : (range.step == 0) = false
  towards : 0 ≤ range.quotient

/-- The values counted on a way of so many units with a step of so many. -/
def countOfWay (way step : ℚ) : ℕ :=
  if 971 < (rounded way).2 then countLimit else countOfSteps ⌊raised (magnitude way / step)⌋₊

theorem countOfWay_zero (step : ℚ) : countOfWay 0 step = 1 := by
  have none : rounded 0 = (0, -1074) := by
    have kept := rounded_of_canonical canonical_zero
    rwa [Nat.cast_zero, zero_mul] at kept
  have small : (2 : ℚ) ^ (-1074 : ℤ) < 1 := zpow_lt_one_of_neg₀ (by norm_num) (by norm_num)
  have floor : ⌊raised 0⌋₊ = 0 := by
    rw [raised, none, Nat.floor_eq_zero, Nat.cast_zero, zero_add, one_mul]
    exact small
  rw [countOfWay, none, if_neg (by decide), magnitude, none, Nat.cast_zero, zero_mul, zero_div,
    floor]
  rfl

end Range

theorem Near.magnitude_pos {x : ℚ} (near : Near x) (positive : 0 < x) : 0 < magnitude x := by
  by_contra none
  have := near.le
  linarith

/-- Every finite double is a whole multiple of the least one. -/
theorem exists_multiple {x : Float} (finite : x.isFinite = true) :
    ∃ count : ℤ, amount x = count * 2 ^ (-1074 : ℤ) := by
  have consists := consists_of_finite finite
  generalize x.toModel.unpack = u, amount x = a at consists
  cases consists with
  | zero => exact ⟨0, by rw [Int.cast_zero, zero_mul]⟩
  | @finite sign m d positive double =>
    have least := double.least
    obtain ⟨power, above⟩ := Int.eq_ofNat_of_zero_le (show 0 ≤ d + 1074 by omega)
    refine ⟨sign.apply (m * 2 ^ power : ℕ), ?_⟩
    rw [cast_apply, signed_mul, show d = power + -1074 by omega, zpow_add₀ (by norm_num),
      zpow_natCast, Nat.cast_mul, Nat.cast_pow, Nat.cast_ofNat, mul_assoc]

theorem near_abs_multiple (count : ℤ) : Near |(count * 2 ^ (-1074 : ℤ) : ℚ)| := by
  have unit : (0 : ℚ) < 2 ^ (-1074 : ℤ) := by positivity
  rw [abs_mul, abs_of_pos unit, ← Int.cast_abs, ← Nat.cast_natAbs]
  exact near_of_multiple _

/-- Ways between finite doubles are rounded little. -/
theorem Range.Ordinary.near {range : Range} (ordinary : range.Ordinary) : Near |range.way| := by
  obtain ⟨first, sameFirst⟩ := exists_multiple ordinary.first
  obtain ⟨last, sameLast⟩ := exists_multiple ordinary.last
  rw [Range.way, sameFirst, sameLast, ← sub_mul, ← Int.cast_sub]
  exact near_abs_multiple _

/-! ### Other ranges -/

namespace Range

variable {range : Range}

/-- A component of the range is no number. -/
def hasNaN (range : Range) : Bool := range.first.isNaN || range.step.isNaN || range.last.isNaN

/-- The range has its first value, and no other. -/
def isSingle (range : Range) : Bool := range.first == range.last || range.step.isInf

/-- The range goes on without an end. -/
def isUnbounded (range : Range) : Bool :=
  range.first.isInf || range.last.isInf || range.step == 0

theorem count_of_hasNaN (none : range.hasNaN = true) : range.count = 0 := if_pos none

theorem count_of_pointsAway (away : range.pointsAway = true) : range.count = 0 := by
  simp only [count, away, if_true, ite_self]

theorem count_of_isSingle (numbers : range.hasNaN = false) (towards : range.pointsAway = false)
    (single : range.isSingle = true) : range.count = 1 := by
  rw [hasNaN] at numbers
  rw [isSingle] at single
  simp only [count, numbers, towards, single, Bool.false_eq_true, if_false, if_true]

theorem count_of_isUnbounded (numbers : range.hasNaN = false) (towards : range.pointsAway = false)
    (more : range.isSingle = false) (unbounded : range.isUnbounded = true) :
    range.count = countLimit := by
  rw [hasNaN] at numbers
  rw [isSingle] at more
  rw [isUnbounded] at unbounded
  simp only [count, numbers, towards, more, unbounded, Bool.false_eq_true, if_false, if_true]

theorem count_of_bounded (numbers : range.hasNaN = false) (towards : range.pointsAway = false)
    (more : range.isSingle = false) (bounded : range.isUnbounded = false) :
    range.count = countOfQuotient (.ofFloat ((range.last - range.first) / range.step)) := by
  rw [hasNaN] at numbers
  rw [isSingle] at more
  rw [isUnbounded] at bounded
  simp only [count, numbers, towards, more, bounded, Bool.false_eq_true, if_false]

theorem count_le_limit (range : Range) : range.count ≤ countLimit :=
  Nat.le_of_lt_succ range.count_lt

theorem countOfQuotient_pos (quotient : Binary64) : 0 < countOfQuotient quotient := by
  unfold countOfQuotient
  split
  · exact Nat.lt_min.mpr ⟨Nat.succ_pos _, by decide⟩
  · decide
  · decide

/-- A range that leads to its bound has a value. -/
theorem count_pos (numbers : range.hasNaN = false) (towards : range.pointsAway = false) :
    0 < range.count := by
  cases single : range.isSingle with
  | true =>
    rw [count_of_isSingle numbers towards single]
    exact Nat.one_pos
  | false =>
    cases unbounded : range.isUnbounded with
    | true =>
      rw [count_of_isUnbounded numbers towards single unbounded]
      decide
    | false =>
      rw [count_of_bounded numbers towards single unbounded]
      exact countOfQuotient_pos _

end Range

/-! ### Counting an ordinary range -/

theorem amount_zero : amount 0 = 0 := (consists_of_finite (x := 0) rfl).unique (.zero .positive)

theorem amount_ne_zero {x : Float} (finite : x.isFinite = true) (nonzero : (x == 0) = false) :
    amount x ≠ 0 := by
  intro zero
  rw [← amount_zero, ← beq_iff_amount finite rfl, nonzero] at zero
  contradiction

/-- An infinite double over a finite one of its sign is positive infinity. -/
theorem ofFloat_div_infinite {x y : Float} {negative : Bool}
    (infinite : Binary64.ofFloat x = .infinite negative) (finite : y.isFinite = true)
    (nonzero : amount y ≠ 0) (same : negative = decide (amount y < 0)) :
    Binary64.ofFloat (x / y) = .infinite false := by
  have right := consists_of_finite finite
  rw [Binary64.ofFloat_eq] at infinite ⊢
  show Binary64.ofUnpacked (Float.Model.pack (UnpackedFloat.div Format.binary64
    x.toModel.unpack y.toModel.unpack)).unpack = _
  generalize y.toModel.unpack = v, amount y = b at right nonzero same ⊢
  cases unpacked : x.toModel.unpack with
  | notANumber | zero | finite =>
    rw [unpacked] at infinite
    cases infinite
  | infinity sign =>
    rw [unpacked] at infinite
    cases infinite
    cases right with
    | zero => exact absurd rfl nonzero
    | @finite other n e positive double =>
      have some' : (0 : ℚ) < n * 2 ^ e := by positivity
      have endless : Binary64.ofUnpacked (Float.Model.pack (.infinity .positive)).unpack =
          .infinite false := rfl
      cases sign <;> cases other
      · exact endless
      · rw [signed_positive, decide_eq_false (not_lt.mpr some'.le)] at same
        cases same
      · rw [signed_negative, decide_eq_true (neg_lt_zero.mpr some')] at same
        cases same
      · exact endless

namespace Range

variable {range : Range}

theorem pointsAway_eq_false_iff (first : range.first.isFinite = true)
    (step : range.step.isFinite = true) (last : range.last.isFinite = true)
    (nonzero : (range.step == 0) = false) :
    range.pointsAway = false ↔ 0 ≤ range.quotient := by
  have apart := amount_ne_zero step nonzero
  have falling := lt_iff_amount step (y := 0) rfl
  rw [amount_zero] at falling
  rw [quotient, way, div_nonneg_iff, pointsAway, ← Bool.not_eq_true]
  split
  next negative =>
    rw [falling] at negative
    rw [decide_eq_true_iff, lt_iff_amount first last, sub_nonneg, sub_nonpos, not_lt]
    exact ⟨fun behind => Or.inr ⟨behind, negative.le⟩, fun either => either.elim
      (fun wrong => absurd (wrong.2.trans_lt negative) (lt_irrefl _)) And.left⟩
  next positive =>
    rw [falling, not_lt] at positive
    have positive := positive.lt_of_ne apart.symm
    rw [decide_eq_true_iff, lt_iff_amount last first, sub_nonneg, sub_nonpos, not_lt]
    exact ⟨fun behind => Or.inl ⟨behind, positive.le⟩, fun either => either.elim And.left
      fun wrong => absurd (positive.trans_le wrong.2) (lt_irrefl _)⟩

/-- An ordinary range is told from others by what the count asks for. -/
theorem ordinary_of_finite (first : range.first.isFinite = true)
    (step : range.step.isFinite = true) (last : range.last.isFinite = true)
    (nonzero : (range.step == 0) = false) (towards : range.pointsAway = false) : range.Ordinary :=
  ⟨first, step, last, nonzero, (pointsAway_eq_false_iff first step last nonzero).mp towards⟩

namespace Ordinary

variable (ordinary : range.Ordinary)
include ordinary

theorem step_ne_zero : amount range.step ≠ 0 := amount_ne_zero ordinary.step ordinary.nonzero

theorem hasNaN_eq : range.hasNaN = false := by
  rw [hasNaN, (isFinite_iff.mp ordinary.first).1, (isFinite_iff.mp ordinary.step).1,
    (isFinite_iff.mp ordinary.last).1]
  rfl

theorem pointsAway_eq : range.pointsAway = false :=
  (pointsAway_eq_false_iff ordinary.first ordinary.step ordinary.last ordinary.nonzero).mpr
    ordinary.towards

theorem isUnbounded_eq : range.isUnbounded = false := by
  rw [isUnbounded, (isFinite_iff.mp ordinary.first).2, (isFinite_iff.mp ordinary.last).2,
    ordinary.nonzero]
  rfl

theorem isSingle_iff : range.isSingle = true ↔ range.way = 0 := by
  rw [isSingle, (isFinite_iff.mp ordinary.step).2, Bool.or_false,
    beq_iff_amount ordinary.first ordinary.last, way, sub_eq_zero, eq_comm]

/-- Way and step have one sign. -/
theorem same_sign (apart : range.way ≠ 0) : range.way < 0 ↔ amount range.step < 0 := by
  have nonzero := ordinary.step_ne_zero
  have towards := ordinary.towards
  rw [quotient, div_nonneg_iff] at towards
  rcases towards with ⟨up, up'⟩ | ⟨down, down'⟩
  · exact iff_of_false (not_lt.mpr up) (not_lt.mpr up')
  · exact iff_of_true (down.lt_of_ne apart) (down'.lt_of_ne nonzero)

theorem quotient_eq : range.quotient = |range.way| / |amount range.step| := by
  rw [← abs_div]
  exact (abs_of_nonneg ordinary.towards).symm

/-- A range of finite doubles counts the steps of the rounded way. -/
theorem count_eq : range.count = countOfWay |range.way| |amount range.step| := by
  have nonzero := ordinary.step_ne_zero
  rcases eq_or_ne range.way 0 with none | apart
  · rw [count_of_isSingle ordinary.hasNaN_eq ordinary.pointsAway_eq
      (ordinary.isSingle_iff.mpr none), none, abs_zero, countOfWay_zero]
  have sign := ordinary.same_sign apart
  have difference :=
    ofFloat_sub ordinary.last ordinary.first fun same => apart (sub_eq_zero.mpr same)
  rw [count_of_bounded ordinary.hasNaN_eq ordinary.pointsAway_eq
    (Bool.eq_false_iff.mpr (mt ordinary.isSingle_iff.mp apart)) ordinary.isUnbounded_eq, countOfWay]
  rw [← way, Binary64.nearest, Binary64.bounded] at difference
  split
  next great =>
    rw [if_neg (not_le.mpr great)] at difference
    rw [ofFloat_div_infinite difference ordinary.step nonzero (decide_eq_decide.mpr sign)]
    rfl
  next bounded =>
    rw [if_pos (not_lt.mp bounded)] at difference
    have exact : amount (range.last - range.first) =
        (if range.way < 0 then -1 else 1) * magnitude |range.way| := by
      rw [amount, difference, Binary64.value, magnitude]
      simp only [decide_eq_true_eq]
    have some' := ordinary.near.magnitude_pos (abs_pos.mpr apart)
    have dividend : amount (range.last - range.first) ≠ 0 := by
      rw [exact]
      split
      · linarith
      · linarith
    have quotient : amount (range.last - range.first) / amount range.step =
        magnitude |range.way| / |amount range.step| := by
      rw [exact]
      split
      next negative =>
        rw [abs_of_neg (sign.mp negative), neg_one_mul, neg_div, div_neg]
      next positive =>
        rw [abs_of_nonneg (not_lt.mp (sign.not.mp positive)), one_mul]
    rw [ofFloat_div (isFinite_of_ofFloat difference) ordinary.step dividend nonzero, quotient,
      countOfQuotient_nearest (by positivity)]

/-- The number of steps in the rounded way. -/
theorem quotient_of_magnitude :
    range.quotient ≤ magnitude |range.way| / |amount range.step| * (1 + 1 / 2 ^ 53) ∧
      magnitude |range.way| / |amount range.step| * (1 - 1 / 2 ^ 53) ≤ range.quotient := by
  have step : 0 < |amount range.step| := abs_pos.mpr ordinary.step_ne_zero
  rw [ordinary.quotient_eq, div_mul_eq_mul_div, div_mul_eq_mul_div]
  constructor
  · gcongr
    exact ordinary.near.le
  · gcongr
    exact ordinary.near.ge

/-- A range counts the whole steps in the way at least, as far as counts go. -/
theorem floor_quotient_lt_count (steps : ℕ) (within : steps ≤ range.quotient)
    (small : steps < 2 ^ 32) : min (steps + 1) countLimit ≤ range.count := by
  rw [ordinary.count_eq, countOfWay]
  split
  · exact Nat.min_le_right ..
  · have kept := magnitude_nonneg |range.way|
    have close := within.trans ordinary.quotient_of_magnitude.1
    exact countOfSteps_mono (Nat.le_floor (le_raised (by positivity) small close))

theorem count_of_overflow (beyond : overflowLimit ≤ |range.way|) : range.count = countLimit := by
  rw [ordinary.count_eq, countOfWay, if_pos ((rounded_overflows_iff (abs_nonneg _)).mpr beyond)]

/-- Where the way does not overflow, nothing but rounding leads beyond the bound. -/
theorem count_le_quotient (bounded : |range.way| < overflowLimit) :
    (range.count : ℚ) - 1 ≤ range.quotient * (1 + 1 / 2 ^ 50) := by
  have kept := magnitude_nonneg |range.way|
  have towards := ordinary.towards
  obtain ⟨_, above⟩ := ordinary.quotient_of_magnitude
  have steps : range.count ≤ ⌊raised (magnitude |range.way| / |amount range.step|)⌋₊ + 1 := by
    rw [ordinary.count_eq, countOfWay,
      if_neg ((rounded_overflows_iff (abs_nonneg _)).not.mpr (not_le.mpr bounded))]
    exact Nat.min_le_left ..
  have nonneg : 0 ≤ magnitude |range.way| / |amount range.step| := by positivity
  generalize magnitude |range.way| / |amount range.step| = rough at *
  rcases lt_or_ge (raised rough) 1 with none | some'
  · rw [Nat.floor_eq_zero.mpr none] at steps
    have : (range.count : ℚ) ≤ 1 := by exact_mod_cast steps
    have : 0 ≤ range.quotient * (1 + 1 / 2 ^ 50) := by positivity
    linarith
  · have counted : (range.count : ℚ) ≤ raised rough + 1 := by
      have : (range.count : ℚ) ≤ ⌊raised rough⌋₊ + 1 := by exact_mod_cast steps
      have := Nat.floor_le (raised_nonneg rough)
      linarith
    have next := raised_le nonneg some'
    linarith

end Ordinary

end Range

/-- A range never loses its last value to rounding: it counts the values that the exact quotient
gives, or more. -/
theorem count_reaches_last {range : Range} (ordinary : range.Ordinary) :
    min (⌊range.quotient⌋₊ + 1) Range.countLimit ≤ range.count := by
  rcases Nat.lt_or_ge ⌊range.quotient⌋₊ (2 ^ 32) with small | great
  · exact ordinary.floor_quotient_lt_count _ (Nat.floor_le ordinary.towards) small
  · have many : ((2 ^ 32 - 1 : ℕ) : ℚ) ≤ range.quotient :=
      (Nat.le_floor_iff ordinary.towards).mp ((Nat.sub_le _ 1).trans great)
    have reached := ordinary.floor_quotient_lt_count (2 ^ 32 - 1) many (by decide)
    exact (Nat.min_le_right ..).trans reached

/-- The way of just three steps is rounded below them. -/
theorem count_reaches_last_rounded :
    (Range.mk 0.7 0.7 2.8).Ordinary ∧ ((2.8 - 0.7) / 0.7 : Float) < 3 ∧
      min (⌊(Range.mk 0.7 0.7 2.8).quotient⌋₊ + 1) Range.countLimit ≤
        (Range.mk 0.7 0.7 2.8).count := by
  have ordinary := @Range.ordinary_of_finite ⟨0.7, 0.7, 2.8⟩ (by decide) (by decide) (by decide)
    (by decide) (by decide)
  exact ⟨ordinary, by decide, count_reaches_last ordinary⟩

/-- A range counts beyond its bound by no more than rounding, unless its way is too great for a
double. Then its count is the greatest one, whatever the step is. -/
theorem count_within_quotient_iff {range : Range} (ordinary : range.Ordinary) :
    ((range.count : ℚ) - 1 ≤ range.quotient * (1 + 1 / 2 ^ 50) ↔
      (overflowLimit ≤ |range.way| →
        (Range.countLimit : ℚ) - 1 ≤ range.quotient * (1 + 1 / 2 ^ 50))) ∧
      (overflowLimit ≤ |range.way| → range.count = Range.countLimit) := by
  have overflows := ordinary.count_of_overflow
  refine ⟨⟨fun within beyond => overflows beyond ▸ within, fun within => ?_⟩, overflows⟩
  rcases lt_or_ge |range.way| overflowLimit with bounded | beyond
  · exact ordinary.count_le_quotient bounded
  · rw [overflows beyond]
    exact within beyond

/-- The exact quotient is less than three, and rounding counts the value at three steps. -/
theorem count_within_quotient_iff_rounded :
    (Range.mk 0 0.1 0.3).Ordinary ∧ (Range.mk 0 0.1 0.3).count = 4 ∧
      (((Range.mk 0 0.1 0.3).count : ℚ) - 1 ≤
          (Range.mk 0 0.1 0.3).quotient * (1 + 1 / 2 ^ 50) ↔
        (overflowLimit ≤ |(Range.mk 0 0.1 0.3).way| →
          (Range.countLimit : ℚ) - 1 ≤ (Range.mk 0 0.1 0.3).quotient * (1 + 1 / 2 ^ 50))) := by
  have ordinary := @Range.ordinary_of_finite ⟨0, 0.1, 0.3⟩ (by decide) (by decide) (by decide)
    (by decide) (by decide)
  exact ⟨ordinary, by decide +kernel, (count_within_quotient_iff ordinary).1⟩

/-- The way is less than two steps, but too great for a double, and every count is exceeded. -/
theorem count_beyond_quotient :
    (Range.mk (-1e308) 1.5e308 1e308).Ordinary ∧
      (Range.mk (-1e308) 1.5e308 1e308).count = 4294967295 ∧
      ¬ ((Range.mk (-1e308) 1.5e308 1e308).count : ℚ) - 1 ≤
        (Range.mk (-1e308) 1.5e308 1e308).quotient * (1 + 1 / 2 ^ 50) := by
  have ordinary := @Range.ordinary_of_finite ⟨-1e308, 1.5e308, 1e308⟩ (by decide +kernel)
    (by decide +kernel) (by decide +kernel) (by decide +kernel) (by decide +kernel)
  have counted : (Range.mk (-1e308) 1.5e308 1e308).count = 4294967295 := by decide +kernel
  have positive : amount 0 < amount 1e308 :=
    (lt_iff_amount (by decide +kernel) (by decide +kernel)).mp (by decide +kernel)
  have shorter : amount 1e308 ≤ amount 1.5e308 :=
    (le_iff_amount (by decide +kernel) (by decide +kernel)).mp (by decide +kernel)
  have few : (Range.mk (-1e308) 1.5e308 1e308).quotient ≤ 2 := by
    rw [Range.quotient, Range.way, amount_neg (by decide +kernel)]
    rw [amount_zero] at positive
    generalize amount 1e308 = bound, amount 1.5e308 = step at *
    rw [div_le_iff₀ (by linarith)]
    linarith
  refine ⟨ordinary, counted, ?_⟩
  rw [counted]
  generalize Range.quotient _ = quotient at *
  push_cast
  linarith

end SolidScript
