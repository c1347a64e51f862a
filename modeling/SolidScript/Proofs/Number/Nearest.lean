/-
This file defines the double nearest to a rational number, and proves what any account of the errors
of arithmetic rests on: rounding is monotone, changes no number that a double denotes, moves others
by no more than half a unit in the last place of the result, and leaves the doubles only from half
a unit beyond the greatest one.
-/

import Mathlib.Data.Int.Log
import Mathlib.Algebra.Order.Field.Power
import Mathlib.Data.Rat.Floor
import Mathlib.Tactic.Positivity
import Mathlib.Tactic.Ring
import Mathlib.Tactic.Linarith
import SolidScript.Proofs.Doubles

namespace SolidScript

/-! ### Rounding to natural numbers -/

/-- The natural number nearest to a number that is not negative. A half goes to the even one. -/
def roundEven (x : ℚ) : ℕ :=
  match compare (x - ⌊x⌋₊) (1 / 2) with
  | .lt => ⌊x⌋₊
  | .eq => ⌊x⌋₊ + ⌊x⌋₊ % 2
  | .gt => ⌊x⌋₊ + 1

theorem roundEven_of_lt {x : ℚ} (below : x - ⌊x⌋₊ < 1 / 2) : roundEven x = ⌊x⌋₊ := by
  rw [roundEven, compare_lt_iff_lt.mpr below]

theorem roundEven_of_eq {x : ℚ} (half : x - ⌊x⌋₊ = 1 / 2) : roundEven x = ⌊x⌋₊ + ⌊x⌋₊ % 2 := by
  rw [roundEven, compare_eq_iff_eq.mpr half]

theorem roundEven_of_gt {x : ℚ} (above : 1 / 2 < x - ⌊x⌋₊) : roundEven x = ⌊x⌋₊ + 1 := by
  rw [roundEven, compare_gt_iff_gt.mpr above]

theorem roundEven_bounds (x : ℚ) : ⌊x⌋₊ ≤ roundEven x ∧ roundEven x ≤ ⌊x⌋₊ + 1 := by
  rcases lt_trichotomy (x - ⌊x⌋₊) (1 / 2) with below | half | above
  · rw [roundEven_of_lt below]
    omega
  · rw [roundEven_of_eq half]
    omega
  · rw [roundEven_of_gt above]
    omega

theorem roundEven_natCast (n : ℕ) : roundEven n = n := by
  rw [roundEven_of_lt, Nat.floor_natCast]
  rw [Nat.floor_natCast, sub_self]
  norm_num

theorem abs_sub_roundEven_le {x : ℚ} (nonneg : 0 ≤ x) : |x - roundEven x| ≤ 1 / 2 := by
  have low := Nat.floor_le nonneg
  have high := Nat.lt_floor_add_one x
  rw [abs_le]
  rcases lt_trichotomy (x - ⌊x⌋₊) (1 / 2) with below | half | above
  · rw [roundEven_of_lt below]
    constructor <;> linarith
  · rw [roundEven_of_eq half]
    rcases Nat.mod_two_eq_zero_or_one ⌊x⌋₊ with even | odd
    · rw [even, Nat.add_zero]
      constructor <;> linarith
    · rw [odd]
      push_cast
      constructor <;> linarith
  · rw [roundEven_of_gt above]
    push_cast
    constructor <;> linarith

theorem roundEven_mono {x y : ℚ} (le : x ≤ y) : roundEven x ≤ roundEven y := by
  have boundsLeft := roundEven_bounds x
  have boundsRight := roundEven_bounds y
  rcases Nat.lt_or_eq_of_le (Nat.floor_mono le) with less | same
  · omega
  rcases lt_trichotomy (x - ⌊x⌋₊) (1 / 2) with below | half | above
  · rw [roundEven_of_lt below]
    omega
  · rcases eq_or_lt_of_le le with rfl | strict
    · exact Nat.le_refl _
    · rw [roundEven_of_gt (x := y) (by rw [← same]; linarith)]
      omega
  · rw [roundEven_of_gt (x := y) (by rw [← same]; linarith)]
    omega

/-! ### Mantissas and exponents -/

/-- The mantissas and exponents that rounding gives: those of doubles, of zero, and of greater
numbers that no double denotes. -/
structure Canonical (mantissa : ℕ) (exponent : ℤ) : Prop where
  small : mantissa < 2 ^ 53
  least : -1074 ≤ exponent
  normal : exponent = -1074 ∨ 2 ^ 52 ≤ mantissa

theorem IsDouble.canonical {mantissa : ℕ} {exponent : ℤ} (double : IsDouble mantissa exponent) :
    Canonical mantissa exponent :=
  ⟨double.small, double.least, double.normal⟩

theorem canonical_zero : Canonical 0 (-1074) := ⟨by decide, Int.le_refl _, Or.inl rfl⟩

namespace Canonical

variable {m n : ℕ} {d e : ℤ}

theorem isDouble (canonical : Canonical m d) (positive : 0 < m) (greatest : d ≤ 971) :
    IsDouble m d :=
  ⟨positive, canonical.small, canonical.least, greatest, canonical.normal⟩

/-- The greater exponent has the greater number, whatever the mantissas are. -/
theorem succ_le_of_exponent_lt (left : Canonical m d) (right : Canonical n e) (less : d < e) :
    (m + 1) * (2 : ℚ) ^ d ≤ n * 2 ^ e := by
  have full : 2 ^ 52 ≤ n := right.normal.resolve_left fun least => by
    have := left.least
    omega
  have unit : (0 : ℚ) < 2 ^ d := by positivity
  have next : (2 : ℚ) ^ (d + 1) ≤ 2 ^ e := zpow_le_zpow_right₀ (by norm_num) less
  have small : (m : ℚ) + 1 ≤ 2 ^ 53 := by exact_mod_cast left.small
  have large : (2 : ℚ) ^ 52 ≤ n := by exact_mod_cast full
  calc (m + 1) * (2 : ℚ) ^ d ≤ 2 ^ 53 * 2 ^ d := by gcongr
    _ = 2 ^ 52 * 2 ^ (d + 1) := by rw [zpow_add_one₀ (by norm_num)]; ring
    _ ≤ n * 2 ^ e := by gcongr

/-- Mantissas and exponents are in the order of the numbers. -/
theorem lt_iff (left : Canonical m d) (right : Canonical n e) :
    (m * (2 : ℚ) ^ d < n * 2 ^ e) ↔ d < e ∨ d = e ∧ m < n := by
  have unit : (0 : ℚ) < 2 ^ d := by positivity
  rcases lt_trichotomy d e with less | rfl | greater
  · refine iff_of_true ?_ (Or.inl less)
    have := left.succ_le_of_exponent_lt right less
    linarith
  · rw [mul_lt_mul_iff_of_pos_right unit, Nat.cast_lt]
    simp
  · have unit' : (0 : ℚ) < 2 ^ e := by positivity
    have := right.succ_le_of_exponent_lt left greater
    refine iff_of_false (not_lt.mpr (by linarith)) (by omega)

/-- Between a number and the next one there is none. -/
theorem succ_le (left : Canonical m d) (right : Canonical n e)
    (less : m * (2 : ℚ) ^ d < n * 2 ^ e) : (m + 1) * (2 : ℚ) ^ d ≤ n * 2 ^ e := by
  rcases (left.lt_iff right).mp less with exponents | ⟨rfl, mantissas⟩
  · exact left.succ_le_of_exponent_lt right exponents
  · have : (m : ℚ) + 1 ≤ n := by exact_mod_cast mantissas
    gcongr

/-- A number has one mantissa and one exponent. -/
theorem unique (left : Canonical m d) (right : Canonical n e)
    (same : m * (2 : ℚ) ^ d = n * 2 ^ e) : m = n ∧ d = e := by
  have notLess := (left.lt_iff right).not.mp same.not_lt
  have notGreater := (right.lt_iff left).not.mp same.not_gt
  omega

/-- The next numbers are in the order of the numbers. -/
theorem succ_mono (left : Canonical m d) (right : Canonical n e)
    (le : m * (2 : ℚ) ^ d ≤ n * 2 ^ e) : (m + 1) * (2 : ℚ) ^ d ≤ (n + 1) * 2 ^ e := by
  rcases lt_or_eq_of_le le with less | same
  · have := left.succ_le right less
    have unit : (0 : ℚ) < 2 ^ e := by positivity
    linarith
  · obtain ⟨rfl, rfl⟩ := left.unique right same
    exact le_refl _

end Canonical

/-! ### The nearest magnitude -/

/-- The exponent of the last bit of the doubles near to a number that is not negative. -/
def lastExponent (x : ℚ) : ℤ := if x = 0 then -1074 else max (Int.log 2 x - 52) (-1074)

/-- A number counted in units of the last place of the doubles near to it. -/
def scaled (x : ℚ) : ℚ := x / 2 ^ lastExponent x

/-- Mantissa and exponent nearest to a number that is not negative. A mantissa that rounding makes
one bit too long is halved. -/
def rounded (x : ℚ) : ℕ × ℤ :=
  if roundEven (scaled x) = 2 ^ 53 then (2 ^ 52, lastExponent x + 1)
  else (roundEven (scaled x), lastExponent x)

/-- A number that is not negative, rounded to the bits of a double, however great it is. -/
def magnitude (x : ℚ) : ℚ := (rounded x).1 * 2 ^ (rounded x).2

theorem lastExponent_zero : lastExponent 0 = -1074 := if_pos rfl

theorem lastExponent_of_pos {x : ℚ} (positive : 0 < x) :
    lastExponent x = max (Int.log 2 x - 52) (-1074) := if_neg positive.ne'

theorem least_le_lastExponent (x : ℚ) : -1074 ≤ lastExponent x := by
  rw [lastExponent]
  split
  · exact le_refl _
  · exact le_max_right ..

theorem scaled_mul (x : ℚ) : scaled x * 2 ^ lastExponent x = x :=
  div_mul_cancel₀ x (by positivity)

theorem scaled_nonneg {x : ℚ} (nonneg : 0 ≤ x) : 0 ≤ scaled x := by
  unfold scaled
  positivity

theorem scaled_lt {x : ℚ} (nonneg : 0 ≤ x) : scaled x < 2 ^ 53 := by
  rcases nonneg.eq_or_lt with rfl | positive
  · rw [scaled, zero_div]
    positivity
  have wide : Int.log 2 x + 1 ≤ 53 + lastExponent x := by
    rw [lastExponent_of_pos positive]
    omega
  rw [scaled, div_lt_iff₀ (by positivity)]
  calc x < (2 : ℚ) ^ (Int.log 2 x + 1) := Int.lt_zpow_succ_log_self (by decide) x
    _ ≤ 2 ^ (53 + lastExponent x) := zpow_le_zpow_right₀ (by norm_num) wide
    _ = 2 ^ 53 * 2 ^ lastExponent x := zpow_add₀ (by norm_num) ..

/-- Above the least exponent a mantissa has all its bits. -/
theorem le_scaled {x : ℚ} (nonneg : 0 ≤ x) (above : lastExponent x ≠ -1074) :
    2 ^ 52 ≤ scaled x := by
  have positive : 0 < x := nonneg.lt_of_ne fun zero => above (zero ▸ lastExponent_zero)
  have exact : Int.log 2 x = 52 + lastExponent x := by
    rw [lastExponent_of_pos positive] at above ⊢
    omega
  rw [scaled, le_div_iff₀ (by positivity)]
  calc (2 : ℚ) ^ 52 * 2 ^ lastExponent x = 2 ^ (52 + lastExponent x) :=
        (zpow_add₀ (by norm_num) ..).symm
    _ ≤ x := exact ▸ Int.zpow_log_le_self (by decide) positive

theorem roundEven_scaled_le {x : ℚ} (nonneg : 0 ≤ x) : roundEven (scaled x) ≤ 2 ^ 53 := by
  have le := roundEven_mono (y := (2 ^ 53 : ℕ)) (by exact_mod_cast (scaled_lt nonneg).le)
  rwa [roundEven_natCast] at le

theorem le_roundEven_scaled {x : ℚ} (full : 2 ^ 52 ≤ scaled x) :
    2 ^ 52 ≤ roundEven (scaled x) := by
  have le := roundEven_mono (x := (2 ^ 52 : ℕ)) (by exact_mod_cast full)
  rwa [roundEven_natCast] at le

theorem rounded_canonical {x : ℚ} (nonneg : 0 ≤ x) :
    Canonical (rounded x).1 (rounded x).2 := by
  have least := least_le_lastExponent x
  have small := roundEven_scaled_le nonneg
  unfold rounded
  split
  · exact ⟨Nat.pow_lt_pow_right (by decide) (by decide), by omega, Or.inr (le_refl _)⟩
  · refine ⟨by omega, least, ?_⟩
    rcases eq_or_ne (lastExponent x) (-1074) with same | above
    · exact Or.inl same
    · exact Or.inr (le_roundEven_scaled (le_scaled nonneg above))

theorem magnitude_eq (x : ℚ) : magnitude x = roundEven (scaled x) * 2 ^ lastExponent x := by
  unfold magnitude rounded
  split
  next carries =>
    rw [carries, zpow_add_one₀ (by norm_num)]
    push_cast
    ring
  next => rfl

theorem magnitude_nonneg (x : ℚ) : 0 ≤ magnitude x := by
  unfold magnitude
  positivity

/-- A number rounded to the bits of a double, however great it is. -/
def signedMagnitude (number : ℚ) : ℚ := (if number < 0 then -1 else 1) * magnitude |number|

theorem abs_signedMagnitude (number : ℚ) : |signedMagnitude number| = magnitude |number| := by
  rw [signedMagnitude, abs_mul, abs_of_nonneg (magnitude_nonneg _)]
  split <;> simp

/-- The sign does not change how far a number is from what it is rounded to. -/
theorem abs_sub_signedMagnitude (number : ℚ) :
    |number - signedMagnitude number| = abs (|number| - magnitude |number|) := by
  rw [signedMagnitude]
  split
  next negative => rw [abs_of_neg negative, ← abs_neg]; congr 1; ring
  next positive => rw [abs_of_nonneg (not_lt.mp positive), one_mul]

/-- A number is at most half a unit in the last place away from the nearest magnitude. -/
theorem abs_sub_magnitude_le {x : ℚ} (nonneg : 0 ≤ x) :
    |x - magnitude x| ≤ 2 ^ lastExponent x / 2 := by
  have unit : (0 : ℚ) < 2 ^ lastExponent x := by positivity
  calc |x - magnitude x| = |scaled x - roundEven (scaled x)| * 2 ^ lastExponent x := by
        nth_rewrite 1 [magnitude_eq, ← scaled_mul x]
        rw [← sub_mul, abs_mul, abs_of_pos unit]
    _ ≤ 1 / 2 * 2 ^ lastExponent x := by
        gcongr
        exact abs_sub_roundEven_le (scaled_nonneg nonneg)
    _ = 2 ^ lastExponent x / 2 := by ring

theorem lastExponent_le_rounded (x : ℚ) : lastExponent x ≤ (rounded x).2 := by
  unfold rounded
  split
  · exact Int.le_add_one (le_refl _)
  · exact le_refl _

/-! ### Rounding is monotone -/

theorem lastExponent_mono {x y : ℚ} (nonneg : 0 ≤ x) (le : x ≤ y) :
    lastExponent x ≤ lastExponent y := by
  rcases nonneg.eq_or_lt with rfl | positive
  · rw [lastExponent_zero]
    exact least_le_lastExponent y
  · rw [lastExponent_of_pos positive, lastExponent_of_pos (positive.trans_le le)]
    exact max_le_max_right _ (Int.sub_le_sub_right (Int.log_mono_right positive le) _)

theorem magnitude_mono {x y : ℚ} (nonneg : 0 ≤ x) (le : x ≤ y) : magnitude x ≤ magnitude y := by
  rw [magnitude_eq, magnitude_eq]
  rcases (lastExponent_mono nonneg le).eq_or_lt with same | less
  · have units : scaled x ≤ scaled y := by
      unfold scaled
      rw [same]
      gcongr
    have : (roundEven (scaled x) : ℚ) ≤ roundEven (scaled y) := by
      exact_mod_cast roundEven_mono units
    rw [same]
    gcongr
  · have above : lastExponent y ≠ -1074 := by
      have := least_le_lastExponent x
      omega
    have most : (roundEven (scaled x) : ℚ) ≤ 2 ^ 53 := by
      exact_mod_cast roundEven_scaled_le nonneg
    have full : (2 : ℚ) ^ 52 ≤ roundEven (scaled y) := by
      exact_mod_cast le_roundEven_scaled (le_scaled (nonneg.trans le) above)
    have next : (2 : ℚ) ^ (lastExponent x + 1) ≤ 2 ^ lastExponent y :=
      zpow_le_zpow_right₀ (by norm_num) less
    calc (roundEven (scaled x) : ℚ) * 2 ^ lastExponent x ≤ 2 ^ 53 * 2 ^ lastExponent x := by gcongr
      _ = 2 ^ 52 * 2 ^ (lastExponent x + 1) := by rw [zpow_add_one₀ (by norm_num)]; ring
      _ ≤ roundEven (scaled y) * 2 ^ lastExponent y := by gcongr

/-! ### Numbers that are not changed, or little -/

/-- What a mantissa and an exponent denote is not rounded. -/
theorem rounded_of_canonical {mantissa : ℕ} {exponent : ℤ}
    (canonical : Canonical mantissa exponent) :
    rounded (mantissa * 2 ^ exponent) = (mantissa, exponent) := by
  have small := canonical.small
  have last : lastExponent (mantissa * 2 ^ exponent) = exponent := by
    rcases Nat.eq_zero_or_pos mantissa with rfl | positive
    · rw [Nat.cast_zero, zero_mul, lastExponent_zero]
      exact (canonical.normal.resolve_right (by decide)).symm
    have some' : (0 : ℚ) < mantissa * 2 ^ exponent := by positivity
    have below : Int.log 2 (mantissa * 2 ^ exponent : ℚ) < 53 + exponent := by
      refine (Int.lt_zpow_iff_log_lt (by decide) some').mp ?_
      rw [Nat.cast_ofNat, zpow_add₀ (by norm_num)]
      have : (mantissa : ℚ) < 2 ^ 53 := by exact_mod_cast small
      gcongr
      exact this
    rw [lastExponent_of_pos some']
    rcases canonical.normal with least | full
    · omega
    · have above : 52 + exponent ≤ Int.log 2 (mantissa * 2 ^ exponent : ℚ) := by
        refine (Int.zpow_le_iff_le_log (by decide) some').mp ?_
        rw [Nat.cast_ofNat, zpow_add₀ (by norm_num)]
        have : (2 : ℚ) ^ 52 ≤ mantissa := by exact_mod_cast full
        gcongr
        exact this
      have := canonical.least
      omega
  have units : scaled (mantissa * 2 ^ exponent) = mantissa := by
    rw [scaled, last, mul_div_cancel_right₀ _ (by positivity)]
  rw [rounded, units, last, roundEven_natCast, if_neg small.ne]

/-- The number is rounded by no more than half a unit of the last of 53 bits. -/
def Near (x : ℚ) : Prop := |x - magnitude x| * 2 ^ 53 ≤ magnitude x

theorem near_of_full {x : ℚ} (nonneg : 0 ≤ x) (full : 2 ^ 52 ≤ scaled x) : Near x := by
  have unit : (0 : ℚ) < 2 ^ lastExponent x := by positivity
  have bits : (2 : ℚ) ^ 52 ≤ roundEven (scaled x) := by exact_mod_cast le_roundEven_scaled full
  calc |x - magnitude x| * 2 ^ 53 ≤ 2 ^ lastExponent x / 2 * 2 ^ 53 := by
        gcongr
        exact abs_sub_magnitude_le nonneg
    _ = 2 ^ 52 * 2 ^ lastExponent x := by ring
    _ ≤ roundEven (scaled x) * 2 ^ lastExponent x := by gcongr
    _ = magnitude x := (magnitude_eq x).symm

/-- Whole multiples of the least double are rounded with all bits, or not at all. -/
theorem near_of_multiple (count : ℕ) : Near (count * 2 ^ (-1074 : ℤ)) := by
  rcases eq_or_ne (lastExponent (count * 2 ^ (-1074 : ℤ))) (-1074) with least | above
  · have units : scaled (count * 2 ^ (-1074 : ℤ)) = count := by
      rw [scaled, least, mul_div_cancel_right₀ _ (by positivity)]
    rw [Near, magnitude_eq, units, roundEven_natCast, least, sub_self, abs_zero, zero_mul]
    positivity
  · exact near_of_full (by positivity) (le_scaled (by positivity) above)

theorem Near.le {x : ℚ} (near : Near x) : x ≤ magnitude x * (1 + 1 / 2 ^ 53) := by
  have := le_abs_self (x - magnitude x)
  rw [Near] at near
  linarith

theorem Near.ge {x : ℚ} (near : Near x) : magnitude x * (1 - 1 / 2 ^ 53) ≤ x := by
  have := neg_abs_le (x - magnitude x)
  rw [Near] at near
  linarith

/-! ### The greatest double -/

/-- From here on numbers are rounded to an infinity: half a unit beyond the greatest double. -/
def overflowLimit : ℚ := (2 ^ 54 - 1) * 2 ^ (970 : ℤ)

theorem roundEven_overflow : roundEven (2 ^ 53 - 1 / 2) = 2 ^ 53 := by
  have whole : ⌊(2 ^ 53 - 1 / 2 : ℚ)⌋₊ = 2 ^ 53 - 1 := by
    rw [Nat.floor_eq_iff (by norm_num)]
    norm_num
  rw [roundEven_of_eq (by rw [whole]; norm_num), whole]
  rfl

theorem roundEven_lt_overflow {x : ℚ} (nonneg : 0 ≤ x) (below : x < 2 ^ 53 - 1 / 2) :
    roundEven x < 2 ^ 53 := by
  have bounds := roundEven_bounds x
  have whole : ⌊x⌋₊ < 2 ^ 53 := (Nat.floor_lt nonneg).mpr (by push_cast; linarith)
  rcases Nat.lt_or_ge (⌊x⌋₊ + 1) (2 ^ 53) with less | last
  · omega
  · have same : ⌊x⌋₊ = 2 ^ 53 - 1 := by omega
    rw [roundEven_of_lt (by rw [same]; push_cast; linarith)]
    exact whole

/-- The exponents of doubles are left by the numbers beyond the limit, and by no others. -/
theorem rounded_overflows_iff {x : ℚ} (nonneg : 0 ≤ x) :
    971 < (rounded x).2 ↔ overflowLimit ≤ x := by
  have limit : overflowLimit = (2 ^ 53 - 1 / 2) * 2 ^ (971 : ℤ) := by
    rw [overflowLimit, show (971 : ℤ) = 970 + 1 by rfl, zpow_add_one₀ (by norm_num)]
    ring
  have scales := scaled_mul x
  have unit : (0 : ℚ) < 2 ^ (971 : ℤ) := by positivity
  rcases lt_trichotomy (lastExponent x) 971 with less | same | greater
  · have small : (2 : ℚ) ^ lastExponent x ≤ 2 ^ (970 : ℤ) :=
      zpow_le_zpow_right₀ (by norm_num) (by omega)
    have most := scaled_lt nonneg
    refine iff_of_false (fun above => ?_) (not_le.mpr ?_)
    · unfold rounded at above
      split at above
      · dsimp only at above
        omega
      · dsimp only at above
        omega
    · calc x = scaled x * 2 ^ lastExponent x := scales.symm
        _ ≤ 2 ^ 53 * 2 ^ (970 : ℤ) := by gcongr
        _ < overflowLimit := by
          rw [overflowLimit]
          gcongr
          norm_num
  · rw [same] at scales
    rw [limit, ← scales, mul_le_mul_iff_of_pos_right unit]
    rcases lt_or_ge (scaled x) (2 ^ 53 - 1 / 2) with below | beyond
    · have kept := roundEven_lt_overflow (scaled_nonneg nonneg) below
      rw [scales, rounded, if_neg kept.ne]
      exact iff_of_false (by dsimp only; omega) (not_le.mpr below)
    · have most := roundEven_scaled_le nonneg
      have least := roundEven_mono beyond
      rw [roundEven_overflow] at least
      rw [scales, rounded, if_pos (le_antisymm most least)]
      exact iff_of_true (by dsimp only; omega) beyond
  · have large : (2 : ℚ) ^ (972 : ℤ) ≤ 2 ^ lastExponent x :=
      zpow_le_zpow_right₀ (by norm_num) (by omega)
    have full := le_scaled nonneg (by omega)
    refine iff_of_true (greater.trans_le (lastExponent_le_rounded x)) ?_
    calc overflowLimit ≤ 2 ^ 54 * 2 ^ (970 : ℤ) := by
          rw [overflowLimit]
          gcongr
          norm_num
      _ = 2 ^ 52 * 2 ^ (972 : ℤ) := by
          rw [show (972 : ℤ) = 970 + 1 + 1 by rfl, zpow_add_one₀ (by norm_num),
            zpow_add_one₀ (by norm_num)]
          generalize (2 : ℚ) ^ (970 : ℤ) = unit
          ring
      _ ≤ scaled x * 2 ^ lastExponent x := by gcongr
      _ = x := scales

/-! ### The nearest double -/

namespace Binary64

/-- The rational number that a double denotes. What is not finite counts as zero. -/
def value : Binary64 → ℚ
  | .finite negative mantissa exponent => (if negative then -1 else 1) * (mantissa * 2 ^ exponent)
  | .infinite _ | .nan => 0

/-- The double with the mantissa and the exponent, or infinity if it is too great. -/
def bounded (negative : Bool) (mantissa : ℕ) (exponent : ℤ) : Binary64 :=
  if exponent ≤ 971 then .finite negative mantissa exponent else .infinite negative

/-- The double nearest to a rational number. -/
def nearest (x : ℚ) : Binary64 := bounded (x < 0) (rounded |x|).1 (rounded |x|).2

end Binary64

end SolidScript
