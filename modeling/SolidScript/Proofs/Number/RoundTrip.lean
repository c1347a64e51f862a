/-
This file proves that decimals of six significant digits survive doubles: the double nearest to one
of them is shown as it. Half the distance of two doubles is far less than what rounding to six
digits makes up for, also where the nearest double is less than a power of ten that the decimal has
reached and so is rounded at a smaller digit.
-/

import SolidScript.Proofs.Number.Closest
import SolidScript.Proofs.Number.Rendering

namespace SolidScript

/-! ### Six digits -/

theorem lastPlace_of_log {x : ℚ} {power : ℤ} (log : Int.log 10 x = power + 5) :
    lastPlace 6 x = 10 ^ power := by
  rw [lastPlace, log]
  congr 1
  push_cast
  ring

/-- A number is rounded to a multiple of its last place that is less than half of that away. -/
theorem roundedTo_of_log {x : ℚ} {count power : ℤ} (log : Int.log 10 x = power + 5)
    (close : |x - count * 10 ^ power| < 10 ^ power / 2) : roundedTo 6 x = count * 10 ^ power := by
  have unit : (0 : ℚ) < 10 ^ power := by positivity
  obtain ⟨low, high⟩ := abs_lt.mp close
  have nearest : round (x / 10 ^ power) = count := by
    rw [round_eq, Int.floor_eq_iff]
    constructor
    · rw [← sub_le_iff_le_add, le_div_iff₀ unit]
      linarith
    · rw [← lt_sub_iff_add_lt, div_lt_iff₀ unit]
      linarith
  rw [roundedTo, lastPlace_of_log log, nearest]

/-- A number near to one of six digits is rounded to it. A number below the power of ten that the
six digits have reached is rounded at the seventh digit of that. -/
theorem roundedTo_of_close {x : ℚ} {count : ℕ} {power : ℤ} (full : 10 ^ 5 ≤ count)
    (short : count < 10 ^ 6) (close : |x - count * 10 ^ power| < 10 ^ power / 20) :
    roundedTo 6 x = count * 10 ^ power := by
  have unit : (0 : ℚ) < 10 ^ power := by positivity
  obtain ⟨low, high⟩ := abs_lt.mp close
  have least : (10 ^ 5 : ℚ) * 10 ^ power ≤ count * 10 ^ power := by
    have : (10 ^ 5 : ℚ) ≤ count := by exact_mod_cast full
    gcongr
  have most : (count : ℚ) * 10 ^ power ≤ (10 ^ 6 - 1) * 10 ^ power := by
    have : (count : ℚ) + 1 ≤ 10 ^ 6 := by exact_mod_cast short
    gcongr
    linarith
  have positive : 0 < x := by linarith
  have scale : ∀ places : ℕ, (10 : ℚ) ^ (power + places) = 10 ^ places * 10 ^ power := by
    intro places
    rw [zpow_add₀ (by norm_num), zpow_natCast, mul_comm]
  have logBelow : ∀ places : ℕ, x < 10 ^ places * 10 ^ power → Int.log 10 x < power + places :=
    fun places below => (Int.lt_zpow_iff_log_lt (by decide) positive).mp
      (below.trans_eq (scale places).symm)
  have logAbove : ∀ places : ℕ, 10 ^ places * 10 ^ power ≤ x → power + places ≤ Int.log 10 x :=
    fun places above => (Int.zpow_le_iff_le_log (by decide) positive).mp
      ((scale places).trans_le above)
  rcases le_or_gt (10 ^ 5 * 10 ^ power) x with reached | missed
  · have log : Int.log 10 x = power + 5 := by
      have below := logBelow 6 (by linarith)
      have above := logAbove 5 reached
      omega
    have close' : |x - (count : ℤ) * 10 ^ power| < 10 ^ power / 2 := by
      push_cast
      linarith
    exact (roundedTo_of_log log close').trans (by rw [Int.cast_natCast])
  · have less : (count : ℚ) < 10 ^ 5 + 1 := by
      refine lt_of_mul_lt_mul_right ?_ unit.le
      linarith
    obtain rfl : count = 10 ^ 5 :=
      Nat.le_antisymm (Nat.lt_succ_iff.mp (by exact_mod_cast less)) full
    have log : Int.log 10 x = power - 1 + 5 := by
      push_cast at low
      have below := logBelow 5 missed
      have above := logAbove 4 (by linarith)
      omega
    have next : (10 : ℚ) ^ (power - 1) = 10 ^ power / 10 := zpow_sub_one₀ (by norm_num) power
    have same : ((10 ^ 6 : ℤ) : ℚ) * 10 ^ (power - 1) = (10 ^ 5 : ℕ) * 10 ^ power := by
      rw [next]
      push_cast
      ring
    have close' : |x - (10 ^ 6 : ℤ) * 10 ^ (power - 1)| < 10 ^ (power - 1) / 2 := by
      rw [same, next]
      linarith
    exact (roundedTo_of_log log close').trans same

theorem shown_of_close {x : ℚ} {count power : ℤ} (full : 10 ^ 5 ≤ |count|)
    (short : |count| < 10 ^ 6) (close : |x - count * 10 ^ power| < 10 ^ power / 20) :
    shown x = count * 10 ^ power := by
  rw [Int.abs_eq_natAbs] at full short
  have unit : (0 : ℚ) < 10 ^ power := by positivity
  have rounds : ∀ y : ℚ, |y - count.natAbs * 10 ^ power| < 10 ^ power / 20 →
      0 < y ∧ roundedTo 6 y = count.natAbs * 10 ^ power := by
    intro y near
    have least : (10 ^ 5 : ℚ) * 10 ^ power ≤ count.natAbs * 10 ^ power := by
      have : (10 ^ 5 : ℚ) ≤ count.natAbs := by exact_mod_cast full
      gcongr
    have low := (abs_lt.mp near).1
    exact ⟨by linarith, roundedTo_of_close (by omega) (by omega) near⟩
  rcases Int.natAbs_eq count with same | same
  · have number : (count : ℚ) = count.natAbs :=
      (congrArg Int.cast same).trans (Int.cast_natCast _)
    rw [number] at close ⊢
    obtain ⟨positive, value⟩ := rounds x close
    have result := shown_of_pos positive false
    simp only [Bool.false_eq_true, if_false, one_mul] at result
    rw [result, value]
  · have number : (count : ℚ) = -count.natAbs := by
      rw [congrArg Int.cast same, Int.cast_neg, Int.cast_natCast]
    rw [number] at close ⊢
    obtain ⟨positive, value⟩ := rounds (-x) (by
      rw [← abs_neg]
      convert close using 2
      ring)
    have result := shown_of_pos positive true
    simp only [if_true, neg_one_mul, neg_neg] at result
    rw [result, value, neg_mul]

theorem abs_decimal_lt {count : ℤ} (short : |count| < 10 ^ 6) (power : ℤ) :
    |(count * 10 ^ power : ℚ)| < 10 ^ (power + 6) := by
  have unit : (0 : ℚ) < 10 ^ power := by positivity
  have below : |(count : ℚ)| < 10 ^ 6 := by exact_mod_cast short
  rw [abs_mul, abs_of_pos unit, zpow_add₀ (by norm_num), mul_comm]
  gcongr
  exact below

theorem least_le_power {count power : ℤ} (short : |count| < 10 ^ 6)
    (least : (10 : ℚ) ^ (-308 : ℤ) < |(count * 10 ^ power : ℚ)|) : -313 ≤ power := by
  have above := (zpow_lt_zpow_iff_right₀ (by norm_num)).mp
    (least.trans (abs_decimal_lt short power))
  omega

/-- Decimals of six digits in the range of the doubles that have all their bits. -/
structure SixDigits (count power : ℤ) : Prop where
  full : 10 ^ 5 ≤ |count|
  short : |count| < 10 ^ 6
  least : -313 ≤ power
  most : |(count * 10 ^ power : ℚ)| ≤ 179769 * 10 ^ (303 : ℤ)

namespace SixDigits

variable {count power : ℤ}

theorem nonzero (sixDigits : SixDigits count power) : (count * 10 ^ power : ℚ) ≠ 0 := by
  have some' : count ≠ 0 := by
    rintro rfl
    exact absurd sixDigits.full (by decide)
  have : (count : ℚ) ≠ 0 := Int.cast_ne_zero.mpr some'
  positivity

theorem bounded (sixDigits : SixDigits count power) :
    |(count * 10 ^ power : ℚ)| < overflowLimit := by
  have whole : ((179769 * 10 ^ 303 : ℕ) : ℚ) < ((2 ^ 54 - 1) * 2 ^ 970 : ℕ) :=
    Nat.cast_lt.mpr (by decide +kernel)
  rw [Nat.cast_mul, Nat.cast_mul, Nat.cast_pow, Nat.cast_pow, Nat.cast_sub (by decide)] at whole
  refine sixDigits.most.trans_lt (whole.trans_eq ?_)
  rw [Nat.cast_pow, Nat.cast_one, Nat.cast_ofNat, ← zpow_natCast]
  rfl

/-- Half a unit in the last bit is far less than one in the last digit. -/
theorem unit_lt (sixDigits : SixDigits count power) :
    (2 : ℚ) ^ lastExponent |(count * 10 ^ power : ℚ)| / 2 < 10 ^ power / 20 := by
  have unit : (0 : ℚ) < 10 ^ power := by positivity
  have positive := abs_pos.mpr sixDigits.nonzero
  have size := abs_decimal_lt sixDigits.short power
  rw [zpow_add₀ (by norm_num)] at size
  rw [lastExponent_of_pos positive]
  generalize |(count * 10 ^ power : ℚ)| = number at positive size
  rcases max_choice (Int.log 2 number - 52) (-1074) with normal | least
  · have bits : (2 : ℚ) ^ Int.log 2 number ≤ number := Int.zpow_log_le_self (by decide) positive
    rw [normal, zpow_sub₀ (by norm_num)]
    norm_num
    linarith
  · have whole : ((10 * 10 ^ 313 : ℕ) : ℚ) < (2 ^ 1074 : ℕ) := Nat.cast_lt.mpr (by decide +kernel)
    have bound : (10 : ℚ) ^ (-313 : ℤ) ≤ 10 ^ power :=
      zpow_le_zpow_right₀ (by norm_num) sixDigits.least
    rw [Nat.cast_mul, Nat.cast_pow, Nat.cast_pow] at whole
    have tiny : (2 : ℚ) ^ (-1074 : ℤ) < 10 ^ (-313 : ℤ) / 10 := by
      rw [zpow_neg, zpow_neg, div_eq_inv_mul, ← mul_inv]
      exact inv_strictAnti₀ (by positivity) whole
    rw [least]
    linarith

theorem shown_of_isNearest (sixDigits : SixDigits count power) {x : Float}
    (nearest : IsNearest x (count * 10 ^ power)) : shown (amount x) = count * 10 ^ power :=
  shown_of_close sixDigits.full sixDigits.short
    ((nearest.abs_sub_le sixDigits.nonzero sixDigits.bounded).trans_lt sixDigits.unit_lt)

theorem exists_zeros (nonzero : count ≠ 0) (few : |count| < 10 ^ 6) :
    ∃ zeros : ℕ, 10 ^ 5 ≤ |count * 10 ^ zeros| ∧ |count * 10 ^ zeros| < 10 ^ 6 := by
  have some' : count.natAbs ≠ 0 := Int.natAbs_ne_zero.mpr nonzero
  rw [Int.abs_eq_natAbs] at few
  have low := Nat.pow_log_le_self 10 some'
  have high := Nat.lt_pow_succ_log_self (by decide : 1 < 10) count.natAbs
  have places : Nat.log 10 count.natAbs < 6 := Nat.log_lt_of_lt_pow some' (by omega)
  obtain ⟨zeros, all⟩ := Nat.exists_eq_add_of_le (Nat.lt_succ_iff.mp places)
  refine ⟨zeros, ?_⟩
  rw [abs_mul, abs_pow, Int.abs_eq_natAbs]
  have full : 10 ^ 5 ≤ count.natAbs * 10 ^ zeros := by
    rw [all, Nat.pow_add]
    exact Nat.mul_le_mul_right _ low
  have short : count.natAbs * 10 ^ zeros < 10 ^ 6 := by
    rw [show 6 = Nat.log 10 count.natAbs + 1 + zeros by omega, Nat.pow_add]
    exact Nat.mul_lt_mul_of_pos_right high (by positivity)
  exact ⟨by exact_mod_cast full, by exact_mod_cast short⟩

/-- Fewer digits are six digits with zeros behind them. -/
theorem of_decimal (few : |count| < 10 ^ 6)
    (least : 23 * 10 ^ (-309 : ℤ) ≤ |(count * 10 ^ power : ℚ)|)
    (most : |(count * 10 ^ power : ℚ)| ≤ 179769 * 10 ^ (303 : ℤ)) :
    ∃ count' power', SixDigits count' power' ∧
      (count' * 10 ^ power' : ℚ) = count * 10 ^ power := by
  have nonzero : count ≠ 0 := by
    rintro rfl
    rw [Int.cast_zero, zero_mul, abs_zero] at least
    exact absurd least (not_le.mpr (by positivity))
  obtain ⟨zeros, full, short⟩ := exists_zeros nonzero few
  have same : ((count * 10 ^ zeros : ℤ) * 10 ^ (power - zeros) : ℚ) = count * 10 ^ power := by
    rw [zpow_sub₀ (by norm_num), zpow_natCast]
    push_cast
    field_simp
  refine ⟨count * 10 ^ zeros, power - zeros, ⟨full, short, ?_, ?_⟩, same⟩
  · refine least_le_power short ?_
    rw [same]
    refine lt_of_lt_of_le ?_ least
    rw [show (-308 : ℤ) = -309 + 1 by rfl, zpow_add_one₀ (by norm_num), mul_comm]
    gcongr
    norm_num
  · rwa [same]

/-- No double is rounded beyond the range: the greatest one is rounded down. -/
theorem roundedTo_le_greatest {x : ℚ} (positive : 0 < x) (small : x < 1797695 * 10 ^ (302 : ℤ))
    {digits : ℕ} (full : 10 ^ 5 ≤ digits) (short : digits < 10 ^ 6)
    (value : roundedTo 6 x = digits * 10 ^ power) :
    (digits * 10 ^ power : ℚ) ≤ 179769 * 10 ^ (303 : ℤ) := by
  have unit : (0 : ℚ) < 10 ^ power := by positivity
  have least : (10 ^ 5 : ℚ) ≤ digits := by exact_mod_cast full
  have most : (digits : ℚ) < 10 ^ 6 := by exact_mod_cast short
  have next : (10 : ℚ) ^ (303 : ℤ) = 10 ^ (302 : ℤ) * 10 := zpow_add_one₀ (by norm_num) 302
  have some' : (0 : ℚ) < 10 ^ (302 : ℤ) := by positivity
  rcases lt_trichotomy power 303 with less | rfl | greater
  · have bound : (10 : ℚ) ^ power ≤ 10 ^ (302 : ℤ) :=
      zpow_le_zpow_right₀ (by norm_num) (by omega)
    have most : (digits * 10 ^ power : ℚ) ≤ 10 ^ 6 * 10 ^ (302 : ℤ) := by gcongr
    rw [next]
    generalize (10 : ℚ) ^ (302 : ℤ) = scale at *
    linarith only [most, some']
  · have place : lastPlace 6 x ≤ 10 ^ (303 : ℤ) := by
      have log : Int.log 10 x < 309 := by
        refine (Int.lt_zpow_iff_log_lt (by decide) positive).mp (small.trans ?_)
        rw [show (309 : ℤ) = 7 + 302 by rfl, zpow_add₀ (by norm_num)]
        exact mul_lt_mul_of_pos_right (by norm_num) some'
      exact zpow_le_zpow_right₀ (by norm_num) (by push_cast; omega)
    have close := (abs_le.mp (abs_sub_roundedTo_le 6 x)).1
    have less : (digits : ℚ) * 10 ^ (303 : ℤ) < 179770 * 10 ^ (303 : ℤ) := by
      rw [value] at close
      rw [next] at *
      generalize (10 : ℚ) ^ (302 : ℤ) = scale at *
      linarith
    have short' : digits < 179770 := by exact_mod_cast lt_of_mul_lt_mul_right less unit.le
    have most : (digits : ℚ) ≤ 179769 := by exact_mod_cast Nat.lt_succ_iff.mp short'
    gcongr
  · have bound : (10 : ℚ) ^ (302 : ℤ) * 10 * 10 ≤ 10 ^ power := by
      rw [← next]
      exact (zpow_add_one₀ (by norm_num) 303).symm.trans_le
        (zpow_le_zpow_right₀ (by norm_num) (by omega))
    have least : (10 ^ 5 * (10 ^ (302 : ℤ) * 10 * 10) : ℚ) ≤ digits * 10 ^ power := by gcongr
    have below := (roundedTo_bounds positive).2
    rw [value] at below
    generalize (10 : ℚ) ^ (302 : ℤ) = scale at *
    exfalso
    linarith only [below, least, small, some']

theorem amount_lt {mantissa : ℕ} {exponent : ℤ} (double : IsDouble mantissa exponent) :
    (mantissa * 2 ^ exponent : ℚ) < 1797695 * 10 ^ (302 : ℤ) := by
  have whole : (((2 ^ 53 - 1) * 2 ^ 971 : ℕ) : ℚ) < (1797695 * 10 ^ 302 : ℕ) :=
    Nat.cast_lt.mpr (by decide +kernel)
  rw [Nat.cast_mul, Nat.cast_mul, Nat.cast_pow, Nat.cast_pow] at whole
  exact double.amount_le_greatest.trans_lt whole

/-- What a double that has all its bits is shown as. -/
theorem of_shown {y : Float} (finite : y.isFinite = true)
    (normal : 2 ^ (-1022 : ℤ) ≤ |amount y|) :
    ∃ count power, SixDigits count power ∧ shown (amount y) = count * 10 ^ power := by
  rcases zero_or_isDouble finite with ⟨_, -, none⟩ | ⟨negative, m, e, -, double, number⟩
  · rw [none, abs_zero] at normal
    exact absurd normal (not_le.mpr (by positivity))
  rcases found : NumberText.significantDigits m e with ⟨digits, power⟩
  have leading := NumberText.isLeading_significantDigits double found
  have value := (NumberText.significantDigits_eq_roundedTo double found).2.2
  have size : |amount y| = m * 2 ^ e := by
    rw [number, abs_mul, abs_of_pos double.amount_pos]
    cases negative <;> simp
  rw [size] at normal
  have count : |(if negative then -1 else 1 : ℤ) * digitsValue digits| = digitsValue digits := by
    rw [abs_mul]
    cases negative <;> simp
  have same : shown (amount y) =
      ((if negative then -1 else 1 : ℤ) * digitsValue digits : ℤ) * 10 ^ (power - 5) := by
    rw [number, shown_of_pos double.amount_pos, ← value]
    cases negative <;> simp
  have short : |(if negative then -1 else 1 : ℤ) * digitsValue digits| < 10 ^ 6 := by
    rw [count]
    exact_mod_cast leading.digitsValue_lt
  have rounds : |(((if negative then -1 else 1 : ℤ) * digitsValue digits : ℤ) : ℚ) *
      10 ^ (power - 5)| = roundedTo 6 (m * 2 ^ e) := by
    rw [abs_mul, ← Int.cast_abs, count, abs_of_pos (by positivity), Int.cast_natCast, value]
  refine ⟨_, power - 5, ⟨?_, short, least_le_power short ?_, ?_⟩, same⟩
  · rw [count]
    exact_mod_cast leading.first
  · have whole : ((2 ^ 1023 : ℕ) : ℚ) < (10 ^ 308 : ℕ) := Nat.cast_lt.mpr (by decide +kernel)
    rw [Nat.cast_pow, Nat.cast_pow] at whole
    rw [rounds]
    calc (10 : ℚ) ^ (-308 : ℤ) < 2 ^ (-1023 : ℤ) := by
          rw [zpow_neg, zpow_neg]
          exact inv_strictAnti₀ (by positivity) whole
      _ = 2 ^ (-1022 : ℤ) / 2 := by
          rw [show (-1023 : ℤ) = -1022 - 1 by rfl, zpow_sub_one₀ (by norm_num), div_eq_mul_inv]
      _ ≤ m * 2 ^ e / 2 := by gcongr
      _ < roundedTo 6 (m * 2 ^ e) := (roundedTo_bounds double.amount_pos).1
  · rw [rounds, ← value]
    exact roundedTo_le_greatest double.amount_pos (amount_lt double) leading.first
      leading.digitsValue_lt value.symm

end SixDigits

/-! ### Round trips -/

/-- The double nearest to a decimal of at most six digits is shown as that decimal, all over the
range of the doubles that have all their bits. So what such a double is shown as may be read and
shown again without a change. -/
theorem formatNumber_of_isNearest :
    (∀ count power : ℤ, |count| < 10 ^ 6 →
      23 * 10 ^ (-309 : ℤ) ≤ |(count * 10 ^ power : ℚ)| →
      |(count * 10 ^ power : ℚ)| ≤ 179769 * 10 ^ (303 : ℤ) →
        (∃ x, IsNearest x (count * 10 ^ power)) ∧
          ∀ x, IsNearest x (count * 10 ^ power) →
            Numeral.value? (formatNumber x).toList = some (count * 10 ^ power : ℚ)) ∧
      ∀ y : Float, y.isFinite = true → 2 ^ (-1022 : ℤ) ≤ |amount y| →
        ∃ number, Numeral.value? (formatNumber y).toList = some number ∧
          (∃ x, IsNearest x number) ∧
            ∀ x, IsNearest x number → formatNumber x = formatNumber y := by
  refine ⟨fun count power few least most => ?_, fun y finite normal => ?_⟩
  · obtain ⟨digits, place, sixDigits, same⟩ := SixDigits.of_decimal few least most
    rw [← same]
    obtain ⟨x, nearest, -⟩ := exists_isNearest sixDigits.nonzero sixDigits.bounded
    refine ⟨⟨x, nearest⟩, fun x nearest => ?_⟩
    rw [formatNumber_eq, value?_numberText nearest.finite, sixDigits.shown_of_isNearest nearest]
  · obtain ⟨digits, place, sixDigits, shows⟩ := SixDigits.of_shown finite normal
    obtain ⟨x, nearest, -⟩ := exists_isNearest sixDigits.nonzero sixDigits.bounded
    refine ⟨digits * 10 ^ place, ?_, ⟨x, nearest⟩, fun x nearest => ?_⟩
    · rw [formatNumber_eq, value?_numberText finite, shows]
    · rw [formatNumber_eq, formatNumber_eq, numberText_inj_iff nearest.finite finite, shows,
        sixDigits.shown_of_isNearest nearest]

/-- The double nearest to this power of ten is less than it. -/
theorem formatNumber_of_isNearest_below :
    |(1 : ℤ)| < 10 ^ 6 ∧ 23 * 10 ^ (-309 : ℤ) ≤ |((1 : ℤ) * 10 ^ (23 : ℤ) : ℚ)| ∧
      |((1 : ℤ) * 10 ^ (23 : ℤ) : ℚ)| ≤ 179769 * 10 ^ (303 : ℤ) ∧
      (∃ x, IsNearest x ((1 : ℤ) * 10 ^ (23 : ℤ)) ∧
        Numeral.value? (formatNumber x).toList = some ((1 : ℤ) * 10 ^ (23 : ℤ) : ℚ)) ∧
      (1e23 : Float).isFinite = true ∧ 2 ^ (-1022 : ℤ) ≤ |amount 1e23| ∧ amount 1e23 < 10 ^ 23 ∧
      ∃ number, Numeral.value? (formatNumber 1e23).toList = some number ∧
        ∃ x, IsNearest x number ∧ formatNumber x = formatNumber 1e23 := by
  have few : |(1 : ℤ)| < 10 ^ 6 := by decide
  have size : |((1 : ℤ) * 10 ^ (23 : ℤ) : ℚ)| = 10 ^ 23 := by norm_num
  have least : 23 * 10 ^ (-309 : ℤ) ≤ |((1 : ℤ) * 10 ^ (23 : ℤ) : ℚ)| := by
    have small : (10 : ℚ) ^ (-309 : ℤ) ≤ 10 ^ (0 : ℤ) :=
      zpow_le_zpow_right₀ (by norm_num) (by decide)
    rw [size]
    generalize (10 : ℚ) ^ (-309 : ℤ) = scale at *
    norm_num at small
    linarith
  have most : |((1 : ℤ) * 10 ^ (23 : ℤ) : ℚ)| ≤ 179769 * 10 ^ (303 : ℤ) := by
    have large : (10 : ℚ) ^ (23 : ℤ) ≤ 10 ^ (303 : ℤ) :=
      zpow_le_zpow_right₀ (by norm_num) (by decide)
    rw [size]
    generalize (10 : ℚ) ^ (303 : ℤ) = scale at *
    norm_num at large
    linarith
  have parts : Binary64.ofFloat 1e23 = .finite false 5960464477539062 24 := by decide +kernel
  have value : amount 1e23 = 5960464477539062 * 2 ^ (24 : ℤ) := by
    rw [amount, parts, Binary64.value, if_neg (by decide), one_mul, Nat.cast_ofNat]
  have finite : (1e23 : Float).isFinite = true := by decide
  have normal : 2 ^ (-1022 : ℤ) ≤ |amount 1e23| := by
    have small : (2 : ℚ) ^ (-1022 : ℤ) ≤ 2 ^ (24 : ℤ) :=
      zpow_le_zpow_right₀ (by norm_num) (by decide)
    rw [value]
    refine small.trans ?_
    norm_num
  obtain ⟨⟨x, nearest⟩, denotes⟩ := formatNumber_of_isNearest.1 1 23 few least most
  obtain ⟨number, read, ⟨y, close⟩, again⟩ := formatNumber_of_isNearest.2 1e23 finite normal
  refine ⟨few, least, most, ⟨x, nearest, denotes x nearest⟩, finite, normal, ?_, number, read, y,
    close, again y close⟩
  rw [value]
  norm_num

end SolidScript
