/-
This file proves that the leading digits of a number and the power of ten of the first one are told
by the number that they stand for: there are six of them and the first is no zero. So doubles that
are rounded to one number have one text.
-/

import SolidScript.Proofs.Number.Arithmetic
import SolidScript.Proofs.Number.Numeral

namespace SolidScript

/-! ### Leading digits -/

/-- Digits of one length that stand for one number are the same. -/
theorem digitsValue_inj {left right : List Char} (isLeft : IsDigits left) (isRight : IsDigits right)
    (length : left.length = right.length) (same : digitsValue left = digitsValue right) :
    left = right := by
  induction left generalizing right with
  | nil => exact (List.eq_nil_of_length_eq_zero length.symm).symm
  | cons digit rest inductionHypothesis =>
    match right, length with
    | other :: others, length =>
      have bounds := digit_bounds (isLeft digit List.mem_cons_self)
      have bounds' := digit_bounds (isRight other List.mem_cons_self)
      have isRest := isLeft.sublist (List.sublist_cons_self digit rest)
      have isOthers := isRight.sublist (List.sublist_cons_self other others)
      have below := digitsValue_lt isRest
      have below' := digitsValue_lt isOthers
      rw [digitsValue_cons, digitsValue_cons, ← Nat.succ.inj length] at same
      rw [← Nat.succ.inj length] at below'
      have heads := congrArg (· / 10 ^ rest.length) same
      have tails := congrArg (· % 10 ^ rest.length) same
      have some' : 0 < 10 ^ rest.length := by positivity
      simp only [Nat.mul_add_div some', Nat.div_eq_of_lt below, Nat.div_eq_of_lt below',
        Nat.mul_add_mod, Nat.mod_eq_of_lt below, Nat.mod_eq_of_lt below'] at heads tails
      rw [Char.toNat_inj.mp (show digit.toNat = other.toNat by omega),
        inductionHypothesis isRest isOthers (Nat.succ.inj length) tails]

/-- Six digits, of which the first is no zero. -/
structure IsLeading (digits : List Char) : Prop where
  length : digits.length = 6
  isDigits : IsDigits digits
  first : 10 ^ 5 ≤ digitsValue digits

namespace IsLeading

variable {digits others : List Char} {power other : ℤ}

theorem digitsValue_lt (leading : IsLeading digits) : digitsValue digits < 10 ^ 6 :=
  leading.length ▸ SolidScript.digitsValue_lt leading.isDigits

/-- The power of ten of the first digit is that of the number. -/
theorem value_bounds (leading : IsLeading digits) (power : ℤ) :
    (10 : ℚ) ^ power ≤ digitsValue digits * 10 ^ (power - 5) ∧
      (digitsValue digits * 10 ^ (power - 5) : ℚ) < 10 ^ (power + 1) := by
  have least : ((10 ^ 5 : ℕ) : ℚ) ≤ digitsValue digits := by exact_mod_cast leading.first
  have most : (digitsValue digits : ℚ) < (10 ^ 6 : ℕ) := by exact_mod_cast leading.digitsValue_lt
  have low : (10 : ℚ) ^ power = (10 ^ 5 : ℕ) * 10 ^ (power - 5) := by
    rw [Nat.cast_pow, Nat.cast_ofNat, ← zpow_natCast, ← zpow_add₀ (by norm_num)]
    congr 1
    push_cast
    ring
  have high : (10 : ℚ) ^ (power + 1) = (10 ^ 6 : ℕ) * 10 ^ (power - 5) := by
    rw [Nat.cast_pow, Nat.cast_ofNat, ← zpow_natCast, ← zpow_add₀ (by norm_num)]
    congr 1
    push_cast
    ring
  rw [low, high]
  constructor
  · gcongr
  · gcongr

/-- A number has one power of ten and one list of leading digits. -/
theorem unique (left : IsLeading digits) (right : IsLeading others)
    (same : (digitsValue digits * 10 ^ (power - 5) : ℚ) = digitsValue others * 10 ^ (other - 5)) :
    digits = others ∧ power = other := by
  obtain ⟨low, high⟩ := left.value_bounds power
  obtain ⟨low', high'⟩ := right.value_bounds other
  rw [same] at low high
  have below := (zpow_lt_zpow_iff_right₀ (by norm_num)).mp (low.trans_lt high')
  have above := (zpow_lt_zpow_iff_right₀ (by norm_num)).mp (low'.trans_lt high)
  obtain rfl : power = other := by omega
  have lengths := left.length.trans right.length.symm
  refine ⟨digitsValue_inj left.isDigits right.isDigits lengths ?_, rfl⟩
  exact_mod_cast mul_right_cancel₀ (by positivity) same

end IsLeading

/-! ### Rounding to significant digits -/

/-- Rounding to significant digits changes a number by half of the last place, at most. -/
theorem abs_sub_roundedTo_le (places : ℕ) (number : ℚ) :
    |number - roundedTo places number| ≤ lastPlace places number / 2 := by
  have unit : 0 < lastPlace places number := by
    unfold lastPlace
    positivity
  calc |number - roundedTo places number| =
        |number / lastPlace places number - round (number / lastPlace places number)| *
          lastPlace places number := by
        rw [← abs_of_pos unit, ← abs_mul, sub_mul, abs_of_pos unit, div_mul_cancel₀ _ unit.ne']
        rfl
    _ ≤ 1 / 2 * lastPlace places number := by
        gcongr
        exact abs_sub_round _
    _ = lastPlace places number / 2 := by ring

/-- The sixth digit of a number is small beside the number. -/
theorem lastPlace_le {number : ℚ} (positive : 0 < number) :
    lastPlace 6 number ≤ number / 10 ^ 5 := by
  have least := Int.zpow_log_le_self (b := 10) (by decide) positive
  rw [lastPlace, show Int.log 10 number + 1 - ((6 : ℕ) : ℤ) = Int.log 10 number - (5 : ℕ) by
    push_cast
    ring, zpow_sub₀ (by norm_num), zpow_natCast]
  push_cast at least
  gcongr

theorem roundedTo_bounds {number : ℚ} (positive : 0 < number) :
    number / 2 < roundedTo 6 number ∧ roundedTo 6 number < 2 * number := by
  have close := abs_le.mp (abs_sub_roundedTo_le 6 number)
  have small := lastPlace_le positive
  constructor <;> linarith

theorem roundedTo_zero (places : ℕ) : roundedTo places 0 = 0 := by
  rw [roundedTo, zero_div, round_zero, Int.cast_zero, zero_mul]

namespace IsDouble

variable {mantissa : ℕ} {exponent : ℤ} (double : IsDouble mantissa exponent)

include double

theorem amount_pos : (0 : ℚ) < mantissa * 2 ^ exponent := by
  have := double.positive
  positivity

theorem least_le_amount : (2 : ℚ) ^ (-1074 : ℤ) ≤ mantissa * 2 ^ exponent := by
  have one : (1 : ℚ) ≤ mantissa := by exact_mod_cast double.positive
  have unit : (2 : ℚ) ^ (-1074 : ℤ) ≤ 2 ^ exponent :=
    zpow_le_zpow_right₀ (by norm_num) double.least
  exact unit.trans (le_mul_of_one_le_left (by positivity) one)

theorem amount_le_greatest :
    (mantissa * 2 ^ exponent : ℚ) ≤ (2 ^ 53 - 1 : ℕ) * 2 ^ (971 : ℤ) := by
  have bits : (mantissa : ℚ) ≤ (2 ^ 53 - 1 : ℕ) := Nat.cast_le.mpr (Nat.le_pred_of_lt double.small)
  have unit : (2 : ℚ) ^ exponent ≤ 2 ^ (971 : ℤ) :=
    zpow_le_zpow_right₀ (by norm_num) double.greatest
  gcongr

end IsDouble

namespace NumberText

variable {mantissa : ℕ} {exponent : ℤ} {digits : List Char} {power : ℤ}

/-- The first of the digits that are shown is no zero. -/
theorem isLeading_significantDigits (double : IsDouble mantissa exponent)
    (found : significantDigits mantissa exponent = (digits, power)) : IsLeading digits := by
  obtain ⟨digitsLength, isDigits, -⟩ := significantDigits_eq_roundedTo double found
  have length := length_rendering double.positive exponent
  have long : 10 ^ 40 ≤ (rendering mantissa exponent).coefficient := by
    obtain ⟨kept, renders⟩ := exists_renders double.positive exponent
    rcases renders.rendered with same | ⟨_, same⟩
    · exact same ▸ renders.long
    · exact same ▸ Nat.le_refl _
  have isRendered : IsDigits (rendering mantissa exponent).digits := isDigits_toDigits _
  have isTaken := isRendered.sublist (List.take_sublist precision _)
  have all : digitsValue (rendering mantissa exponent).digits =
      (rendering mantissa exponent).coefficient := digitsValue_toDigits _
  have taken : 10 ^ 5 ≤ digitsValue ((rendering mantissa exponent).digits.take precision) := by
    rw [digitsValue_take isRendered, all, length, Nat.le_div_iff_mul_le (by positivity)]
    exact long
  refine ⟨digitsLength, isDigits, ?_⟩
  unfold significantDigits at found
  dsimp only at found
  split at found
  · rcases added : increment ((rendering mantissa exponent).digits.take precision) with
      ⟨carry, result⟩
    obtain ⟨-, -, value⟩ := increment_spec isTaken added
    rw [added] at found
    cases carry with
    | false =>
      cases found
      exact Nat.le_trans taken (Nat.le_of_lt (Nat.lt_of_succ_le (Nat.le_of_eq value.symm)))
    | true =>
      cases found
      exact Nat.le_of_eq (digitsValue_one_zeros _).symm
  · cases found
    exact taken

/-- The power of ten of a double has three digits at most. -/
theorem power_bounds (double : IsDouble mantissa exponent)
    (found : significantDigits mantissa exponent = (digits, power)) :
    -325 < power ∧ power < 309 := by
  obtain ⟨low, high⟩ := (isLeading_significantDigits double found).value_bounds power
  rw [(significantDigits_eq_roundedTo double found).2.2] at low high
  obtain ⟨below, above⟩ := roundedTo_bounds double.amount_pos
  have tiny : (10 : ℚ) ^ (-324 : ℤ) ≤ 2 ^ (-1075 : ℤ) := by
    have whole : ((2 ^ 1075 : ℕ) : ℚ) ≤ (10 ^ 324 : ℕ) := Nat.cast_le.mpr (by decide +kernel)
    rw [Nat.cast_pow, Nat.cast_pow] at whole
    rw [zpow_neg, zpow_neg]
    exact inv_anti₀ (by positivity) whole
  have huge : 2 * ((2 ^ 53 - 1 : ℕ) * (2 : ℚ) ^ (971 : ℤ)) ≤ 10 ^ (309 : ℤ) := by
    have whole : ((2 * ((2 ^ 53 - 1) * 2 ^ 971) : ℕ) : ℚ) ≤ (10 ^ 309 : ℕ) :=
      Nat.cast_le.mpr (by decide +kernel)
    rw [Nat.cast_mul, Nat.cast_mul, Nat.cast_pow, Nat.cast_pow] at whole
    exact whole
  have first : (10 : ℚ) ^ (-324 : ℤ) < 10 ^ (power + 1) := by
    calc (10 : ℚ) ^ (-324 : ℤ) ≤ 2 ^ (-1075 : ℤ) := tiny
      _ = 2 ^ (-1074 : ℤ) / 2 := by
        rw [show (-1075 : ℤ) = -1074 - 1 by rfl, zpow_sub_one₀ (by norm_num), div_eq_mul_inv]
      _ ≤ mantissa * 2 ^ exponent / 2 :=
        div_le_div_of_nonneg_right double.least_le_amount (by norm_num)
      _ < 10 ^ (power + 1) := below.trans high
  have last : (10 : ℚ) ^ power < 10 ^ (309 : ℤ) := by
    calc (10 : ℚ) ^ power < 2 * (mantissa * 2 ^ exponent) := low.trans_lt above
      _ ≤ 2 * ((2 ^ 53 - 1 : ℕ) * 2 ^ (971 : ℤ)) :=
        mul_le_mul_of_nonneg_left double.amount_le_greatest (by norm_num)
      _ ≤ 10 ^ (309 : ℤ) := huge
  have least := (zpow_lt_zpow_iff_right₀ (by norm_num)).mp first
  have most := (zpow_lt_zpow_iff_right₀ (by norm_num)).mp last
  omega

end NumberText

/-! ### What a text shows -/

/-- A number rounded to six significant digits, a half away from zero. -/
def shown (number : ℚ) : ℚ := (if number < 0 then -1 else 1) * roundedTo 6 |number|

theorem shown_zero : shown 0 = 0 := by
  rw [shown, abs_zero, roundedTo_zero, mul_zero]

/-- The sign is kept apart. -/
theorem shown_of_pos {number : ℚ} (positive : 0 < number) (negative : Bool) :
    shown ((if negative then -1 else 1) * number) =
      (if negative then -1 else 1) * roundedTo 6 number := by
  cases negative with
  | false =>
    rw [shown, if_neg Bool.false_ne_true, one_mul, if_neg (not_lt.mpr positive.le),
      abs_of_pos positive]
  | true =>
    rw [shown, if_pos rfl, neg_one_mul, if_pos (neg_lt_zero.mpr positive), abs_neg,
      abs_of_pos positive]

/-- A finite double is a zero, or it has a mantissa. -/
theorem zero_or_isDouble {x : Float} (finite : x.isFinite = true) :
    (∃ negative, Binary64.ofFloat x = .finite negative 0 (-1074) ∧ amount x = 0) ∨
      ∃ negative mantissa exponent, Binary64.ofFloat x = .finite negative mantissa exponent ∧
        IsDouble mantissa exponent ∧
          amount x = (if negative then -1 else 1) * (mantissa * 2 ^ exponent) := by
  have consists := consists_of_finite finite
  have number : amount x = (Binary64.ofFloat x).value := rfl
  rw [Binary64.ofFloat_eq] at number ⊢
  generalize x.toModel.unpack = unpacked, amount x = a at consists number ⊢
  cases consists with
  | zero sign => exact Or.inl ⟨_, rfl, rfl⟩
  | finite sign positive double => exact Or.inr ⟨_, _, _, rfl, double, number⟩

theorem numberText_of_zero {x : Float} {negative : Bool}
    (zero : Binary64.ofFloat x = .finite negative 0 (-1074)) : numberText x = "0" := by
  rw [numberText, zero]
  rfl

/-- The text of a finite double denotes the number that the double is rounded to. -/
theorem value?_numberText {x : Float} (finite : x.isFinite = true) :
    Numeral.value? (numberText x).toList = some (shown (amount x)) := by
  rcases zero_or_isDouble finite with ⟨negative, zero, none⟩ |
    ⟨negative, mantissa, exponent, exact', double, number⟩
  · rw [numberText_of_zero zero, none, shown_zero]
    decide +kernel
  · rw [numberText, String.toList_ofList, exact', number, shown_of_pos double.amount_pos]
    exact NumberText.value?_characters double negative

theorem shown_ne_zero {number : ℚ} (positive : 0 < number) (negative : Bool) :
    shown ((if negative then -1 else 1) * number) ≠ 0 := by
  have some' := (roundedTo_bounds positive).1
  rw [shown_of_pos positive]
  cases negative <;> simp only [if_true, if_false, Bool.false_eq_true] <;> linarith

/-- Numbers that are not zero are rounded to one if their signs are one and their magnitudes are
rounded to one. -/
theorem shown_inj {a b : ℚ} {first second : Bool} (positive : 0 < a) (positive' : 0 < b)
    (same : shown ((if first then -1 else 1) * a) = shown ((if second then -1 else 1) * b)) :
    first = second ∧ roundedTo 6 a = roundedTo 6 b := by
  have some' := (roundedTo_bounds positive).1
  have other := (roundedTo_bounds positive').1
  rw [shown_of_pos positive, shown_of_pos positive'] at same
  cases first <;> cases second <;>
    simp only [if_true, if_false, Bool.false_eq_true, one_mul, neg_one_mul] at same
  · exact ⟨rfl, same⟩
  · linarith
  · linarith
  · exact ⟨rfl, neg_inj.mp same⟩

/-- Digits and power of ten are told by the rounded number. -/
theorem NumberText.significantDigits_congr {m n : ℕ} {d e : ℤ} (left : IsDouble m d)
    (right : IsDouble n e) (same : roundedTo 6 (m * 2 ^ d) = roundedTo 6 (n * 2 ^ e)) :
    significantDigits m d = significantDigits n e := by
  rcases found : significantDigits m d with ⟨digits, power⟩
  rcases found' : significantDigits n e with ⟨others, other⟩
  have value := (significantDigits_eq_roundedTo left found).2.2
  have value' := (significantDigits_eq_roundedTo right found').2.2
  obtain ⟨rfl, rfl⟩ := (isLeading_significantDigits left found).unique
    (isLeading_significantDigits right found') (value.trans (same.trans value'.symm))
  rfl

/-- Finite doubles have one text if they are rounded to one number, and only then. -/
theorem numberText_inj_iff {x y : Float} (first : x.isFinite = true) (second : y.isFinite = true) :
    numberText x = numberText y ↔ shown (amount x) = shown (amount y) := by
  constructor
  · intro same
    have read := value?_numberText first
    rw [same, value?_numberText second] at read
    exact (Option.some.inj read).symm
  intro same
  rcases zero_or_isDouble first with ⟨_, zero, none⟩ | ⟨negative, m, d, parts, double, number⟩
  · rcases zero_or_isDouble second with ⟨_, zero', _⟩ | ⟨_, n, e, _, double', number'⟩
    · rw [numberText_of_zero zero, numberText_of_zero zero']
    · rw [none, number', shown_zero] at same
      exact absurd same.symm (shown_ne_zero double'.amount_pos _)
  · rcases zero_or_isDouble second with ⟨_, _, none'⟩ | ⟨negative', n, e, parts', double', number'⟩
    · rw [number, none', shown_zero] at same
      exact absurd same (shown_ne_zero double.amount_pos _)
    · rw [number, number'] at same
      obtain ⟨rfl, magnitudes⟩ := shown_inj double.amount_pos double'.amount_pos same
      have alike := NumberText.significantDigits_congr double double' magnitudes
      rcases found : NumberText.significantDigits n e with ⟨digits, power⟩
      rw [numberText, numberText, parts, parts', NumberText.characters_eq double' found,
        NumberText.characters_eq double (alike.trans found)]

end SolidScript
