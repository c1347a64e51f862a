/-
This file is about lists of decimal digits and the natural numbers that they stand for: what adding
one in the last place does, carries included, and what is left when the last digits or the zeros at
the end are dropped.
-/

import Mathlib.Algebra.Group.Nat.Defs
import SolidScript.Number.Text

namespace SolidScript

/-- A list of decimal digits. -/
def IsDigits (digits : List Char) : Prop := ∀ digit ∈ digits, digit.isDigit = true

/-- The number that decimal digits stand for. -/
def digitsValue (digits : List Char) : Nat := Nat.ofDigitChars 10 digits 0

theorem digit_bounds {digit : Char} (isDigit : digit.isDigit = true) :
    48 ≤ digit.toNat ∧ digit.toNat ≤ 57 :=
  Char.isDigit_iff_toNat.mp isDigit

theorem eq_nine_iff {digit : Char} : digit = '9' ↔ digit.toNat = 57 :=
  Char.toNat_inj.symm

theorem five_le_iff {digit : Char} : '5' ≤ digit ↔ 53 ≤ digit.toNat :=
  UInt32.le_iff_toNat_le

theorem IsDigits.append {left right : List Char} (isLeft : IsDigits left)
    (isRight : IsDigits right) : IsDigits (left ++ right) := by
  intro digit member
  rcases List.mem_append.mp member with inLeft | inRight
  · exact isLeft digit inLeft
  · exact isRight digit inRight

theorem IsDigits.sublist {some' digits : List Char} (isDigits : IsDigits digits)
    (sublist : some'.Sublist digits) : IsDigits some' :=
  fun digit member => isDigits digit (sublist.subset member)

theorem isDigits_zeros (count : Nat) : IsDigits (List.replicate count '0') :=
  fun _ member => List.eq_of_mem_replicate member ▸ rfl

theorem isDigits_toDigits (number : Nat) : IsDigits (Nat.toDigits 10 number) :=
  fun _ member => Nat.isDigit_of_mem_toDigits (by decide) (by decide) member

/-! ### Values -/

theorem digitsValue_append (left right : List Char) :
    digitsValue (left ++ right) = 10 ^ right.length * digitsValue left + digitsValue right := by
  rw [digitsValue, Nat.ofDigitChars_append, Nat.ofDigitChars_eq_ofDigitChars_zero]
  rfl

theorem digitsValue_singleton (digit : Char) : digitsValue [digit] = digit.toNat - 48 := by
  rw [digitsValue, Nat.ofDigitChars_cons, Nat.ofDigitChars_nil]
  exact Nat.zero_add _

theorem digitsValue_cons (digit : Char) (rest : List Char) :
    digitsValue (digit :: rest) = 10 ^ rest.length * (digit.toNat - 48) + digitsValue rest := by
  rw [← digitsValue_singleton, ← digitsValue_append]
  rfl

theorem digitsValue_zeros (count : Nat) : digitsValue (List.replicate count '0') = 0 := by
  rw [digitsValue, Nat.ofDigitChars_replicate_zero, Nat.mul_zero]

theorem digitsValue_one_zeros (count : Nat) :
    digitsValue ('1' :: List.replicate count '0') = 10 ^ count := by
  rw [digitsValue_cons, digitsValue_zeros, List.length_replicate, Nat.add_zero]
  exact Nat.mul_one _

theorem digitsValue_toDigits (number : Nat) : digitsValue (Nat.toDigits 10 number) = number :=
  Nat.ofDigitChars_ten_toDigits

theorem digitsValue_lt {digits : List Char} (isDigits : IsDigits digits) :
    digitsValue digits < 10 ^ digits.length := by
  induction digits with
  | nil => exact Nat.one_pos
  | cons digit rest inductionHypothesis =>
    have bounds := digit_bounds (isDigits digit List.mem_cons_self)
    have below := inductionHypothesis fun digit member =>
      isDigits digit (List.mem_cons_of_mem _ member)
    have most : 10 ^ rest.length * (digit.toNat - 48) ≤ 10 ^ rest.length * 9 :=
      Nat.mul_le_mul_left _ (by omega)
    rw [digitsValue_cons, List.length_cons, Nat.pow_succ]
    omega

/-- The first digits are what is left when the others are divided away. -/
theorem digitsValue_take {digits : List Char} (isDigits : IsDigits digits) (count : Nat) :
    digitsValue (digits.take count) = digitsValue digits / 10 ^ (digits.length - count) := by
  have below := digitsValue_lt (isDigits.sublist (List.drop_sublist count digits))
  have split := digitsValue_append (digits.take count) (digits.drop count)
  rw [List.take_append_drop] at split
  rw [List.length_drop] at below split
  rw [split, Nat.mul_add_div (Nat.pow_pos (by decide)), Nat.div_eq_of_lt below, Nat.add_zero]

/-- The digits up to one of them are those in front of it and that one. -/
theorem digitsValue_take_next {digits : List Char} (isDigits : IsDigits digits) {count : Nat}
    {next : Char} (found : digits[count]? = some next) :
    10 * digitsValue (digits.take count) + (next.toNat - 48) =
      digitsValue digits / 10 ^ (digits.length - (count + 1)) := by
  rw [← digitsValue_take isDigits, List.take_add_one, found, Option.toList_some,
    digitsValue_append, digitsValue_singleton, List.length_singleton, Nat.pow_one]

/-! ### Adding one -/

theorem next_digit {digit : Char} (isDigit : digit.isDigit = true) (other : digit ≠ '9') :
    (Char.ofNat (digit.toNat + 1)).isDigit = true ∧
      (Char.ofNat (digit.toNat + 1)).toNat = digit.toNat + 1 := by
  have bounds := digit_bounds isDigit
  have below : digit.toNat ≠ 57 := fun same => other (eq_nine_iff.mpr same)
  have valid : (digit.toNat + 1).isValidChar := Or.inl (by omega)
  have next : (Char.ofNat (digit.toNat + 1)).toNat = digit.toNat + 1 := by
    rw [Char.ofNat, dif_pos valid]
    rfl
  refine ⟨?_, next⟩
  rw [Char.isDigit_iff_toNat, next, show '0'.toNat = 48 from rfl, show '9'.toNat = 57 from rfl]
  omega

/-- Adding one in the last place adds one to the number. A carry out of the first digit stands for
the power of ten beyond the digits. -/
theorem increment_spec {digits : List Char} (isDigits : IsDigits digits) {carry : Bool}
    {result : List Char} (incremented : NumberText.increment digits = (carry, result)) :
    result.length = digits.length ∧ IsDigits result ∧
      digitsValue result + (if carry then 10 ^ digits.length else 0) = digitsValue digits + 1 := by
  induction digits generalizing carry result with
  | nil =>
    cases incremented
    exact ⟨rfl, isDigits, rfl⟩
  | cons digit rest inductionHypothesis =>
    have isDigit := isDigits digit List.mem_cons_self
    have bounds := digit_bounds isDigit
    have isRest : IsDigits rest := fun digit member =>
      isDigits digit (List.mem_cons_of_mem _ member)
    rw [NumberText.increment] at incremented
    rcases found : NumberText.increment rest with ⟨carryRest, after⟩
    obtain ⟨length, isAfter, value⟩ := inductionHypothesis isRest found
    have isCons : ∀ {digit : Char}, digit.isDigit = true → IsDigits (digit :: after) := by
      intro digit isDigit other member
      rcases List.mem_cons.mp member with rfl | later
      · exact isDigit
      · exact isAfter other later
    rw [found] at incremented
    cases carryRest with
    | false =>
      cases incremented
      refine ⟨congrArg (· + 1) length, isCons isDigit, ?_⟩
      simp only [Bool.false_eq_true, if_false, Nat.add_zero] at value ⊢
      rw [digitsValue_cons, digitsValue_cons, length, value, Nat.add_assoc]
    | true =>
      rw [if_pos rfl] at value
      by_cases nine : digit = '9'
      · simp only [if_pos nine] at incremented
        cases incremented
        refine ⟨congrArg (· + 1) length, isCons rfl, ?_⟩
        rw [if_pos rfl, digitsValue_cons, digitsValue_cons, eq_nine_iff.mp nine, List.length_cons,
          Nat.pow_succ, show '0'.toNat - 48 = 0 from rfl]
        omega
      · simp only [if_neg nine] at incremented
        cases incremented
        obtain ⟨isNext, next⟩ := next_digit isDigit nine
        refine ⟨congrArg (· + 1) length, isCons isNext, ?_⟩
        rw [digitsValue_cons, digitsValue_cons, next, length,
          show digit.toNat + 1 - 48 = digit.toNat - 48 + 1 by omega, Nat.mul_succ]
        simp only [Bool.false_eq_true, if_false]
        omega

/-- Only nines carry out of the first digit. -/
theorem digitsValue_of_carry {digits result : List Char} (isDigits : IsDigits digits)
    (carries : NumberText.increment digits = (true, result)) :
    digitsValue digits + 1 = 10 ^ digits.length := by
  have below := digitsValue_lt isDigits
  have value := (increment_spec isDigits carries).2.2
  rw [if_pos rfl] at value
  omega

/-! ### Zeros at the end -/

/-- Digits are the ones that are kept, with zeros behind them. -/
theorem trimmed_spec (digits : List Char) :
    ∃ zeros, digits = NumberText.trimmed digits ++ List.replicate zeros '0' := by
  have split := List.takeWhile_append_dropWhile (p := (· == '0')) (l := digits.reverse)
  have zeros : ∀ digit ∈ (digits.reverse.takeWhile (· == '0')).reverse, digit = '0' :=
    fun digit member => eq_of_beq (List.all_eq_true.mp List.all_takeWhile digit
      (List.mem_reverse.mp member))
  have whole : digits = (digits.reverse.dropWhile (· == '0')).reverse ++
      (digits.reverse.takeWhile (· == '0')).reverse := by
    rw [← List.reverse_append, split, List.reverse_reverse]
  rw [List.eq_replicate_of_mem zeros] at whole
  unfold NumberText.trimmed
  split
  next none =>
    rw [none, List.nil_append] at whole
    rw [whole]
    cases (digits.reverse.takeWhile (· == '0')).reverse.length with
    | zero => exact ⟨0, rfl⟩
    | succ zeros => exact ⟨zeros, rfl⟩
  next => exact ⟨_, whole⟩

/-- One digit at least is kept. -/
theorem trimmed_ne_nil {digits : List Char} (some' : digits ≠ []) :
    NumberText.trimmed digits ≠ [] := by
  unfold NumberText.trimmed
  split
  · cases digits with
    | nil => contradiction
    | cons digit rest => exact List.cons_ne_nil digit []
  next stored => exact stored

end SolidScript
