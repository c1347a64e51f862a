/-
This file reads the texts of numbers back. A decimal numeral denotes a rational number, and the
numeral that a finite double is shown as denotes its exact value rounded to six significant digits,
whichever of the three layouts shows them.
-/

import SolidScript.Proofs.Number.Rounding

namespace SolidScript

namespace Numeral

/-! ### Reading -/

/-- The sign in front of a numeral, which may be left out, and the text behind it. -/
def sign : List Char → ℤ × List Char
  | '-' :: text => (-1, text)
  | '+' :: text => (1, text)
  | text => (1, text)

/-- The digits in front of a text, of which there has to be one, and the text behind them. -/
def digits? (text : List Char) : Option (List Char × List Char) :=
  match text.span Char.isDigit with
  | ([], _) => none
  | found => some found

/-- The digits behind the point, if there is one, and the text behind them. -/
def fraction? : List Char → Option (List Char × List Char)
  | '.' :: text => digits? text
  | text => some ([], text)

/-- The power of ten that ends a numeral, or zero where there is none. -/
def power? : List Char → Option ℤ
  | [] => some 0
  | 'e' :: text =>
    match digits? (sign text).2 with
    | some (digits, []) => some ((sign text).1 * digitsValue digits)
    | _ => none
  | _ => none

/-- The number that a numeral without a sign denotes. -/
def unsigned? (text : List Char) : Option ℚ := do
  let (whole, text) ← digits? text
  let (fraction, text) ← fraction? text
  let power ← power? text
  return digitsValue (whole ++ fraction) * 10 ^ (power - fraction.length)

/-- The number that a numeral denotes: a sign, digits, a fraction and a power of ten, of which only
the digits have to be there. -/
def value? (text : List Char) : Option ℚ :=
  (unsigned? (sign text).2).map ((sign text).1 * ·)

/-! ### Parts of numerals -/

/-- A text in front of which there is no digit. -/
def Stops (text : List Char) : Prop := ∀ next ∈ text.head?, next.isDigit = false

theorem Stops.nil : Stops [] := fun _ => nofun

theorem Stops.cons {next : Char} (other : next.isDigit = false) (text : List Char) :
    Stops (next :: text) := by
  rintro _ ⟨⟩
  exact other

variable {digits text : List Char}

theorem digits?_append (isDigits : IsDigits digits) (some' : digits ≠ []) (stops : Stops text) :
    digits? (digits ++ text) = some (digits, text) := by
  have taken : (digits ++ text).span Char.isDigit = (digits, text) := by
    rw [List.span_eq_takeWhile_dropWhile, List.takeWhile_append_of_pos isDigits,
      List.dropWhile_append_of_pos isDigits]
    cases text with
    | nil => rw [List.takeWhile_nil, List.dropWhile_nil, List.append_nil]
    | cons next text =>
      have other := stops next rfl
      rw [List.takeWhile_cons_of_neg (by rw [other]; decide),
        List.dropWhile_cons_of_neg (by rw [other]; decide), List.append_nil]
  unfold digits?
  rw [taken]
  cases digits with
  | nil => contradiction
  | cons digit digits => rfl

theorem digits?_all (isDigits : IsDigits digits) (some' : digits ≠ []) :
    digits? digits = some (digits, []) := by
  have read := digits?_append isDigits some' .nil
  rwa [List.append_nil] at read

/-- Only a text with a digit in front is read, so the sign in front of it is left out. -/
theorem sign_of_unsigned? {number : ℚ} (read : unsigned? text = some number) :
    sign text = (1, text) := by
  unfold sign
  split
  · cases read
  · cases read
  · rfl

theorem value?_signed {number : ℚ} (read : unsigned? text = some number) (negative : Bool) :
    value? (NumberText.characters.signed negative text) =
      some ((if negative then -1 else 1) * number) := by
  cases negative with
  | false =>
    have unsigned : value? text = (unsigned? text).map (((1 : ℤ) : ℚ) * ·) := by
      rw [value?, sign_of_unsigned? read]
    rw [NumberText.characters.signed, if_neg (by decide), if_neg (by decide), unsigned, read,
      Int.cast_one, Option.map_some]
  | true =>
    have negated : value? ('-' :: text) = (unsigned? text).map (((-1 : ℤ) : ℚ) * ·) := rfl
    rw [NumberText.characters.signed, if_pos rfl, if_pos rfl, negated, read, Int.cast_neg,
      Int.cast_one, Option.map_some]

theorem power?_written (power : ℤ) :
    power? ('e' :: (if power < 0 then '-' else '+') :: Nat.toDigits 10 power.natAbs) =
      some power := by
  have read := digits?_all (isDigits_toDigits power.natAbs) Nat.toDigits_ne_nil
  unfold power?
  rcases lt_or_ge power 0 with negative | positive
  · rw [if_pos negative]
    simp only [sign, read, digitsValue_toDigits]
    congr 1
    omega
  · rw [if_neg (by omega)]
    simp only [sign, read, digitsValue_toDigits]
    congr 1
    omega

/-- What a numeral denotes when its parts are known. -/
theorem unsigned?_append {fraction rest : List Char} {power : ℤ} (isDigits : IsDigits digits)
    (some' : digits ≠ []) (stops : Stops text) (behind : fraction? text = some (fraction, rest))
    (ends : power? rest = some power) :
    unsigned? (digits ++ text) =
      some (digitsValue (digits ++ fraction) * 10 ^ (power - fraction.length) : ℚ) := by
  simp only [unsigned?, digits?_append isDigits some' stops, behind, ends, Option.bind_eq_bind,
    Option.bind_some, Option.pure_def]

/-- Digits with a point among them and nothing behind the last one. -/
theorem unsigned?_point {fraction : List Char} (isDigits : IsDigits digits) (some' : digits ≠ [])
    (isFraction : IsDigits fraction) (more : fraction ≠ []) :
    unsigned? (digits ++ '.' :: fraction) =
      some (digitsValue (digits ++ fraction) * 10 ^ (-fraction.length : ℤ) : ℚ) := by
  rw [← zero_sub]
  exact unsigned?_append isDigits some' (.cons rfl _) (digits?_all isFraction more) rfl

/-! ### Layouts -/

section Layouts

variable {significant : List Char} (isDigits : IsDigits significant) (some' : significant ≠ [])

include isDigits some'

theorem unsigned?_scientific (point : ℤ) :
    unsigned? (Decimal.scientific significant point) =
      some (digitsValue significant * 10 ^ (point - significant.length) : ℚ) := by
  obtain ⟨first, fraction, rfl⟩ := List.exists_cons_of_ne_nil some'
  have isFirst : IsDigits [first] := isDigits.sublist (by simp)
  have isFraction : IsDigits fraction := isDigits.sublist (List.sublist_cons_self _ _)
  have ends := power?_written (point - 1)
  rw [show point - ((first :: fraction).length : ℤ) = point - 1 - fraction.length by
    rw [List.length_cons]
    push_cast
    ring]
  cases fraction with
  | nil => exact unsigned?_append isFirst (by simp) (.cons rfl _) rfl ends
  | cons second fraction =>
    exact unsigned?_append isFirst (by simp) (.cons rfl _)
      (digits?_append isFraction (by simp) (.cons rfl _)) ends

theorem unsigned?_leading {point : ℤ} (before : point ≤ 0) :
    unsigned? ('0' :: '.' :: (List.replicate (-point).toNat '0' ++ significant)) =
      some (digitsValue significant * 10 ^ (point - significant.length) : ℚ) := by
  have value : digitsValue (['0'] ++ (List.replicate (-point).toNat '0' ++ significant)) =
      digitsValue significant := by
    rw [digitsValue_append, digitsValue_append, digitsValue_zeros, Nat.mul_zero, Nat.zero_add]
    exact Nat.zero_add _
  have read := unsigned?_point (isDigits_zeros 1) (by simp)
    ((isDigits_zeros (-point).toNat).append isDigits) (by simp [some'])
  rw [show point - (significant.length : ℤ) =
    -((List.replicate (-point).toNat '0' ++ significant).length : ℤ) by
      rw [List.length_append, List.length_replicate]
      omega, ← value]
  exact read

/-- The digits that are not significant fill the places in front of the point. -/
theorem unsigned?_split {zeros : Nat} {point : ℤ} (after : 0 < point)
    (room : point.toNat ≤ significant.length + zeros) :
    unsigned? ((significant ++ List.replicate zeros '0').take point.toNat ++
        if significant.length > point.toNat then '.' :: significant.drop point.toNat else []) =
      some (digitsValue significant * 10 ^ (point - significant.length) : ℚ) := by
  obtain ⟨places, rfl⟩ := Int.eq_ofNat_of_zero_le after.le
  rw [Int.toNat_natCast] at *
  split
  next longer =>
    have read := unsigned?_point (isDigits.sublist (List.take_sublist places _))
      (by simp [some']; omega) (isDigits.sublist (List.drop_sublist places _))
      (by simp; omega)
    rw [List.take_append_drop, List.length_drop] at read
    rw [List.take_append_of_le_length longer.le, read]
    congr 3
    omega
  next shorter =>
    have taken : (significant ++ List.replicate zeros '0').take places =
        significant ++ List.replicate (places - significant.length) '0' := by
      rw [List.take_append, List.take_of_length_le (by omega), List.take_replicate,
        Nat.min_eq_left (by omega)]
    have read := unsigned?_append (isDigits.append (isDigits_zeros (places - significant.length)))
      (by simp [some']) .nil rfl rfl
    have value : digitsValue (significant ++
        List.replicate (places - significant.length) '0') =
          10 ^ (places - significant.length) * digitsValue significant := by
      rw [digitsValue_append, digitsValue_zeros, List.length_replicate, Nat.add_zero]
    rw [taken, read, List.append_nil, value, show ((places : ℕ) : ℤ) - significant.length =
      ((places - significant.length : ℕ) : ℤ) by omega, zpow_natCast]
    simp [mul_comm]

end Layouts

/-- Every layout of digits denotes the same number: that of the digits, with the first one at its
power of ten. -/
theorem unsigned?_ofDigits (isDigits : IsDigits digits) (length : digits.length = 6) (power : ℤ) :
    unsigned? (NumberText.ofDigits digits power) =
      some (digitsValue digits * 10 ^ (power - 5) : ℚ) := by
  have some' : NumberText.trimmed digits ≠ [] := trimmed_ne_nil (by rintro rfl; contradiction)
  obtain ⟨zeros, whole⟩ := trimmed_spec digits
  have isTrimmed : IsDigits (NumberText.trimmed digits) := by
    rw [whole] at isDigits
    exact isDigits.sublist (List.sublist_append_left _ _)
  have count : (NumberText.trimmed digits).length + zeros = 6 := by
    rw [← length, congrArg List.length whole, List.length_append, List.length_replicate]
  have value : (digitsValue digits * 10 ^ (power - 5) : ℚ) =
      digitsValue (NumberText.trimmed digits) *
        10 ^ (power + 1 - (NumberText.trimmed digits).length) := by
    rw [congrArg digitsValue whole, digitsValue_append, digitsValue_zeros, List.length_replicate,
      show power + 1 - ((NumberText.trimmed digits).length : ℤ) = zeros + (power - 5) by omega,
      zpow_add₀ (by norm_num), zpow_natCast]
    push_cast
    ring
  unfold NumberText.ofDigits
  dsimp only
  generalize NumberText.trimmed digits = significant at *
  rw [value]
  split
  · exact unsigned?_scientific isTrimmed some' _
  next plain =>
    split
    next before => exact unsigned?_leading isTrimmed some' before
    next after =>
      have room : (power + 1).toNat ≤ significant.length + zeros := by
        simp [NumberText.usesPower, NumberText.precision, NumberText.maxTrailingZeroes] at plain
        omega
      rw [whole]
      exact unsigned?_split isTrimmed some' (by omega) room

end Numeral

/-! ### Texts of doubles -/

namespace NumberText

variable {mantissa : Nat} {exponent : Int} (double : IsDouble mantissa exponent)

include double

theorem characters_eq {digits : List Char} {power : Int}
    (found : significantDigits mantissa exponent = (digits, power)) (negative : Bool) :
    characters (.finite negative mantissa exponent) =
      characters.signed negative (ofDigits digits power) := by
  obtain ⟨below, rfl⟩ := Nat.exists_eq_add_one_of_ne_zero double.positive.ne'
  rw [characters, found]
  exact Nat.succ_ne_zero below

/-- A sign and digits denote the exact number rounded to six of them. -/
theorem value?_characters (negative : Bool) :
    Numeral.value? (characters (.finite negative mantissa exponent)) =
      some ((if negative then -1 else 1) * roundedTo 6 (mantissa * 2 ^ exponent)) := by
  rcases found : significantDigits mantissa exponent with ⟨digits, power⟩
  obtain ⟨length, isDigits, value⟩ := significantDigits_eq_roundedTo double found
  have read := Numeral.unsigned?_ofDigits isDigits length power
  rw [value] at read
  rw [characters_eq double found]
  exact Numeral.value?_signed read negative

end NumberText

end SolidScript
