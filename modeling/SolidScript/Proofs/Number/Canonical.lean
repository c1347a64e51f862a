/-
This file describes the texts that numbers have. A number that needs more places than the plain form
has is written with a power of ten, and no text has a zero that could be left out: neither in front
of its digits, nor behind a point, nor in its power of ten. Every output writes this one text.
-/

import SolidScript.Proofs.Number.Rendering

namespace SolidScript

namespace NumberText

/-! ### Forms -/

/-- Digits of which the first one is no zero. -/
structure Leads (digits : List Char) : Prop where
  isDigits : IsDigits digits
  some' : digits ≠ []
  first : digits.head? ≠ some '0'

/-- What may stand behind a whole number: nothing, or a point and digits of which the last one is no
zero. -/
inductive Fraction : List Char → Prop where
  | none : Fraction []
  | point {digits : List Char} (isDigits : IsDigits digits) (some' : digits ≠ [])
    (last : digits.getLast? ≠ some '0') : Fraction ('.' :: digits)

/-- The plain form: one zero, or digits of which the first one is no zero, and a fraction. -/
inductive Plain : List Char → Prop where
  | zero {fraction : List Char} (isFraction : Fraction fraction) : Plain ('0' :: fraction)
  | whole {digits fraction : List Char} (leads : Leads digits) (isFraction : Fraction fraction) :
    Plain (digits ++ fraction)

/-- The form with a power of ten: one digit, which is no zero, a fraction, and a power of ten with
its sign, of which the first digit is no zero. -/
inductive Scientific : List Char → Prop where
  | power {digit sign : Char} {fraction power : List Char} (leads : Leads [digit])
    (isFraction : Fraction fraction) (isSign : sign = '-' ∨ sign = '+') (isPower : Leads power) :
    Scientific (digit :: (fraction ++ 'e' :: sign :: power))

/-- The texts of doubles. Which form a finite one has is decided by its magnitude as it is rounded,
not as it is. -/
def Canonical : Binary64 → List Char → Prop
  | .nan, text => text = ['n', 'a', 'n']
  | .infinite negative, text => text = if negative then ['-', 'i', 'n', 'f'] else ['i', 'n', 'f']
  | .finite negative mantissa exponent, text =>
    if mantissa = 0 then text = ['0']
    else ∃ magnitude, text = (if negative then '-' :: magnitude else magnitude) ∧
      if 10 ^ (-5 : ℤ) ≤ roundedTo 6 (mantissa * 2 ^ exponent) ∧
          roundedTo 6 (mantissa * 2 ^ exponent) < 10 ^ (6 : ℤ) then Plain magnitude
      else Scientific magnitude

/-! ### Digits -/

section Digits

variable {digits : List Char}

/-- With a zero in front, digits would stand for a smaller number. -/
theorem head?_ne_zero (isDigits : IsDigits digits) (positive : 0 < digitsValue digits)
    (least : 10 ^ (digits.length - 1) ≤ digitsValue digits) : digits.head? ≠ some '0' := by
  cases digits with
  | nil => exact nofun
  | cons digit rest =>
    rintro ⟨⟩
    have below := digitsValue_lt (isDigits.sublist (List.sublist_cons_self '0' rest))
    have value : digitsValue ('0' :: rest) = digitsValue rest := by
      rw [digitsValue_cons]
      exact Nat.zero_add _
    rw [value, List.length_cons, Nat.add_sub_cancel] at least
    omega

theorem leads_of_isLeading (leading : IsLeading digits) : Leads digits where
  isDigits := leading.isDigits
  some' := by
    rintro rfl
    exact absurd leading.length (by decide)
  first := head?_ne_zero leading.isDigits (Nat.lt_of_lt_of_le (by decide) leading.first)
    (leading.length ▸ leading.first)

theorem leads_toDigits {number : ℕ} (positive : 0 < number) : Leads (Nat.toDigits 10 number) := by
  have least : 10 ^ ((Nat.toDigits 10 number).length - 1) ≤ number :=
    Decimal.le_coefficient (show 0 < (Decimal.mk number 0).coefficient from positive)
  have value := digitsValue_toDigits number
  exact ⟨isDigits_toDigits number, Nat.toDigits_ne_nil,
    head?_ne_zero (isDigits_toDigits number) (value.symm ▸ positive) (value.symm ▸ least)⟩

theorem Leads.take (leads : Leads digits) {count : ℕ} (some' : 0 < count) :
    Leads (digits.take count) where
  isDigits := leads.isDigits.sublist (List.take_sublist count _)
  some' := by
    rw [ne_eq, List.take_eq_nil_iff, not_or]
    exact ⟨some'.ne', leads.some'⟩
  first := by
    rw [List.head?_take, if_neg some'.ne']
    exact leads.first

/-- The digits that are kept have a zero neither at their start nor at their end. -/
theorem trimmed_ends (leads : Leads digits) :
    Leads (trimmed digits) ∧ (trimmed digits).getLast? ≠ some '0' := by
  have some' := trimmed_ne_nil leads.some'
  obtain ⟨zeros, whole⟩ := trimmed_spec digits
  have first : (trimmed digits).head? = digits.head? := by
    rw [congrArg List.head? whole, List.head?_append_of_ne_nil _ some']
  have isDigits : IsDigits (trimmed digits) := by
    have all := leads.isDigits
    rw [whole] at all
    exact all.sublist (List.sublist_append_left _ _)
  refine ⟨⟨isDigits, some', first ▸ leads.first⟩, ?_⟩
  unfold trimmed
  split
  · cases digits with
    | nil => exact nofun
    | cons digit rest => exact leads.first
  · have dropped := List.head?_dropWhile_not (· == '0') digits.reverse
    rw [List.getLast?_reverse]
    intro last
    rw [last] at dropped
    exact absurd dropped (by decide)

/-- What is left behind the first digits is no fraction only if nothing is left. -/
theorem fraction_drop (isDigits : IsDigits digits) (last : digits.getLast? ≠ some '0')
    (count : ℕ) : Fraction (if digits.length > count then '.' :: digits.drop count else []) := by
  split
  next longer =>
    refine .point (isDigits.sublist (List.drop_sublist count _)) ?_ ?_
    · rw [ne_eq, List.drop_eq_nil_iff]
      omega
    · rwa [List.getLast?_drop, if_neg (by omega)]
  · exact .none

/-! ### Layouts -/

theorem usesPower_iff (power : ℤ) : usesPower (power + 1) = true ↔ ¬ (-5 ≤ power ∧ power ≤ 5) := by
  simp [usesPower, maxLeadingZeroes, precision, maxTrailingZeroes]
  omega

/-- The plain form has room for the powers of ten of its first digit. -/
theorem plain_iff (leading : IsLeading digits) (power : ℤ) :
    ((10 : ℚ) ^ (-5 : ℤ) ≤ digitsValue digits * 10 ^ (power - 5) ∧
      (digitsValue digits * 10 ^ (power - 5) : ℚ) < 10 ^ (6 : ℤ)) ↔ -5 ≤ power ∧ power ≤ 5 := by
  obtain ⟨low, high⟩ := leading.value_bounds power
  constructor
  · rintro ⟨least, most⟩
    have above := (zpow_lt_zpow_iff_right₀ (by norm_num)).mp (least.trans_lt high)
    have below := (zpow_lt_zpow_iff_right₀ (by norm_num)).mp (low.trans_lt most)
    omega
  · rintro ⟨least, most⟩
    have above : (10 : ℚ) ^ (-5 : ℤ) ≤ 10 ^ power := zpow_le_zpow_right₀ (by norm_num) least
    have below : (10 : ℚ) ^ (power + 1) ≤ 10 ^ (6 : ℤ) :=
      zpow_le_zpow_right₀ (by norm_num) (by omega)
    exact ⟨above.trans low, high.trans_le below⟩

theorem scientific_form (leads : Leads digits) (last : digits.getLast? ≠ some '0') {power : ℤ}
    (nonzero : power ≠ 0) : Scientific (Decimal.scientific digits (power + 1)) := by
  have isFraction := fraction_drop leads.isDigits last 1
  obtain ⟨digit, rest, rfl⟩ := List.exists_cons_of_ne_nil leads.some'
  have isSign : (if power < 0 then '-' else '+') = '-' ∨
      (if power < 0 then '-' else '+') = '+' := by
    split
    · exact .inl rfl
    · exact .inr rfl
  rw [Decimal.scientific, Int.add_sub_cancel, List.append_assoc]
  exact .power (leads.take Nat.one_pos) isFraction isSign (leads_toDigits (by omega))

/-- No layout of leading digits has a zero that could be left out. -/
theorem ofDigits_form (leading : IsLeading digits) (power : ℤ) :
    if -5 ≤ power ∧ power ≤ 5 then Plain (ofDigits digits power)
    else Scientific (ofDigits digits power) := by
  have leads := leads_of_isLeading leading
  obtain ⟨significant, last⟩ := trimmed_ends leads
  unfold ofDigits
  dsimp only
  split
  next range =>
    rw [if_neg ((usesPower_iff power).not_left.mpr range)]
    split
    next before =>
      refine .zero (.point ((isDigits_zeros _).append significant.isDigits) ?_ ?_)
      · exact List.append_ne_nil_of_right_ne_nil _ significant.some'
      · rwa [List.getLast?_append_of_ne_nil _ significant.some']
    next after =>
      exact .whole (leads.take (by omega)) (fraction_drop significant.isDigits last _)
  next range =>
    rw [if_pos ((usesPower_iff power).mpr range)]
    exact scientific_form significant last (by omega)

end Digits

/-! ### Texts -/

theorem canonical_characters {parts : Binary64} (ofDouble : OfDouble parts) :
    Canonical parts (characters parts) := by
  cases ofDouble with
  | nan => rfl
  | infinite negative => cases negative <;> rfl
  | zero negative => rfl
  | @finite negative mantissa exponent double =>
    rcases found : significantDigits mantissa exponent with ⟨digits, power⟩
    have leading := isLeading_significantDigits double found
    have form := ofDigits_form leading power
    have range := plain_iff leading power
    rw [(significantDigits_eq_roundedTo double found).2.2] at range
    rw [Canonical, if_neg double.positive.ne', characters_eq double found]
    refine ⟨ofDigits digits power, rfl, ?_⟩
    simp only [range]
    exact form

end NumberText

/-- A text is what every way to write a double gives: none of them fails, except where the output
itself does, and none falls back on another text. -/
structure IsTextOf (x : Float) (text : String) : Prop where
  rendered : ∃ buffer,
    NumberText.render (.ofFloat x) .empty = some ((), buffer) ∧ buffer.text = text
  formatted : formatNumber x = text
  appended : ∀ out, writeNumber out x = out ++ text
  written : ∀ {Out : Type} (write : Out → String → Option Out) (out : Out),
    writeNumberTo write out x = write out text
  ascii : IsAscii text.toList
  short : text.utf8ByteSize ≤ 13
  canonical : NumberText.Canonical (.ofFloat x) text.toList

/-- Every double has one text of at most thirteen bytes, in the one form that its rounded magnitude
asks for. Two finite doubles share it exactly if they are rounded to one number. -/
theorem isTextOf_formatNumber (x : Float) :
    IsTextOf x (formatNumber x) ∧
      ∀ y : Float, x.isFinite = true → y.isFinite = true →
        (formatNumber x = formatNumber y ↔ shown (amount x) = shown (amount y)) := by
  have ofDouble := NumberText.ofDouble_ofFloat x
  obtain ⟨buffer, rendered, ascii, text⟩ := NumberText.render_ofFloat x
  have size : (numberText x).utf8ByteSize = (NumberText.characters (.ofFloat x)).length :=
    ascii.size_utf8Encode
  have asText : IsTextOf x (numberText x) :=
    { rendered := ⟨buffer, rendered, text⟩
      formatted := formatNumber_eq x
      appended := fun out => writeNumber_eq out x
      written := fun write out => writeNumberTo_eq write out x
      ascii := (String.toList_ofList).symm ▸ ascii
      short := size ▸ NumberText.length_characters_le ofDouble
      canonical := (String.toList_ofList).symm ▸ NumberText.canonical_characters ofDouble }
  rw [formatNumber_eq]
  refine ⟨asText, fun y first second => ?_⟩
  rw [formatNumber_eq]
  exact numberText_inj_iff first second

/-- A number of the plain range that is rounded out of it. -/
theorem isTextOf_formatNumber_carry :
    (999999.5 : Float).isFinite = true ∧ (1000000 : Float).isFinite = true ∧
      formatNumber 999999.5 = "1e+6" ∧ IsTextOf 999999.5 (formatNumber 999999.5) ∧
        (formatNumber 999999.5 = formatNumber 1000000 ↔
          shown (amount 999999.5) = shown (amount 1000000)) :=
  ⟨by decide, by decide, by
    rw [formatNumber_eq]
    decide +kernel, (isTextOf_formatNumber 999999.5).1,
    (isTextOf_formatNumber 999999.5).2 1000000 (by decide) (by decide)⟩

end SolidScript
