/-
This file proves that writing a number never fails. Every piece fits into the buffer, the rendering
that the digits come from is read back as what was rendered, and no piece of digits is asked for
that is not there. What the buffer holds in the end is the text of the number.
-/

import SolidScript.Proofs.Number.Filling
import SolidScript.Proofs.Number.Leading

namespace SolidScript

/-! ### Buffers -/

/-- A text of which each character takes one byte. -/
def IsAscii (text : List Char) : Prop := ∀ c ∈ text, c.toNat ≤ 127

namespace IsAscii

variable {text piece : List Char}

theorem nil : IsAscii [] := fun _ member => absurd member List.not_mem_nil

theorem append (left : IsAscii text) (right : IsAscii piece) : IsAscii (text ++ piece) := by
  intro c member
  rcases List.mem_append.mp member with inText | inPiece
  · exact left c inText
  · exact right c inPiece

theorem of_digits (isDigits : IsDigits text) : IsAscii text := by
  intro c member
  have bounds := digit_bounds (isDigits c member)
  omega

theorem size_utf8Encode (ascii : IsAscii text) : text.utf8Encode.size = text.length := by
  induction text with
  | nil => rfl
  | cons c text inductionHypothesis =>
    have one : c.utf8Size = 1 := by
      rw [Char.utf8Size_eq_one_iff, UInt32.le_iff_toNat_le]
      exact ascii c List.mem_cons_self
    have rest := inductionHypothesis fun c member => ascii c (List.mem_cons_of_mem _ member)
    rw [List.utf8Encode_cons, ByteArray.size_append, rest, List.utf8Encode_singleton]
    simp [one, Nat.add_comm]

end IsAscii

namespace Buffer

/-- What the buffer holds is the text, which takes a byte for each character. -/
structure Holds (buffer : Buffer) (text : List Char) : Prop where
  ascii : IsAscii text
  bytes : buffer.bytes = text.utf8Encode.data.toList

variable {buffer : Buffer} {text piece : List Char}

theorem holds_empty : empty.Holds [] := ⟨.nil, rfl⟩

theorem Holds.length_eq (holds : buffer.Holds text) : buffer.length = text.length := by
  rw [length, holds.bytes, ← holds.ascii.size_utf8Encode]
  rfl

theorem Holds.text_eq (holds : buffer.Holds text) : buffer.text = String.ofList text := by
  have bytes : (⟨buffer.bytes.toArray⟩ : ByteArray) = (String.ofList text).toByteArray := by
    rw [holds.bytes]
    rfl
  rw [Buffer.text, bytes, String.fromUTF8?, dif_pos (String.ofList text).isValidUTF8]
  rfl

end Buffer

namespace NumberText

open Buffer

/-- The action writes the text behind whatever the buffer holds, if there is room. -/
def Writes (action : Writing Unit) (text : List Char) : Prop :=
  ∀ buffer before, buffer.Holds before → before.length + text.length ≤ capacity →
    ∃ after, action buffer = some ((), after) ∧ after.Holds (before ++ text)

theorem writes_put {piece : List Char} (ascii : IsAscii piece) : Writes (put piece) piece := by
  intro buffer before holds room
  have size : (String.ofList piece).utf8ByteSize = piece.length := ascii.size_utf8Encode
  have fits : buffer.length + (String.ofList piece).utf8ByteSize ≤ capacity := by
    rw [size, holds.length_eq]
    exact room
  refine ⟨(buffer.write (String.ofList piece)).2, ?_, holds.ascii.append ascii, ?_⟩
  · have written := (buffer.write_fits_iff _).mpr fits
    rw [put]
    split
    next found => rw [found]
    next found =>
      rw [found] at written
      contradiction
  · have whole : (buffer.bytes ++ encoded (String.ofList piece)).length ≤ capacity := by
      rw [List.length_append, length_encoded]
      exact fits
    rw [bytes_write, List.take_of_length_le whole, holds.bytes, List.utf8Encode_append,
      ByteArray.toList_data_append]
    rfl

theorem writes_pure : Writes (pure ()) [] := by
  intro buffer before holds _
  exact ⟨buffer, rfl, by rwa [List.append_nil]⟩

theorem Writes.bind {first : Writing Unit} {next : Unit → Writing Unit} {text rest : List Char}
    (writes : Writes first text) (further : Writes (next ()) rest) :
    Writes (first >>= next) (text ++ rest) := by
  intro buffer before holds room
  rw [List.length_append] at room
  obtain ⟨middle, written, holdsMiddle⟩ := writes buffer before holds (by omega)
  obtain ⟨after, writtenNext, holdsAfter⟩ :=
    further middle _ holdsMiddle (by rw [List.length_append]; omega)
  rw [List.append_assoc] at holdsAfter
  refine ⟨after, ?_, holdsAfter⟩
  show (first buffer).bind (fun result => next result.1 result.2) = _
  rw [written]
  exact writtenNext

/-- What is there is looked at without writing anything. -/
theorem Writes.lift_bind {α : Type} {found : α} {next : α → Writing Unit} {text : List Char}
    (further : Writes (next found) text) : Writes (liftM (some found) >>= next) text := by
  intro buffer before holds room
  exact further buffer before holds room

theorem Writes.guard_bind {condition : Prop} [Decidable condition] {next : Unit → Writing Unit}
    {text : List Char} (met : condition) (further : Writes (next ()) text) :
    Writes (guard condition >>= next) text := by
  rw [guard, if_pos met]
  exact further

/-- In an empty buffer there is nothing else in the end. -/
theorem Writes.from_empty {action : Writing Unit} {text : List Char} (writes : Writes action text)
    (room : text.length ≤ capacity) :
    ∃ buffer, action .empty = some ((), buffer) ∧ IsAscii text ∧
      buffer.text = String.ofList text := by
  obtain ⟨buffer, written, holds⟩ :=
    writes .empty [] holds_empty (by rwa [List.length_nil, Nat.zero_add])
  exact ⟨buffer, written, holds.ascii, holds.text_eq⟩

/-! ### Layouts -/

variable {digits : List Char}

theorem writes_writeScientific {significant : List Char} (isDigits : IsDigits significant)
    (some' : significant ≠ []) (power : ℤ) :
    Writes (writeScientific significant power) (Decimal.scientific significant (power + 1)) := by
  have front := writes_put (.of_digits (isDigits.sublist (List.take_sublist 1 _)))
  have behind := writes_put (.of_digits (isDigits.sublist (List.drop_sublist 1 _)))
  have ends := writes_put (.of_digits (isDigits_toDigits power.natAbs))
  have ascii : IsAscii ['e', if power < 0 then '-' else '+'] := by
    split <;> simp [IsAscii]
  have mark : Writes (do
      put ['e', if power < 0 then '-' else '+']
      put (Nat.toDigits 10 power.natAbs))
      ('e' :: (if power < 0 then '-' else '+') :: Nat.toDigits 10 power.natAbs) :=
    (writes_put ascii).bind ends
  unfold writeScientific Decimal.scientific
  dsimp only
  rw [Int.add_sub_cancel, List.append_assoc]
  refine .guard_bind (List.length_pos_of_ne_nil some') (front.bind ?_)
  split
  · exact (writes_put (by simp [IsAscii])).bind (behind.bind mark)
  · exact mark

theorem writes_writeDigits (isDigits : IsDigits digits) (length : digits.length = 6) (power : ℤ) :
    Writes (writeDigits digits power) (ofDigits digits power) := by
  have some' : trimmed digits ≠ [] := trimmed_ne_nil (by rintro rfl; contradiction)
  obtain ⟨zeros, whole⟩ := trimmed_spec digits
  have isTrimmed : IsDigits (trimmed digits) := by
    rw [whole] at isDigits
    exact isDigits.sublist (List.sublist_append_left _ _)
  unfold writeDigits ofDigits
  dsimp only
  split
  · exact writes_writeScientific isTrimmed some' power
  next plain =>
    split
    next before =>
      exact (writes_put (by simp [IsAscii])).bind ((writes_put (.of_digits (isDigits_zeros _))).bind
        (writes_put (.of_digits isTrimmed)))
    next after =>
      obtain ⟨places, point⟩ := Int.eq_ofNat_of_zero_le (show 0 ≤ power + 1 by omega)
      rw [point] at plain ⊢
      have room : places ≤ digits.length := by
        simp [usesPower, precision, maxTrailingZeroes] at plain
        omega
      have front := writes_put (.of_digits (isDigits.sublist (List.take_sublist places _)))
      have behind := writes_put (.of_digits (isTrimmed.sublist (List.drop_sublist places _)))
      refine .lift_bind (.guard_bind room (front.bind ?_))
      rw [Int.toNat_natCast]
      split
      · exact (writes_put (by simp [IsAscii])).bind behind
      · exact writes_pure

/-! ### Reading a rendering back -/

theorem cutAt?_append {mark : Char} {front : List Char} (absent : mark ∉ front) (back : List Char) :
    cutAt? mark (front ++ mark :: back) = some (front, back) := by
  have others : ∀ c ∈ front, (c != mark) = true := fun c member =>
    bne_iff_ne.mpr (ne_of_mem_of_not_mem member absent)
  unfold cutAt?
  rw [List.span_eq_takeWhile_dropWhile, List.takeWhile_append_of_pos others,
    List.dropWhile_append_of_pos others, List.takeWhile_cons_of_neg (by simp),
    List.dropWhile_cons_of_neg (by simp), List.append_nil]

/-- A text that starts with a digit has no sign. -/
theorem signAndRest_digits {digits : List Char} (isDigits : IsDigits digits) :
    signAndRest digits = (false, digits) := by
  unfold signAndRest
  split
  · exact absurd (isDigits '-' List.mem_cons_self) (by decide)
  · exact absurd (isDigits '+' List.mem_cons_self) (by decide)
  · rfl

theorem integer?_of_parts {text digits : List Char} {negative : Bool} {power : ℤ}
    (parts : signAndRest text = (negative, digits)) (isDigits : IsDigits digits)
    (some' : digits ≠ [])
    (value : (if negative then -digitsValue digits else digitsValue digits : ℤ) = power)
    (low : -2 ^ 31 ≤ power) (high : power < 2 ^ 31) : integer? text = some power := by
  have digitsOnly : (!digits.isEmpty && digits.all Char.isDigit) = true := by
    rw [List.isEmpty_eq_false_iff.mpr some', List.all_eq_true.mpr isDigits]
    rfl
  have fits : (decide (-(1 <<< 31 : ℤ) ≤ power) && decide (power < 1 <<< 31)) = true :=
    Bool.and_eq_true_iff.mpr ⟨decide_eq_true low, decide_eq_true high⟩
  simp only [integer?, parts]
  rw [digitsOnly]
  unfold digitsValue at value
  rw [value, fits]
  rfl

/-- A power of ten as a rendering shows it, where only a minus is written. -/
theorem integer?_written {power : ℤ} (low : -2 ^ 31 ≤ power) (high : power < 2 ^ 31) :
    integer? ((if power < 0 then ['-'] else []) ++ Nat.toDigits 10 power.natAbs) = some power := by
  have isDigits := isDigits_toDigits power.natAbs
  have value := digitsValue_toDigits power.natAbs
  rcases lt_or_ge power 0 with negative | positive
  · have parts : signAndRest (['-'] ++ Nat.toDigits 10 power.natAbs) =
        (true, Nat.toDigits 10 power.natAbs) := rfl
    have number : -(power.natAbs : ℤ) = power := by omega
    rw [if_pos negative]
    exact integer?_of_parts parts isDigits Nat.toDigits_ne_nil (by rwa [if_pos rfl, value]) low high
  · have number : (power.natAbs : ℤ) = power := by omega
    rw [if_neg (by omega), List.nil_append]
    exact integer?_of_parts (signAndRest_digits isDigits) isDigits Nat.toDigits_ne_nil
      (by rwa [if_neg (by decide), value]) low high

/-! ### Digits -/

theorem ascii_exponential (number : Decimal) : IsAscii (exponential number) := by
  have isDigits : IsDigits number.digits := isDigits_toDigits _
  have sign : IsAscii (if number.point - 1 < 0 then ['-'] else []) := by
    split <;> simp [IsAscii]
  have point : IsAscii ['.'] := by simp [IsAscii]
  have mark : IsAscii ['e'] := by simp [IsAscii]
  have first := IsAscii.of_digits (isDigits.sublist (List.take_sublist 1 _))
  have others := IsAscii.of_digits (isDigits.sublist (List.drop_sublist 1 _))
  have power := IsAscii.of_digits (isDigits_toDigits (number.point - 1).natAbs)
  exact (first.append (point.append others)).append (mark.append (sign.append power))

/-- The power of ten of a double has at most three digits. -/
theorem length_toDigits_le {power : ℤ} (low : -326 < power) (high : power < 309) :
    (Nat.toDigits 10 power.natAbs).length ≤ 3 :=
  (Nat.length_toDigits_le_iff (by decide) (by decide)).mpr (by omega)

theorem length_exponential {number : Decimal} (length : number.digits.length = 41)
    (low : -326 < number.point - 1) (high : number.point - 1 < 309) :
    (exponential number).length ≤ capacity := by
  have short := length_toDigits_le low high
  have sign : (if number.point - 1 < 0 then ['-'] else []).length ≤ 1 := by
    split <;> simp
  simp only [exponential, List.length_append, List.length_cons, List.length_take, List.length_drop,
    length, capacity]
  omega

section Double

variable {mantissa : ℕ} {exponent : ℤ} (double : IsDouble mantissa exponent)

include double

theorem power_rendering_bounds : -326 < (rendering mantissa exponent).point - 1 ∧
    (rendering mantissa exponent).point - 1 < 309 := by
  rcases found : significantDigits mantissa exponent with ⟨digits, power⟩
  have bounds := power_bounds double found
  have near : power = (rendering mantissa exponent).point - 1 ∨
      power = (rendering mantissa exponent).point - 1 + 1 := by
    unfold significantDigits at found
    dsimp only at found
    split at found
    · split at found
      · exact .inr (congrArg Prod.snd found).symm
      · exact .inl (congrArg Prod.snd found).symm
    · exact .inl (congrArg Prod.snd found).symm
  omega

/-- The digits that are read from the text of a rendering are those of the rendering. -/
theorem readDigits?_eq :
    readDigits? mantissa exponent = some (significantDigits mantissa exponent) := by
  have length := length_rendering double.positive exponent
  have isRendered : IsDigits (rendering mantissa exponent).digits := isDigits_toDigits _
  obtain ⟨low, high⟩ := power_rendering_bounds double
  unfold readDigits? significantDigits
  generalize rendering mantissa exponent = rendered at *
  obtain ⟨scratch, written, -, text⟩ :=
    (writes_put (ascii_exponential rendered)).from_empty (length_exponential length low high)
  have parts : cutAt? 'e' scratch.text.toList = some (rendered.digits.take 1 ++ '.' ::
      rendered.digits.drop 1, (if rendered.point - 1 < 0 then ['-'] else []) ++
        Nat.toDigits 10 (rendered.point - 1).natAbs) := by
    have absent : 'e' ∉ rendered.digits.take 1 ++ '.' :: rendered.digits.drop 1 := by
      rw [List.mem_append, List.mem_cons]
      rintro (inFirst | isPoint | inOthers)
      · exact absurd (isRendered 'e' (List.mem_of_mem_take inFirst)) (by decide)
      · exact absurd isPoint (by decide)
      · exact absurd (isRendered 'e' (List.mem_of_mem_drop inOthers)) (by decide)
    rw [text, String.toList_ofList]
    exact cutAt?_append absent _
  have digits : (rendered.digits.take 1 ++ '.' :: rendered.digits.drop 1).filter Char.isDigit =
      rendered.digits := by
    rw [List.filter_append, List.filter_cons_of_neg (by decide),
      List.filter_eq_self.mpr (isRendered.sublist (List.take_sublist 1 _)),
      List.filter_eq_self.mpr (isRendered.sublist (List.drop_sublist 1 _)), List.take_append_drop]
  have power := integer?_written (by omega : -2 ^ 31 ≤ rendered.point - 1) (by omega)
  have padding : precision - rendered.digits.length = 0 := by
    rw [length]
    rfl
  simp only [written, parts, power, digits, padding, Option.bind_eq_bind, Option.bind_some,
    List.replicate_zero, List.append_nil]
  split
  · split <;> rfl
  · rfl

end Double

/-! ### Texts -/

/-- What a double consists of. -/
inductive OfDouble : Binary64 → Prop where
  | nan : OfDouble .nan
  | infinite (negative : Bool) : OfDouble (.infinite negative)
  | zero (negative : Bool) : OfDouble (.finite negative 0 (-1074))
  | finite (negative : Bool) {mantissa : ℕ} {exponent : ℤ} (double : IsDouble mantissa exponent) :
    OfDouble (.finite negative mantissa exponent)

theorem ofDouble_ofFloat (x : Float) : OfDouble (.ofFloat x) := by
  by_cases finite : x.isFinite = true
  · rcases zero_or_isDouble finite with ⟨negative, parts, -⟩ | ⟨negative, _, _, parts, double, -⟩
    · exact parts ▸ .zero negative
    · exact parts ▸ .finite negative double
  · have other : ¬ x.toModel.unpack.isFinite = true := finite
    unfold Binary64.ofFloat
    split
    · exact .nan
    · exact .infinite _
    · exact .zero _
    next unpacked =>
      rw [unpacked] at other
      exact absurd rfl other

/-- A text with or without a minus. -/
theorem writes_signed (negative : Bool) {action : Writing Unit} {text : List Char}
    (writes : Writes action text) :
    Writes (do
      if negative then put ['-']
      action) (characters.signed negative text) := by
  cases negative with
  | false => exact writes
  | true => exact (writes_put (by simp [IsAscii])).bind writes

/-- Digits and layout of a double never go wrong. -/
theorem writes_render {parts : Binary64} (ofDouble : OfDouble parts) :
    Writes (render parts) (characters parts) := by
  cases ofDouble with
  | nan => exact writes_put (by simp [IsAscii])
  | infinite negative => exact writes_signed negative (writes_put (by simp [IsAscii]))
  | zero => exact writes_put (by simp [IsAscii])
  | @finite negative mantissa exponent double =>
    rcases found : significantDigits mantissa exponent with ⟨digits, power⟩
    have leading := isLeading_significantDigits double found
    have writes := writes_signed negative (writes_writeDigits leading.isDigits leading.length power)
    rw [characters_eq double found]
    have some' := readDigits?_eq double
    rw [found] at some'
    obtain ⟨below, rfl⟩ := Nat.exists_eq_add_one_of_ne_zero double.positive.ne'
    show Writes (liftM (readDigits? (below + 1) exponent) >>= _) _
    rw [some']
    exact .lift_bind writes

/-! ### Lengths -/

theorem length_trimmed_le (digits : List Char) : (trimmed digits).length ≤ digits.length := by
  obtain ⟨zeros, whole⟩ := trimmed_spec digits
  have lengths := congrArg List.length whole
  rw [List.length_append] at lengths
  omega

/-- The longest layout is a point among all digits with a power of ten of three digits, or all zeros
that the plain form may have in front of all digits. -/
theorem length_ofDigits_le {digits : List Char} {power : ℤ} (length : digits.length = 6)
    (low : -325 < power) (high : power < 309) : (ofDigits digits power).length ≤ 12 := by
  have short := length_toDigits_le (by omega : -326 < power) high
  have significant := length_trimmed_le digits
  unfold ofDigits
  dsimp only
  split
  · rw [Decimal.scientific, Int.add_sub_cancel]
    split <;> simp <;> omega
  next plain =>
    simp [usesPower, maxLeadingZeroes, precision, maxTrailingZeroes] at plain
    split
    · simp
      omega
    · split <;> simp <;> omega

theorem length_characters_le {parts : Binary64} (ofDouble : OfDouble parts) :
    (characters parts).length ≤ 13 := by
  cases ofDouble with
  | nan => decide
  | infinite negative => cases negative <;> decide
  | zero negative => exact Nat.le_add_left 1 12
  | @finite negative mantissa exponent double =>
    rcases found : significantDigits mantissa exponent with ⟨digits, power⟩
    obtain ⟨low, high⟩ := power_bounds double found
    have short := length_ofDigits_le (isLeading_significantDigits double found).length low high
    rw [characters_eq double found, characters.signed]
    split
    · exact Nat.succ_le_succ short
    · omega

/-- The buffer has room for the text of every double, and holds nothing else in the end. -/
theorem render_ofFloat (x : Float) :
    ∃ buffer, render (.ofFloat x) .empty = some ((), buffer) ∧
      IsAscii (characters (.ofFloat x)) ∧ buffer.text = numberText x :=
  have ofDouble := ofDouble_ofFloat x
  (writes_render ofDouble).from_empty
    (Nat.le_trans (length_characters_le ofDouble) (by decide))

end NumberText

/-! ### Outputs -/

theorem formatNumber_eq (x : Float) : formatNumber x = numberText x := by
  obtain ⟨buffer, written, -, text⟩ := NumberText.render_ofFloat x
  rw [formatNumber, written]
  exact text

/-- A number is written to an output as its text is. -/
theorem writeNumberTo_eq {Out : Type} (write : Out → String → Option Out) (out : Out) (x : Float) :
    writeNumberTo write out x = write out (numberText x) := by
  obtain ⟨buffer, written, -, text⟩ := NumberText.render_ofFloat x
  rw [writeNumberTo, written]
  exact congrArg (write out) text

theorem writeNumber_eq (out : String) (x : Float) : writeNumber out x = out ++ numberText x := by
  rw [writeNumber, writeNumberTo_eq]
  rfl

/-! ### What texts denote -/

/-- The text of a finite double other than zero denotes its exact value rounded to six significant
digits, a half away from zero. The digits that decide are those of the value: rendering it first
never moves it to the other side of a half-way point. -/
theorem formatNumber_denotes {x : Float} (finite : x.isFinite = true) (nonzero : (x == 0) = false) :
    ∃ negative mantissa exponent, Binary64.ofFloat x = .finite negative mantissa exponent ∧
      Numeral.value? (formatNumber x).toList =
        some ((if negative then -1 else 1) * roundedTo 6 (mantissa * 2 ^ exponent)) ∧
      ∀ whole : ℕ,
        let half := (whole + 1 / 2) * lastPlace 6 (mantissa * 2 ^ exponent)
        (NumberText.rendering mantissa exponent).value < half ↔
          (mantissa * 2 ^ exponent : ℚ) < half := by
  obtain ⟨negative, mantissa, exponent, exact', double⟩ := exists_isDouble finite nonzero
  refine ⟨negative, mantissa, exponent, exact', ?_, fun whole => ?_⟩
  · rw [formatNumber_eq, numberText, String.toList_ofList, exact']
    exact NumberText.value?_characters double negative
  · obtain ⟨kept, renders⟩ := NumberText.exists_renders double.positive exponent
    have same := renders.rendering_lt_iff double (10 * whole + 5)
    have half : ((10 * whole + 5 : ℕ) * 10 ^ (Int.log 10 (mantissa * 2 ^ exponent : ℚ) - 6) : ℚ) =
        (whole + 1 / 2) * lastPlace 6 (mantissa * 2 ^ exponent) := by
      rw [lastPlace, show Int.log 10 (mantissa * 2 ^ exponent : ℚ) + 1 - ((6 : ℕ) : ℤ) =
        1 + (Int.log 10 (mantissa * 2 ^ exponent : ℚ) - 6) by omega, zpow_add₀ (by norm_num)]
      push_cast
      ring
    rwa [half] at same

/-- A number that is half-way itself is rounded up. -/
theorem formatNumber_denotes_half_way :
    (100000.5 : Float).isFinite = true ∧ ((100000.5 : Float) == 0) = false ∧
      formatNumber 100000.5 = "100001" ∧
      ∃ negative mantissa exponent,
        Binary64.ofFloat 100000.5 = .finite negative mantissa exponent ∧
        Numeral.value? (formatNumber 100000.5).toList =
          some ((if negative then -1 else 1) * roundedTo 6 (mantissa * 2 ^ exponent)) ∧
        ∀ whole : ℕ,
          let half := (whole + 1 / 2) * lastPlace 6 (mantissa * 2 ^ exponent)
          (NumberText.rendering mantissa exponent).value < half ↔
            (mantissa * 2 ^ exponent : ℚ) < half :=
  ⟨by decide, by decide, by rw [formatNumber_eq]; decide +kernel,
    formatNumber_denotes (by decide) (by decide)⟩

end SolidScript
