/-
This file says what a buffer holds after any texts were written to it, whether they fitted or not:
the first bytes of all of them joined, as many as there is room for. A write that fails keeps what
fitted, so the buffer is full then, and nothing but empty texts fits any more. The bytes are shown
as text if they end between two characters, and no text is shown if a character was cut.
-/

import SolidScript.Number.Buffer

namespace SolidScript.Buffer

/-! ### Bytes -/

/-- The bytes of a text in a buffer. -/
def encoded (text : String) : List UInt8 := text.toUTF8.data.toList

theorem length_encoded (text : String) : (encoded text).length = text.utf8ByteSize := rfl

theorem encoded_append (first second : String) :
    encoded (first ++ second) = encoded first ++ encoded second := by
  unfold encoded String.toUTF8
  rw [String.toByteArray_append, ByteArray.toList_data_append]

theorem push?_eq_some {buffer longer : Buffer} {byte : UInt8}
    (pushed : buffer.push? byte = some longer) : longer.bytes = buffer.bytes ++ [byte] := by
  unfold push? at pushed
  split at pushed
  · cases pushed
    rfl
  · contradiction

theorem push?_eq_none {buffer : Buffer} {byte : UInt8} (refused : buffer.push? byte = none) :
    buffer.length = capacity := by
  unfold push? at refused
  split at refused
  · contradiction
  next full => exact Nat.le_antisymm buffer.length_le (Nat.le_of_not_lt full)

/-- The bytes that there is no room for are left out. -/
theorem bytes_pushAll (buffer : Buffer) (bytes : List UInt8) :
    (buffer.pushAll bytes).2.bytes = (buffer.bytes ++ bytes).take capacity := by
  fun_induction pushAll buffer bytes with
  | case1 buffer => rw [List.append_nil, List.take_of_length_le buffer.length_le]
  | case2 buffer byte bytes longer pushed inductionHypothesis =>
    rw [inductionHypothesis, push?_eq_some pushed, List.append_assoc, List.singleton_append]
  | case3 buffer byte bytes refused => rw [List.take_left' (push?_eq_none refused)]

theorem pushAll_fits_iff (buffer : Buffer) (bytes : List UInt8) :
    (buffer.pushAll bytes).1 = true ↔ buffer.length + bytes.length ≤ capacity := by
  fun_induction pushAll buffer bytes with
  | case1 buffer => exact iff_of_true rfl buffer.length_le
  | case2 buffer byte bytes longer pushed inductionHypothesis =>
    have length : longer.length = buffer.length + 1 := by
      rw [length, push?_eq_some pushed, List.length_append]
      rfl
    rw [inductionHypothesis, length, List.length_cons, Nat.add_assoc, Nat.add_comm 1]
  | case3 buffer byte bytes refused =>
    refine iff_of_false Bool.false_ne_true ?_
    rw [push?_eq_none refused, List.length_cons]
    omega

/-! ### Texts -/

theorem bytes_write (buffer : Buffer) (text : String) :
    (buffer.write text).2.bytes = (buffer.bytes ++ encoded text).take capacity :=
  buffer.bytes_pushAll _

theorem write_fits_iff (buffer : Buffer) (text : String) :
    (buffer.write text).1 = true ↔ buffer.length + text.utf8ByteSize ≤ capacity :=
  buffer.pushAll_fits_iff _

/-- Write texts one after another, also after one that did not fit. -/
def writeAll (buffer : Buffer) (texts : List String) : Buffer :=
  texts.foldl (fun buffer text => (buffer.write text).2) buffer

theorem take_append_take {α : Type} (count : Nat) (front back : List α) :
    (front.take count ++ back).take count = (front ++ back).take count := by
  rw [List.take_append, List.take_append, List.take_take, List.length_take, Nat.min_self]
  congr 2
  omega

/-- What a write leaves out is left out of all that is written. -/
theorem bytes_writeAll (buffer : Buffer) (texts : List String) :
    (buffer.writeAll texts).bytes =
      (buffer.bytes ++ encoded (String.join texts)).take capacity := by
  induction texts generalizing buffer with
  | nil =>
    show buffer.bytes = (buffer.bytes ++ []).take capacity
    rw [List.append_nil, List.take_of_length_le buffer.length_le]
  | cons text texts inductionHypothesis =>
    show ((buffer.write text).2.writeAll texts).bytes = _
    rw [inductionHypothesis, bytes_write, take_append_take, List.append_assoc, String.join_cons,
      encoded_append]

/-! ### The text that is shown -/

theorem text_of_encoded {buffer : Buffer} {text : String} (bytes : buffer.bytes = encoded text) :
    buffer.text = text := by
  have packed : (⟨buffer.bytes.toArray⟩ : ByteArray) = text.toByteArray := by
    rw [bytes]
    rfl
  rw [Buffer.text, packed, String.fromUTF8?, dif_pos text.isValidUTF8]
  rfl

variable {buffer : Buffer} {whole : String}

theorem text_of_boundary (starts : buffer.bytes <+: encoded whole) {front back : String}
    (joined : whole = front ++ back) (boundary : front.utf8ByteSize = buffer.length) :
    buffer.text = front := by
  refine text_of_encoded ((List.prefix_iff_eq_take.mp starts).trans ?_)
  rw [joined, encoded_append]
  exact List.take_left' boundary

/-- The bytes are valid only if they are those of a text that the whole starts with. -/
theorem text_of_cut (starts : buffer.bytes <+: encoded whole)
    (cut : ∀ front back, whole = front ++ back → front.utf8ByteSize ≠ buffer.length) :
    buffer.text = "" := by
  have packed : (⟨buffer.bytes.toArray⟩ : ByteArray) =
      whole.toByteArray.extract 0 buffer.length := by
    refine ByteArray.ext (Array.toList_inj.mp ?_)
    rw [ByteArray.data_extract, Array.toList_extract]
    exact List.prefix_iff_eq_take.mp starts
  have inside : (⟨buffer.length⟩ : String.Pos.Raw) ≤ whole.rawEndPos := starts.length_le
  rw [Buffer.text, packed, String.fromUTF8?, dif_neg]
  · rfl
  · intro valid
    obtain ⟨front, back, joined, position⟩ := String.Pos.Raw.isValid_iff_exists_append.mp
      (String.Pos.Raw.isValid_iff_isValidUTF8_extract_zero.mpr ⟨inside, valid⟩)
    exact cut front back joined (congrArg String.Pos.Raw.byteIdx position).symm

/-! ### Runs of writes -/

/-- What a buffer shows when texts were written to it that are `whole` when joined. The last one was
`last`, and it was answered then whether it fitted. -/
structure Filled (whole last : String) (answer : Bool) (buffer : Buffer) : Prop where
  bytes : buffer.bytes = whole.toUTF8.data.toList.take capacity
  length : buffer.length = min capacity whole.utf8ByteSize
  within : buffer.length ≤ capacity
  fits : answer = true ↔ last = "" ∨ whole.utf8ByteSize ≤ capacity
  /-- The bytes end between two characters. -/
  text : ∀ front back, whole = front ++ back → front.utf8ByteSize = buffer.length →
    buffer.text = front
  /-- They end inside of a character. -/
  cut : (∀ front back, whole = front ++ back → front.utf8ByteSize ≠ buffer.length) →
    buffer.text = ""

/-- After any writes, whether they fitted or not, one more write leaves the first bytes of all texts
in the buffer. It fits if all texts do, and an empty text fits in any case. -/
theorem writes_filled (texts : List String) (last : String) :
    Filled (String.join (texts ++ [last])) last ((empty.writeAll texts).write last).1
      ((empty.writeAll texts).write last).2 := by
  have whole : String.join (texts ++ [last]) = String.join texts ++ last := by
    rw [String.join_append, String.join_cons, String.join_nil, String.append_empty]
  rw [whole]
  have before : (empty.writeAll texts).bytes = (encoded (String.join texts)).take capacity :=
    empty.bytes_writeAll texts
  have bytes : ((empty.writeAll texts).write last).2.bytes =
      (encoded (String.join texts ++ last)).take capacity := by
    rw [bytes_write, before, take_append_take, encoded_append]
  have starts : ((empty.writeAll texts).write last).2.bytes <+:
      encoded (String.join texts ++ last) := bytes ▸ List.take_prefix _ _
  refine ⟨bytes, ?_, length_le _, ?_, fun _ _ => text_of_boundary starts, text_of_cut starts⟩
  · rw [length, bytes, List.length_take, length_encoded]
  · rw [write_fits_iff, length, before, List.length_take, length_encoded,
      ← String.utf8ByteSize_eq_zero_iff, String.utf8ByteSize_append]
    omega

/-- One byte of a character that takes two of them fits behind the first 127 bytes. -/
example :
    let (fits, buffer) := (empty.writeAll [String.ofList (List.replicate 127 '0')]).write "é"
    fits = false ∧ buffer.length = 128 ∧ buffer.text = "" := by
  decide +kernel

end SolidScript.Buffer
