/-
A text buffer of fixed capacity. Text is written byte by byte, and a write that does not fit keeps
the bytes that did. The held bytes are shown as text when they are valid, which fails only where
the last character was cut.
-/

namespace SolidScript

namespace Buffer

/-- Bytes that a buffer can hold. -/
def capacity : Nat := 128

end Buffer

structure Buffer where
  bytes : List UInt8
  length_le : bytes.length ≤ Buffer.capacity

namespace Buffer

def empty : Buffer := ⟨[], Nat.zero_le _⟩

def length (buffer : Buffer) : Nat := buffer.bytes.length

def isEmpty (buffer : Buffer) : Bool := buffer.bytes.isEmpty

/-- The buffer with one more byte, if there is room for it. -/
def push? (buffer : Buffer) (byte : UInt8) : Option Buffer :=
  if room : buffer.length < capacity then
    some ⟨buffer.bytes ++ [byte], by rw [List.length_append]; exact room⟩
  else none

/-- Append bytes one by one, up to the first one that there is no room for, and tell whether there
was room for all of them. -/
def pushAll (buffer : Buffer) : List UInt8 → Bool × Buffer
  | [] => (true, buffer)
  | byte :: bytes =>
    match buffer.push? byte with
    | some longer => longer.pushAll bytes
    | none => (false, buffer)

/-- Append the bytes of `text` as far as there is room, and tell whether all of them fitted. -/
def write (buffer : Buffer) (text : String) : Bool × Buffer :=
  buffer.pushAll text.toUTF8.data.toList

/-- The held text, or the empty text when a character was cut. -/
def text (buffer : Buffer) : String :=
  (String.fromUTF8? ⟨buffer.bytes.toArray⟩).getD ""

end Buffer

end SolidScript
