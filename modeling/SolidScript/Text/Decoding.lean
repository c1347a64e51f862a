/-
Reading bytes as text. Valid sequences of one to four bytes give their characters; a byte that
starts none, and the longest start of a sequence that breaks off, give one replacement character
each.
-/

namespace SolidScript.Decoding

/-- What the first byte of a sequence says: the high bits of the code point, the range of the second
byte, and the number of bytes after that. The range rules out overlong forms, surrogates and code
points beyond the last one. -/
structure Lead where
  bits : Nat
  least : Nat
  greatest : Nat
  further : Nat

def Lead.ofByte? (byte : Nat) : Option Lead :=
  if byte < 0xC2 then none
  else if byte ≤ 0xDF then some ⟨byte - 0xC0, 0x80, 0xBF, 0⟩
  else if byte = 0xE0 then some ⟨0, 0xA0, 0xBF, 1⟩
  else if byte = 0xED then some ⟨0xD, 0x80, 0x9F, 1⟩
  else if byte ≤ 0xEF then some ⟨byte - 0xE0, 0x80, 0xBF, 1⟩
  else if byte = 0xF0 then some ⟨0, 0x90, 0xBF, 2⟩
  else if byte ≤ 0xF3 then some ⟨byte - 0xF0, 0x80, 0xBF, 2⟩
  else if byte = 0xF4 then some ⟨4, 0x80, 0x8F, 2⟩
  else none

/-- Read continuation bytes while they lie in their range: the code point if all were there, and the
bytes after those that were read. -/
def continuation (bits least greatest : Nat) : Nat → List UInt8 → Option Nat × List UInt8
  | _, [] => (none, [])
  | further, byte :: rest =>
    if least ≤ byte.toNat && byte.toNat ≤ greatest then
      let bits := bits * 64 + byte.toNat % 64
      match further with
      | 0 => (some bits, rest)
      | further + 1 => continuation bits 0x80 0xBF further rest
    else (none, byte :: rest)

theorem length_continuation (bits least greatest further : Nat) (bytes : List UInt8) :
    (continuation bits least greatest further bytes).2.length ≤ bytes.length := by
  fun_induction continuation bits least greatest further bytes with
  | case1 => exact Nat.le_refl _
  | case2 => exact Nat.le_succ _
  | case3 _ _ _ _ _ _ _ _ shorter => exact Nat.le_succ_of_le shorter
  | case4 => exact Nat.le_refl _

/-- What stands for bytes that are no text. -/
def replacement : Char := '\ufffd'

def decode : List UInt8 → List Char
  | [] => []
  | byte :: rest =>
    if byte.toNat < 0x80 then Char.ofNat byte.toNat :: decode rest
    else
      match Lead.ofByte? byte.toNat with
      | none => replacement :: decode rest
      | some lead =>
        let read := continuation lead.bits lead.least lead.greatest lead.further rest
        (read.1.map Char.ofNat).getD replacement :: decode read.2
termination_by bytes => bytes.length
decreasing_by
  · exact Nat.lt_succ_self _
  · exact Nat.lt_succ_self _
  · exact Nat.lt_succ_of_le (length_continuation ..)

end Decoding

/-- The text that the bytes hold, with replacements for what is no text. -/
def textOfBytes (bytes : List UInt8) : String :=
  String.ofList (Decoding.decode bytes)

end SolidScript
