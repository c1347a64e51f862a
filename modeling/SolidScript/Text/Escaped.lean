/-
Texts written for inspection. Besides the usual escapes, every character without a printed form of
its own is written by its code point: unprintable ones, and those that would be drawn on the
character before them.
-/

import SolidScript.Text.BreakClass
import SolidScript.Text.Unprintable

namespace SolidScript.Escaped

/-- Characters that attach to the one before them and still have a picture of their own: the
half-width voicing marks and the skin tones. -/
def pictureRanges : List (Nat × Nat) := [(0xFF9E, 0xFF9F), (0x1F3FB, 0x1F3FF)]

/-- Whether a character would be drawn on the one before it. -/
def isCombining (c : Char) : Bool :=
  inRanges extendRanges c.toNat && !inRanges pictureRanges c.toNat

/-- The code point in lower-case hexadecimal, between braces. -/
def codePoint (c : Char) : List Char :=
  '\\' :: 'u' :: '\x7b' :: (Nat.toDigits 16 c.toNat ++ ['\x7d'])

def escape (c : Char) : List Char :=
  match c with
  | '\x00' => ['\\', '0']
  | '\t' => ['\\', 't']
  | '\n' => ['\\', 'n']
  | '\r' => ['\\', 'r']
  | '"' => ['\\', '"']
  | '\\' => ['\\', '\\']
  | c => if isCombining c || inRanges unprintableRanges c.toNat then codePoint c else [c]

end Escaped

/-- The text between double quotes, readable whatever its characters are. -/
def escapedText (text : String) : String :=
  String.ofList ('"' :: (text.toList.flatMap Escaped.escape ++ ['"']))

end SolidScript
