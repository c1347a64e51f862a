/-
Classes of characters that decide where a text may be cut between two characters that a reader
takes for one. The large classes are tables of their own; the small ones are listed here, and the
syllables of the Korean script are told apart by arithmetic.
-/

import SolidScript.Text.Extend
import SolidScript.Text.SpacingMark
import SolidScript.Text.Pictograph
import SolidScript.Text.Consonant

namespace SolidScript

/-- Whether a code point lies in one of the ranges. -/
def inRanges (ranges : List (Nat × Nat)) (code : Nat) : Bool :=
  ranges.any fun (first, last) => first ≤ code && code ≤ last

/-- First and last code point of each run of controls, line ends apart. -/
def controlRanges : List (Nat × Nat) :=
  [(0x0, 0x9), (0xB, 0xC), (0xE, 0x1F), (0x7F, 0x9F), (0xAD, 0xAD), (0x61C, 0x61C),
    (0x180E, 0x180E), (0x200B, 0x200B), (0x200E, 0x200F), (0x2028, 0x202E), (0x2060, 0x206F),
    (0xFEFF, 0xFEFF), (0xFFF0, 0xFFFB), (0x13430, 0x1343F), (0x1BCA0, 0x1BCA3),
    (0x1D173, 0x1D17A), (0xE0000, 0xE001F), (0xE0080, 0xE00FF), (0xE01F0, 0xE0FFF)]

/-- First and last code point of each run of characters that attach to the one after them. -/
def prependRanges : List (Nat × Nat) :=
  [(0x600, 0x605), (0x6DD, 0x6DD), (0x70F, 0x70F), (0x890, 0x891), (0x8E2, 0x8E2),
    (0xD4E, 0xD4E), (0x110BD, 0x110BD), (0x110CD, 0x110CD), (0x111C2, 0x111C3),
    (0x113D1, 0x113D1), (0x1193F, 0x1193F), (0x11941, 0x11941), (0x11A84, 0x11A89),
    (0x11D46, 0x11D46), (0x11F02, 0x11F02)]

/-- Leading consonants of syllables. -/
def leadingRanges : List (Nat × Nat) := [(0x1100, 0x115F), (0xA960, 0xA97C)]

/-- Vowels of syllables. -/
def vowelRanges : List (Nat × Nat) :=
  [(0x1160, 0x11A7), (0xD7B0, 0xD7C6), (0x16D63, 0x16D63), (0x16D67, 0x16D6A)]

/-- Trailing consonants of syllables. -/
def trailingRanges : List (Nat × Nat) := [(0x11A8, 0x11FF), (0xD7CB, 0xD7FB)]

/-- Signs that link the consonants around them into one shape. -/
def linkerRanges : List (Nat × Nat) :=
  [(0x94D, 0x94D), (0x9CD, 0x9CD), (0xACD, 0xACD), (0xB4D, 0xB4D), (0xC4D, 0xC4D),
    (0xD4D, 0xD4D), (0x1039, 0x1039), (0x17D2, 0x17D2), (0x1A60, 0x1A60), (0x1B44, 0x1B44),
    (0x1BAB, 0x1BAB), (0xA9C0, 0xA9C0), (0xAAF6, 0xAAF6), (0x10A3F, 0x10A3F),
    (0x11133, 0x11133), (0x113D0, 0x113D0), (0x1193E, 0x1193E), (0x11A47, 0x11A47),
    (0x11A99, 0x11A99), (0x11F42, 0x11F42)]

/-- How a character behaves at a cut. -/
inductive BreakClass where
  | carriageReturn
  | lineFeed
  | control
  | extend
  | joiner
  | regional
  | prepend
  | spacingMark
  | leading
  | vowel
  | trailing
  /-- A syllable without a trailing consonant. -/
  | openSyllable
  | closedSyllable
  | other
deriving DecidableEq, Repr

def BreakClass.ofCode (code : Nat) : BreakClass :=
  if 0x20 ≤ code && code ≤ 0x7E then .other
  else if code = 0xD then .carriageReturn
  else if code = 0xA then .lineFeed
  else if code = 0x200D then .joiner
  else if 0xAC00 ≤ code && code ≤ 0xD7A3 then
    if (code - 0xAC00) % 28 = 0 then .openSyllable else .closedSyllable
  else if 0x1F1E6 ≤ code && code ≤ 0x1F1FF then .regional
  else if inRanges extendRanges code then .extend
  else if inRanges spacingMarkRanges code then .spacingMark
  else if inRanges controlRanges code then .control
  else if inRanges prependRanges code then .prepend
  else if inRanges leadingRanges code then .leading
  else if inRanges vowelRanges code then .vowel
  else if inRanges trailingRanges code then .trailing
  else .other

/-- The class of a character. -/
def breakClass (c : Char) : BreakClass := .ofCode c.toNat

def isPictograph (c : Char) : Bool := inRanges pictographRanges c.toNat

def isConsonant (c : Char) : Bool := inRanges consonantRanges c.toNat

def isLinker (c : Char) : Bool := inRanges linkerRanges c.toNat

/-- Whether a character may stand between a consonant and a linker: any that extends the one before
it, and the joiner, but not the sign that forbids joining. -/
def keepsConjunct (c : Char) : Bool :=
  (breakClass c = .extend || breakClass c = .joiner) && c.toNat != 0x200C

end SolidScript
