/-
The text of a number, as every output of the language shows it: six significant digits, a half
rounded away from zero, no zeros at the end of the digits, and a power of ten where the plain form
would need more than `maxLeadingZeroes` zeros after the point or any padding in front of it. Both
zeros are written `0`.

A text is written piece by piece into a buffer, and so is the rendering that its digits are read
from. Each of these steps may fail, if the buffer has no room or the rendering cannot be read.
-/

import SolidScript.Number.Binary64
import SolidScript.Number.Buffer
import SolidScript.Number.Decimal
import SolidScript.Number.Shortest

namespace SolidScript.NumberText

/-- Significant digits of every number. -/
def precision : Nat := 6

/-- Zeros that the plain form may have between the point and the first digit. -/
def maxLeadingZeroes : Nat := 5

/-- Padding zeros that the plain form may have in front of the point. -/
def maxTrailingZeroes : Nat := 0

/-- Digits that are rendered behind the first one before a number is rounded to `precision` digits.
No double lies so close to a half-way point without being on it, so they decide which way it is. -/
def roundingDigits : Nat := 40

/-! ### Digits -/

/-- Add one in the last place, and tell whether that carries out of the first digit. -/
def increment : List Char → Bool × List Char
  | [] => (true, [])
  | digit :: rest =>
    match increment rest with
    | (false, rest) => (false, digit :: rest)
    | (true, rest) =>
      if digit = '9' then (true, '0' :: rest) else (false, Char.ofNat (digit.toNat + 1) :: rest)

/-- The number rendered with one digit and `roundingDigits` more. -/
def rendering (mantissa : Nat) (exponent : Int) : Decimal :=
  (Decimal.ofBinary mantissa exponent).rendered (roundingDigits + 1)

/-- The leading digits of a positive number, rounded by the rendered digit that follows them, and
the power of ten of the first one. -/
def significantDigits (mantissa : Nat) (exponent : Int) : List Char × Int :=
  let rendered := rendering mantissa exponent
  let power := rendered.point - 1
  let digits := rendered.digits.take precision
  if rendered.digits[precision]?.any ('5' ≤ ·) then
    match increment digits with
    | (true, _) => ('1' :: List.replicate (precision - 1) '0', power + 1)
    | (false, digits) => (digits, power)
  else (digits, power)

/-- The digits without the zeros at their end. One digit is kept. -/
def trimmed (digits : List Char) : List Char :=
  match (digits.reverse.dropWhile (· == '0')).reverse with
  | [] => digits.take 1
  | kept => kept

/-! ### Layout -/

/-- Whether a number of `precision` digits with its point at `point` is written with a power of
ten. -/
def usesPower (point : Int) : Bool :=
  1 - point > maxLeadingZeroes || point - precision > maxTrailingZeroes

/-- The text of digits of which the first one stands for a power of ten. -/
def ofDigits (digits : List Char) (power : Int) : List Char :=
  let point := power + 1
  let significant := trimmed digits
  if usesPower point then Decimal.scientific significant point
  else if point ≤ 0 then '0' :: '.' :: (List.replicate (-point).toNat '0' ++ significant)
  else digits.take point.toNat ++
    if significant.length > point.toNat then '.' :: significant.drop point.toNat else []

def characters : Binary64 → List Char
  | .nan => ['n', 'a', 'n']
  | .infinite negative => signed negative ['i', 'n', 'f']
  | .finite _ 0 _ => ['0']
  | .finite negative mantissa exponent =>
    let (digits, power) := significantDigits mantissa exponent
    signed negative (ofDigits digits power)
where
  signed (negative : Bool) (magnitude : List Char) : List Char :=
    if negative then '-' :: magnitude else magnitude

/-! ### Reading a rendering back -/

/-- A rendering as text: one digit, a point, the other digits, and the power of ten, which has a
sign only if it is negative. -/
def exponential (number : Decimal) : List Char :=
  let power := number.point - 1
  number.digits.take 1 ++ '.' :: number.digits.drop 1
    ++ 'e' :: ((if power < 0 then ['-'] else []) ++ Nat.toDigits 10 power.natAbs)

/-- The text in front of the first `mark` and the text behind it. -/
def cutAt? (mark : Char) (text : List Char) : Option (List Char × List Char) :=
  match text.span (· != mark) with
  | (front, _ :: back) => some (front, back)
  | (_, []) => none

/-- Whether a text starts with a minus, and what follows its sign, which may be left out. -/
def signAndRest : List Char → Bool × List Char
  | '-' :: text => (true, text)
  | '+' :: text => (false, text)
  | text => (false, text)

/-- The integer of 32 bits that a text denotes. -/
def integer? (text : List Char) : Option Int := do
  let (negative, digits) := signAndRest text
  guard (!digits.isEmpty && digits.all Char.isDigit)
  let magnitude : Int := Nat.ofDigitChars 10 digits 0
  let number := if negative then -magnitude else magnitude
  guard (-(1 <<< 31) ≤ number && number < 1 <<< 31)
  return number

/-! ### Writing -/

/-- Writing into a buffer. -/
abbrev Writing := StateT Buffer Option

/-- Write a piece of text, which has to fit. -/
def put (piece : List Char) : Writing Unit := fun buffer =>
  match buffer.write (String.ofList piece) with
  | (true, buffer) => some ((), buffer)
  | (false, _) => none

/-- The digits of `significantDigits` and the power of ten of the first one, as they are read from
the text of the rendering, which is written into a buffer of its own. -/
def readDigits? (mantissa : Nat) (exponent : Int) : Option (List Char × Int) := do
  let (_, scratch) ← put (exponential (rendering mantissa exponent)) .empty
  let (front, back) ← cutAt? 'e' scratch.text.toList
  let power ← integer? back
  let rendered := front.filter Char.isDigit
  let digits := rendered.take precision ++ List.replicate (precision - rendered.length) '0'
  if rendered[precision]?.any ('5' ≤ ·) then
    match increment digits with
    | (true, _) => return ('1' :: List.replicate (precision - 1) '0', power + 1)
    | (false, digits) => return (digits, power)
  else return (digits, power)

/-- Write the first digit, the others behind a point, and the power of ten with its sign. -/
def writeScientific (significant : List Char) (power : Int) : Writing Unit := do
  guard (1 ≤ significant.length)
  put (significant.take 1)
  if significant.length > 1 then
    put ['.']
    put (significant.drop 1)
  put ['e', if power < 0 then '-' else '+']
  put (Nat.toDigits 10 power.natAbs)

/-- Write digits of which the first one stands for a power of ten. Only digits that are there can be
taken. -/
def writeDigits (digits : List Char) (power : Int) : Writing Unit := do
  let point := power + 1
  let significant := trimmed digits
  if usesPower point then writeScientific significant power
  else if point ≤ 0 then
    put ['0', '.']
    put (List.replicate (-point).toNat '0')
    put significant
  else
    let split ← point.toNat?
    guard (split ≤ digits.length)
    put (digits.take split)
    if significant.length > split then
      put ['.']
      put (significant.drop split)

def render : Binary64 → Writing Unit
  | .nan => put ['n', 'a', 'n']
  | .infinite negative => do
    if negative then put ['-']
    put ['i', 'n', 'f']
  | .finite _ 0 _ => put ['0']
  | .finite negative mantissa exponent => do
    let (digits, power) ← readDigits? mantissa exponent
    if negative then put ['-']
    writeDigits digits power

end NumberText

/-- The text of a number. -/
def numberText (x : Float) : String :=
  String.ofList (NumberText.characters (.ofFloat x))

/-- The text of a number, written into a buffer. If that failed it would be the shortest text. -/
def formatNumber (x : Float) : String :=
  match NumberText.render (.ofFloat x) .empty with
  | some (_, buffer) => buffer.text
  | none => shortestText x

/-- Write a number to an output, by what writes texts to it. -/
def writeNumberTo {Out : Type} (write : Out → String → Option Out) (out : Out) (x : Float) :
    Option Out := do
  let (_, buffer) ← NumberText.render (.ofFloat x) .empty
  write out buffer.text

/-- The number's text at the end of `out`, which would be left as it is if writing failed. -/
def writeNumber (out : String) (x : Float) : String :=
  (writeNumberTo (fun out text => some (out ++ text)) out x).getD out

end SolidScript
