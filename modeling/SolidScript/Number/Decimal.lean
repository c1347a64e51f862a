/-
Decimal readings of exact binary numbers. Every double has a finite decimal expansion, so rounding
it to a number of significant digits is a matter of dropping digits of one natural number:
`ofBinary` gives the expansion and `rendered` drops digits, with a half going to the even digit.
-/

namespace SolidScript

/-- The number `coefficient * 10 ^ exponent`. -/
structure Decimal where
  coefficient : Nat
  exponent : Int
deriving DecidableEq, Repr

namespace Decimal

/-- The exact decimal form of `mantissa * 2 ^ exponent`, for a negative exponent by
`2 ^ (-n) = 5 ^ n * 10 ^ (-n)`. -/
def ofBinary (mantissa : Nat) (exponent : Int) : Decimal :=
  if 0 ≤ exponent then ⟨mantissa <<< exponent.toNat, 0⟩
  else ⟨mantissa * Nat.pow 5 (-exponent).toNat, exponent⟩

/-- The digits of the coefficient, most significant first. -/
def digits (number : Decimal) : List Char :=
  Nat.toDigits 10 number.coefficient

/-- The position of the decimal point, counted from in front of the first digit. -/
def point (number : Decimal) : Int :=
  number.exponent + number.digits.length

/-- The digits without the zeros at their end. -/
def significant (number : Decimal) : List Char :=
  (number.digits.reverse.dropWhile (· == '0')).reverse

/-- The quotient rounded to the nearest natural number; a half goes to the even one. -/
def nearestEven (dividend divisor : Nat) : Nat :=
  let below := dividend / divisor
  match compare (2 * (dividend % divisor)) divisor with
  | .lt => below
  | .eq => below + below % 2
  | .gt => below + 1

/-- The nearest decimal with exactly `places` digits; a half goes to the even last digit. Where
rounding up carries into a further digit, the last one, a zero, is dropped. -/
def rendered (places : Nat) (number : Decimal) : Decimal :=
  let length := number.digits.length
  if length ≤ places then
    ⟨number.coefficient * Nat.pow 10 (places - length),
      number.exponent - ((places - length : Nat) : Int)⟩
  else
    let dropped := length - places
    let kept := nearestEven number.coefficient (Nat.pow 10 dropped)
    if kept = Nat.pow 10 places then ⟨Nat.pow 10 (places - 1), number.exponent + dropped + 1⟩
    else ⟨kept, number.exponent + dropped⟩

/-! ### Layout -/

/-- The digits with the point written among them, after them or in front of them. -/
def positional (significant : List Char) (point : Int) : List Char :=
  if point ≤ 0 then '0' :: '.' :: (List.replicate (-point).toNat '0' ++ significant)
  else if significant.length ≤ point.toNat then
    significant ++ List.replicate (point.toNat - significant.length) '0'
  else significant.take point.toNat ++ '.' :: significant.drop point.toNat

/-- One digit before the point, and the power of ten with its sign always written. -/
def scientific (significant : List Char) (point : Int) : List Char :=
  let power := point - 1
  significant.take 1
    ++ (if significant.length > 1 then '.' :: significant.drop 1 else [])
    ++ 'e' :: (if power < 0 then '-' else '+') :: Nat.toDigits 10 power.natAbs

end Decimal

end SolidScript
