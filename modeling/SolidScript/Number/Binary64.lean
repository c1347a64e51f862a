/-
Numbers of the language are doubles. This module reads a double as what it denotes: no number,
an infinity, or a signed multiple of a power of two. Everything that prints, truncates or takes
remainders works on this exact reading and so needs natural numbers only. The way back rounds
to the nearest double, with ties to the even mantissa.
-/

namespace SolidScript

/-- What a double denotes. A zero has mantissa `0`, so `-0` and `0` differ in their sign only. -/
inductive Binary64 where
  | nan
  | infinite (negative : Bool)
  /-- The number `± mantissa * 2 ^ exponent`. -/
  | finite (negative : Bool) (mantissa : Nat) (exponent : Int)
deriving DecidableEq, Repr

namespace Binary64

/-- The exponent of the least positive double, which zero shares. -/
def leastExponent : Int := -1074

def ofFloat (x : Float) : Binary64 :=
  match x.toModel.unpack with
  | .notANumber => .nan
  | .infinity sign => .infinite (sign == .negative)
  | .zero sign => .finite (sign == .negative) 0 leastExponent
  | .finite sign mantissa exponent _ => .finite (sign == .negative) mantissa exponent

open Float.Model in
/-- The nearest double. A number that a double denotes exactly is not changed. -/
def toFloat : Binary64 → Float
  | .nan => .ofModel (.pack .notANumber)
  | .infinite negative => .ofModel (.pack (.infinity (sign negative)))
  | .finite negative 0 _ => .ofModel (.pack (.zero (sign negative)))
  | .finite negative (mantissa + 1) exponent =>
    .ofModel (.pack
      (UnpackedFloat.round Format.binary64 (sign negative) (mantissa + 1) exponent))
where
  sign (negative : Bool) : UnpackedFloat.Sign :=
    if negative then .negative else .positive

/-- The whole part of `mantissa * 2 ^ exponent`. -/
def wholePart (mantissa : Nat) (exponent : Int) : Nat :=
  if 0 ≤ exponent then mantissa <<< exponent.toNat else mantissa >>> (-exponent).toNat

end Binary64

/-! ### Order of doubles -/

/-- The order of two doubles; `none` when either is no number. The two zeros are equal. -/
def floatOrder (x y : Float) : Option Ordering :=
  if x < y then some .lt
  else if x == y then some .eq
  else if y < x then some .gt
  else none

end SolidScript
