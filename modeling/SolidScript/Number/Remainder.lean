/-
The floating-point remainder: what is left of the dividend after the greatest whole multiple of the
divisor has been taken off its magnitude. It is exact and has the sign of the dividend.
-/

import SolidScript.Number.Binary64

namespace SolidScript

namespace Binary64

/-- Both magnitudes are brought to the smaller exponent, where the remainder is one of naturals.
Only a finite number has a remainder, and only by a nonzero divisor. -/
def remainder : Binary64 → Binary64 → Binary64
  | .finite _ _ _, .finite _ 0 _ => .nan
  | .finite negative mantissa exponent, .finite _ divisor divisorExponent =>
    let common := min exponent divisorExponent
    .finite negative
      ((mantissa <<< (exponent - common).toNat) %
        (divisor <<< (divisorExponent - common).toNat))
      common
  | .finite negative mantissa exponent, .infinite _ => .finite negative mantissa exponent
  | _, _ => .nan

end Binary64

def floatRemainder (x y : Float) : Float :=
  (Binary64.remainder (.ofFloat x) (.ofFloat y)).toFloat

end SolidScript
