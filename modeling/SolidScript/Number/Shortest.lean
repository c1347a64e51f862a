/-
The fewest decimal digits that identify a double, written without a power of ten. The reals that
round to a double form an interval around it, whose ends belong to it when the mantissa is even.
Among the decimals of the least length in the interval the nearest is taken, and of two equally
near ones the larger.
-/

import SolidScript.Number.Binary64
import SolidScript.Number.Decimal

namespace SolidScript.Shortest

/-- A double and the ends of its rounding interval, all three counted in units of
`10 ^ exponent`. -/
structure Interval where
  lower : Nat
  value : Nat
  upper : Nat
  closed : Bool
  exponent : Int
deriving Repr

/-- The interval of `mantissa * 2 ^ exponent`, measured in quarters of its last place. Below a
power of two the neighbour is half as far away as above it. -/
def Interval.ofBinary (mantissa : Nat) (exponent : Int) : Interval :=
  let unit := Decimal.ofBinary 1 (exponent - 2)
  let narrow := mantissa = 1 <<< 52 ∧ Binary64.leastExponent < exponent
  { lower := (4 * mantissa - if narrow then 1 else 2) * unit.coefficient
    value := 4 * mantissa * unit.coefficient
    upper := (4 * mantissa + 2) * unit.coefficient
    closed := mantissa % 2 = 0
    exponent := unit.exponent }

def Interval.contains (interval : Interval) (number : Nat) : Bool :=
  if interval.closed then interval.lower ≤ number && number ≤ interval.upper
  else interval.lower < number && number < interval.upper

/-- The member of the interval among the two neighbours of the value on the grid of multiples of
`10 ^ dropped`; of two members the nearer, of two equally near ones the upper. -/
def Interval.onGrid (interval : Interval) (dropped : Nat) : Option Nat :=
  let unit := Nat.pow 10 dropped
  let below := interval.value / unit
  let lower := interval.contains (below * unit)
  let upper := interval.contains ((below + 1) * unit)
  if lower && (!upper || 2 * interval.value < (2 * below + 1) * unit) then some below
  else if upper then some (below + 1)
  else none

/-- Try the grids from the one of `10 ^ dropped` to the finest one, which holds the value. -/
def Interval.search (interval : Interval) : Nat → Decimal
  | 0 => ⟨interval.value, interval.exponent⟩
  | dropped + 1 =>
    match interval.onGrid (dropped + 1) with
    | some coefficient => ⟨coefficient, interval.exponent + (dropped + 1 : Nat)⟩
    | none => interval.search dropped

/-- The shortest decimal of `mantissa * 2 ^ exponent`. -/
def decimal (mantissa : Nat) (exponent : Int) : Decimal :=
  let interval := Interval.ofBinary mantissa exponent
  interval.search ((Nat.toDigits 10 interval.value).length - 1)

def characters : Binary64 → List Char
  | .nan => ['N', 'a', 'N']
  | .infinite negative => signed negative ['i', 'n', 'f']
  | .finite negative 0 _ => signed negative ['0']
  | .finite negative mantissa exponent =>
    let shortest := decimal mantissa exponent
    signed negative (Decimal.positional shortest.significant shortest.point)
where
  signed (negative : Bool) (magnitude : List Char) : List Char :=
    if negative then '-' :: magnitude else magnitude

end Shortest

/-- The shortest plain text that reads back as this double. -/
def shortestText (x : Float) : String :=
  String.ofList (Shortest.characters (.ofFloat x))

end SolidScript
