/-
Ranges: arithmetic progressions given by their first value, their step and a bound. A range never
holds its values. Their number is computed in closed form, also where a bound is infinite, the step
is zero or a component is no number, and ranges are ordered by it.
-/

import SolidScript.Number.Binary64
import SolidScript.Number.Text

namespace SolidScript

structure Range where
  first : Float
  step : Float
  last : Float

namespace Range

/-- The greatest number of values a range can have; a count that would be larger stops here. -/
def countLimit : Nat := (1 <<< 32) - 1

/-- Fewest values at which a range is too long to be expanded. -/
def expansionLimit : Nat := 10000

/-- The number of values that `steps` whole steps give. -/
def countOfSteps (steps : Nat) : Nat := min (steps + 1) countLimit

/-- The whole steps in the quotient of the way and the step. The quotient is first raised by one
unit in its last place, so that one that rounding left just below a whole number counts in full. -/
def countOfQuotient : Binary64 → Nat
  | .finite false mantissa exponent => countOfSteps (Binary64.wholePart (mantissa + 1) exponent)
  | .infinite false => countLimit
  | _ => countOfSteps 0

/-- Whether the step leads away from the bound. -/
def pointsAway (range : Range) : Bool :=
  if range.step < 0 then range.first < range.last else range.last < range.first

/-- The number of values of a range. -/
def count (range : Range) : Nat :=
  if range.first.isNaN || range.step.isNaN || range.last.isNaN then 0
  else if range.pointsAway then 0
  else if range.first == range.last || range.step.isInf then 1
  else if range.first.isInf || range.last.isInf || range.step == 0 then countLimit
  else countOfQuotient (.ofFloat ((range.last - range.first) / range.step))

def isEmpty (range : Range) : Bool := range.count = 0

/-- Empty ranges are equal to each other and less than all others, which are ordered by first value,
step and number of values. -/
def order (a b : Range) : Option Ordering :=
  match a.count, b.count with
  | 0, 0 => some .eq
  | 0, _ + 1 => some .lt
  | _ + 1, 0 => some .gt
  | m + 1, n + 1 =>
    match floatOrder a.first b.first with
    | some .eq =>
      match floatOrder a.step b.step with
      | some .eq => some (compare m n)
      | order => order
    | order => order

/-- Equality of ranges: equal counts from equal starts, or nothing on either side. -/
def equals (a b : Range) : Bool := a.order b == some .eq

/-- The text of a range. -/
def text (range : Range) : String :=
  "[" ++ numberText range.first ++ " : " ++ numberText range.step ++ " : "
    ++ numberText range.last ++ "]"

end Range

end SolidScript
