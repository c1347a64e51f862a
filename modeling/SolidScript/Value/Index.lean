/-
Access by position: to the pieces of a text, the elements of a vector, the components of a range.
Positions have 32 bits. A number that is no position is taken for the last one, which lies beyond
the end of everything that is read this way in practice.
-/

import SolidScript.Vector.Flat
import SolidScript.Text.Pieces

namespace SolidScript

/-- The position that stands for all numbers that are none. -/
def farPosition : Nat := (1 <<< 32) - 1

/-- The position that a number denotes: its whole part, if it lies above `-1` and below `2 ^ 32`. -/
def positionOf (x : Float) : Nat :=
  match Binary64.ofFloat x with
  | .finite negative mantissa exponent =>
    let whole := Binary64.wholePart mantissa exponent
    if negative && whole != 0 then farPosition else min whole farPosition
  | _ => farPosition

namespace Value

/-- What stands at a position, or the undefined value. Reading a vector flattens it. -/
def elementAt (value : Value) (position : Nat) : Action Value :=
  match value with
  | .text t =>
    match pieceAt? t.content position with
    | some piece => Memory.newText piece
    | none => return .undefined
  | .vector address | .embedded address => Memory.element address position
  | .range r =>
    match position with
    | 0 => return .number r.content.first
    | 1 => return .number r.content.step
    | 2 => return .number r.content.last
    | _ => return .undefined
  | _ => return .undefined

/-- The value at an index that is itself a value; the undefined value unless it is a number. -/
def index (value : Value) : Value → Action Value
  | .number x => value.elementAt (positionOf x)
  | _ => return .undefined

/-- The value at an index that is a natural number. -/
def indexAt (value : Value) (position : Nat) : Action Value :=
  value.elementAt (min position farPosition)

end Value

end SolidScript
