/-
The text that code points denote. Numbers stand for their characters, vectors and ranges for what
their elements stand for, everything else for nothing. A range that is too long is refused with a
warning.
-/

import SolidScript.Vector.Walk
import SolidScript.Range.Cursor

namespace SolidScript

/-- The character of a positive number: the one whose code point is the whole part, if there is one
and it is not zero. -/
def characterOf? (x : Float) : Option Char :=
  match Binary64.ofFloat x with
  | .finite false mantissa exponent =>
    let code := Binary64.wholePart mantissa exponent
    if code ≠ 0 ∧ code.isValidChar then some (Char.ofNat code) else none
  | _ => none

namespace Characters

/-- Put the characters of a value that is no vector behind those found before, which are given
backwards. -/
def ofScalar (found : List Char) : Value → Action (List Char)
  | .number x => return (characterOf? x).toList ++ found
  | .range r => do
    if Range.expansionLimit ≤ r.content.count then
      Memory.warn (.tooManyValues r.content.count)
      return found
    else return (r.content.values.filterMap characterOf?).reverseAux found
  | _ => return found

end Characters

/-- Take in the elements that a walk still passes, with those of a vector in its place. -/
def Walk.characters (found : List Char) (walk : Walk) : Action (List Char) := do
  match ← Action.read (·.next walk) with
  | (none, _) => return found
  | (some (.vector inner), walk) => do
    let entered ← Action.read fun memory => some (memory.walk inner)
    let found ← entered |>.characters found
    walk |>.characters found
  | (some value, walk) => do
    let found ← Characters.ofScalar found value
    walk |>.characters found
partial_fixpoint

/-- The text of the code points that a value denotes. An embedded vector has none of its own. -/
def Value.characters (value : Value) : Action String := do
  let found ← match value with
    | .vector a => do
      let entered ← Action.read fun memory => some (memory.walk a)
      entered.characters []
    | value => Characters.ofScalar [] value
  return String.ofList found.reverse

end SolidScript
