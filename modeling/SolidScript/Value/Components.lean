/-
Reading vectors of fixed length as points: two or three numbers, of which finite ones may be asked
for. A vector that is read this way is flattened.
-/

import SolidScript.Vector.Flat

namespace SolidScript.Value

/-- Work on all elements of a vector value; other values have none to give. -/
def readingElements {α : Type} (value : Value) (work : List Value → Option α) :
    Action (Option α) :=
  match value with
  | .vector address => Memory.reading address fun elements => return work elements.toList
  | _ => return none

/-- The two components of a vector of exactly two elements. -/
def pair? (value : Value) (component : Value → Option Float) : Action (Option (List Float)) :=
  value.readingElements fun
    | [x, y] => do return [← component x, ← component y]
    | _ => none

/-- The three components of a vector of exactly three numbers. -/
def triple? (value : Value) : Action (Option (List Float)) :=
  value.readingElements fun
    | [x, y, z] => do return [← x.number?, ← y.number?, ← z.number?]
    | _ => none

/-- Three components, the third one given where the vector has two. -/
def tripleOr? (value : Value) (third : Float) : Action (Option (List Float)) := do
  match ← value.pair? Value.number? with
  | some components => return some (components ++ [third])
  | none => value.triple?

end SolidScript.Value
