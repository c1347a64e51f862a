/-
Element-wise arithmetic. Two numbers give a number, two vectors the vector of what their elements
give, as long as the shorter one, and everything else gives the undefined value. Operations on one
operand, or on a vector and a number, change each number of a vector. Operands are walked and never
flattened; the results are new vectors without placeholders.
-/

import SolidScript.Value.Equality
import SolidScript.Vector.Append
import SolidScript.Number.Remainder

namespace SolidScript

namespace Walk

/-- The next element of a walk, and what is left of the walk after it. -/
def step (walk : Walk) : Action (Option Value × Walk) := Action.read (·.next walk)

/-- A walk through all elements of a vector. -/
def start (address : Address) : Action Walk := Action.read fun memory => some (memory.walk address)

end Walk

mutual

/-- Change every number of a value. -/
def Value.change (image : Float → Float) : Value → Action Value
  | .number x => return .number (image x)
  | .vector a => do
    let walk ← Walk.start a
    let result ← Memory.create
    return .vector (← walk |>.changeAll image result)
  | _ => return .undefined
partial_fixpoint

/-- Append the changed elements of a walk to a vector. -/
def Walk.changeAll (image : Float → Float) (result : Address) (walk : Walk) : Action Address := do
  match ← walk.step with
  | (none, _) => return result
  | (some x, walk) => do
    let changed ← x |>.change image
    let result ← Memory.append result changed
    walk |>.changeAll image result
partial_fixpoint

end

mutual

/-- Combine two values number by number. -/
def Value.combine (operate : Float → Float → Float) : Value → Value → Action Value
  | .number x, .number y => return .number (operate x y)
  | .vector a, .vector b => do
    let left ← Walk.start a
    let right ← Walk.start b
    let result ← Memory.create
    return .vector (← left |>.combineAll operate result right)
  | _, _ => return .undefined
partial_fixpoint

/-- Append the combined elements of two walks to a vector, as far as both go. -/
def Walk.combineAll (operate : Float → Float → Float) (result : Address) (left right : Walk) :
    Action Address := do
  match ← left.step with
  | (none, _) => return result
  | (some x, left) =>
    match ← right.step with
    | (none, _) => return result
    | (some y, right) => do
      let combined ← x |>.combine operate y
      let result ← Memory.append result combined
      left |>.combineAll operate result right
partial_fixpoint

end

namespace Value

def plus (a b : Value) : Action Value := combine (· + ·) a b

def minus (a b : Value) : Action Value := combine (· - ·) a b

def negate (value : Value) : Action Value := change (- ·) value

/-- The quotient of two numbers, of the elements of a vector and a number, or of a number and the
elements of a vector. -/
def divide : Value → Value → Action Value
  | .number x, .number y => return .number (x / y)
  | .vector a, .number y => change (· / y) (.vector a)
  | .number x, .vector b => change (x / ·) (.vector b)
  | _, _ => return .undefined

/-- The remainder of two numbers, with the sign of the first one. -/
def modulo : Value → Value → Action Value
  | .number x, .number y => return .number (floatRemainder x y)
  | _, _ => return .undefined

end Value

end SolidScript
