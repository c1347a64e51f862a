/-
Equality of values. Numbers compare as numbers, with `true` and `false` among them as one and zero;
texts and ranges compare by their content, functions by identity, and vectors element by element in
two walks that advance side by side. All else differs.
-/

import SolidScript.Vector.Walk

namespace SolidScript

/-- The number that a flag stands for beside numbers. -/
def flagNumber (flag : Bool) : Float := if flag then 1 else 0

namespace Value

/-- Equality of two values that are not both vectors. -/
def scalarEquals : Value → Value → Bool
  | .undefined, .undefined => true
  | .bool a, .bool b => a == b
  | .number a, .number b => a == b
  | .bool a, .number b => flagNumber a == b
  | .number a, .bool b => a == flagNumber b
  | .text a, .text b => a.content == b.content
  | .range a, .range b => a.identity == b.identity || a.content.equals b.content
  | .function a, .function b => a.identity == b.identity
  | _, _ => false

end Value

mutual

def Value.equals (memory : Memory) : Value → Value → Option Bool
  | .vector a, .vector b | .embedded a, .embedded b =>
    if memory.size a = memory.size b then memory.walk a |>.agree memory (memory.walk b)
    else some false
  | a, b => some (a.scalarEquals b)
partial_fixpoint

/-- Whether the elements that two walks still pass are equal pair by pair, as far as both go. -/
def Walk.agree (memory : Memory) (left right : Walk) : Option Bool := do
  match ← memory.next left with
  | (none, _) => return true
  | (some x, left) =>
    match ← memory.next right with
    | (none, _) => return true
    | (some y, right) =>
      if ← (x |>.equals memory y) then left |>.agree memory right else return false
partial_fixpoint

end

end SolidScript
