/-
The order of values. Numbers, texts and ranges are ordered among themselves, flags as the numbers
zero and one. Vectors are ordered by the first pair of elements of which one is less than the other,
then by length; a pair that has no order is passed over as a tie. Values of different kinds have no
order, and neither have functions.
-/

import SolidScript.Value.Equality

namespace SolidScript

namespace Value

/-- The order of two values that are not both vectors. -/
def scalarOrder : Value → Value → Option Ordering
  | .undefined, .undefined => some .eq
  | .bool a, .bool b => some (compare a b)
  | .number a, .number b => floatOrder a b
  | .bool a, .number b => floatOrder (flagNumber a) b
  | .number a, .bool b => floatOrder a (flagNumber b)
  | .text a, .text b => some (compare a.content b.content)
  | .range a, .range b => a.content.order b.content
  | _, _ => none

end Value

/-- The four relations of the order. -/
inductive Relation where
  | less
  | lessOrEqual
  | greater
  | greaterOrEqual
deriving DecidableEq, Repr

/-- Whether a relation holds of two things that compare as given, if they compare at all. -/
def Relation.holds : Relation → Option Ordering → Bool
  | less, order => order == some .lt
  | lessOrEqual, order => order == some .lt || order == some .eq
  | greater, order => order == some .gt
  | greaterOrEqual, order => order == some .gt || order == some .eq

mutual

/-- Whether one value is less than another one. -/
def Value.less (memory : Memory) : Value → Value → Option Bool
  | .vector a, .vector b | .embedded a, .embedded b =>
    memory.walk a |>.precedes memory (memory.walk b)
  | a, b => some (Relation.less.holds (a.scalarOrder b))
partial_fixpoint

/-- Whether what one walk still passes comes before what another one does: by the first pair of
which one element is less than the other, or by ending first. -/
def Walk.precedes (memory : Memory) (left right : Walk) : Option Bool := do
  let (x, left) ← memory.next left
  let (y, right) ← memory.next right
  match x, y with
  | some x, some y =>
    if ← (x |>.less memory y) then return true
    else if ← (y |>.less memory x) then return false
    else left |>.precedes memory right
  | x, y => return x.isNone && y.isSome
partial_fixpoint

end

namespace Value

/-- The relations between vectors come from `Walk.precedes` alone; those that are not strict are
what is left when the strict one does not hold the other way round. -/
def relateVectors (memory : Memory) (relation : Relation) (a b : Address) : Option Bool :=
  match relation with
  | .less => (memory.walk a).precedes memory (memory.walk b)
  | .lessOrEqual => ((memory.walk b).precedes memory (memory.walk a)).map (!·)
  | .greater => (memory.walk b).precedes memory (memory.walk a)
  | .greaterOrEqual => ((memory.walk a).precedes memory (memory.walk b)).map (!·)

/-- Whether two values stand in a relation. -/
def relate (memory : Memory) (relation : Relation) : Value → Value → Option Bool
  | .vector a, .vector b | .embedded a, .embedded b => relateVectors memory relation a b
  | a, b => some (relation.holds (a.scalarOrder b))

end Value

end SolidScript
