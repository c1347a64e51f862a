/-
This file defines truth, equality and order of trees. They follow the rules of the language on
nested lists alone, without storages, placeholders and walks.
-/

import SolidScript.Proofs.Tree
import SolidScript.Value.Order

namespace SolidScript.Tree

def truth : Tree → Bool
  | bool flag => flag
  | number x => x != 0
  | text content => !content.isEmpty
  | vector items | embedded items => !items.isEmpty
  | range _ => true
  | undefined | function _ => false

/-! ### Equality -/

/-- Equality of two trees that are not both vectors. -/
def scalarEquals : Tree → Tree → Bool
  | undefined, undefined => true
  | bool a, bool b => a == b
  | number a, number b => a == b
  | bool a, number b => flagNumber a == b
  | number a, bool b => a == flagNumber b
  | text a, text b => a == b
  | range a, range b => a.equals b
  | function a, function b => a.identity == b.identity
  | _, _ => false

mutual

def equals : Tree → Tree → Bool
  | vector a, vector b => allEqual a b
  | embedded a, embedded b => allEqual a b
  | a, b => a.scalarEquals b

/-- Whether two lists have one length and equal items in all places. -/
def allEqual : List Tree → List Tree → Bool
  | [], [] => true
  | x :: xs, y :: ys => equals x y && allEqual xs ys
  | _, _ => false

end

/-! ### Order -/

/-- The order of two trees that are not both vectors. -/
def scalarOrder : Tree → Tree → Option Ordering
  | undefined, undefined => some .eq
  | bool a, bool b => some (compare a b)
  | number a, number b => floatOrder a b
  | bool a, number b => floatOrder (flagNumber a) b
  | number a, bool b => floatOrder a (flagNumber b)
  | text a, text b => some (compare a b)
  | range a, range b => a.order b
  | _, _ => none

mutual

/-- Whether one tree is less than another one. -/
def less : Tree → Tree → Bool
  | vector a, vector b => precedes a b
  | embedded a, embedded b => precedes a b
  | a, b => Relation.less.holds (a.scalarOrder b)
termination_by a b => sizeOf a + sizeOf b

/-- Whether one list comes before another one: by the first pair of which one item is less than the
other, or by ending first. -/
def precedes : List Tree → List Tree → Bool
  | x :: xs, y :: ys => if less x y then true else if less y x then false else precedes xs ys
  | xs, ys => xs.isEmpty && !ys.isEmpty
termination_by a b => sizeOf a + sizeOf b

end

/-- The relations of two lists of items. -/
def relateAll (relation : Relation) (a b : List Tree) : Bool :=
  match relation with
  | .less => precedes a b
  | .lessOrEqual => !precedes b a
  | .greater => precedes b a
  | .greaterOrEqual => !precedes a b

/-- Whether two trees stand in a relation. -/
def relate (relation : Relation) : Tree → Tree → Bool
  | vector a, vector b => relateAll relation a b
  | embedded a, embedded b => relateAll relation a b
  | a, b => relation.holds (a.scalarOrder b)

end SolidScript.Tree
