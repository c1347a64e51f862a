/-
What can be asked of values: the operators, and the ways to look at a value. An operation borrows
its operands; a value that it answers belongs to whoever asked.
-/

import SolidScript.Operator
import SolidScript.Value.Characters
import SolidScript.Value.Components
import SolidScript.Value.Display
import SolidScript.Value.Index

namespace SolidScript

/-- An operation on operands of any sort. -/
inductive Operation (α : Type) where
  | binary (operator : BinaryOperator) (a b : α)
  | unary (operator : UnaryOperator) (a : α)
  /-- The six comparisons, in the order of the operators. -/
  | compare (a b : α)
  | truth (a : α)
  | index (a position : α)
  | indexAt (a : α) (position : Nat)
  /-- Two components, finite ones if that is asked for. -/
  | pair (a : α) (finite : Bool)
  | triple (a : α)
  | tripleOr (a : α) (third : Float)
  | characters (a : α)
  | show (a : α)
  | echo (a : α)
  | write (a : α)
  | inspect (a : α)

/-- What is answered, with values of any sort. -/
inductive Answer (α : Type) where
  | nothing
  | flag (flag : Bool)
  | flags (flags : List Bool)
  | size (size : Nat) (isEmpty : Bool)
  | components (components : Option (List Float))
  | text (text : String)
  | value (value : α)
  | values (values : List α)

namespace Operation

/-- The operands, in order. -/
def operands {α : Type} : Operation α → List α
  | binary _ a b | compare a b | index a b => [a, b]
  | unary _ a | truth a | indexAt a _ | pair a _ | triple a | tripleOr a _ | characters a => [a]
  | .show a | echo a | write a | inspect a => [a]

/-- The operation on other operands, which may turn out to be missing. -/
def mapM {α β : Type} {m : Type → Type} [Monad m] (find : α → m β) :
    Operation α → m (Operation β)
  | binary operator a b => return binary operator (← find a) (← find b)
  | unary operator a => return unary operator (← find a)
  | compare a b => return compare (← find a) (← find b)
  | truth a => return truth (← find a)
  | index a b => return index (← find a) (← find b)
  | indexAt a position => return indexAt (← find a) position
  | pair a finite => return pair (← find a) finite
  | triple a => return triple (← find a)
  | tripleOr a third => return tripleOr (← find a) third
  | characters a => return characters (← find a)
  | .show a => return .show (← find a)
  | echo a => return echo (← find a)
  | write a => return write (← find a)
  | inspect a => return inspect (← find a)

/-- The six comparisons of two values. -/
def comparisons (a b : Value) (memory : Memory) : Option (List Bool) := do
  let equal ← a.equals memory b
  let less ← a.relate memory .less b
  let lessOrEqual ← a.relate memory .lessOrEqual b
  let greater ← a.relate memory .greater b
  let greaterOrEqual ← a.relate memory .greaterOrEqual b
  return [equal, !equal, less, lessOrEqual, greater, greaterOrEqual]

def perform : Operation Value → Action (Answer Value)
  | binary operator a b => .value <$> operator.evaluate a b
  | unary operator a => .value <$> operator.evaluate a
  | compare a b => .flags <$> Action.read (comparisons a b)
  | truth a => .flag <$> Action.read fun memory => some (a.truth memory)
  | index a position => .value <$> a.index position
  | indexAt a position => .value <$> a.indexAt position
  | pair a finite =>
    .components <$> a.pair? (if finite then Value.finiteNumber? else Value.number?)
  | triple a => .components <$> a.triple?
  | tripleOr a third => .components <$> a.tripleOr? third
  | characters a => .text <$> a.characters
  | .show a => .text <$> Action.read a.shown
  | echo a => .text <$> Action.read a.echoed
  | write a => .text <$> Action.read a.written
  | inspect a => .text <$> Action.read a.inspected

end Operation

end SolidScript
