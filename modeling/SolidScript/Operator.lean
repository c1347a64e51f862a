/-
The operators of the language. They never fail: operands that an operator has no meaning for give
the undefined value, and comparisons give a flag.
-/

import SolidScript.Value.Order
import SolidScript.Value.Product

namespace SolidScript

inductive BinaryOperator where
  | add
  | subtract
  | multiply
  | divide
  | modulo
  | equal
  | notEqual
  | less
  | lessOrEqual
  | greater
  | greaterOrEqual
deriving DecidableEq, Repr

inductive UnaryOperator where
  | negate
  | not
deriving DecidableEq, Repr

namespace BinaryOperator

def all : List BinaryOperator :=
  [add, subtract, multiply, divide, modulo, equal, notEqual, less, lessOrEqual, greater,
    greaterOrEqual]

/-- How an operator is written. -/
def symbol : BinaryOperator → String
  | add => "+"
  | subtract => "-"
  | multiply => "*"
  | divide => "/"
  | modulo => "%"
  | equal => "=="
  | notEqual => "!="
  | less => "<"
  | lessOrEqual => "<="
  | greater => ">"
  | greaterOrEqual => ">="

/-- The operator that is written so. -/
def ofSymbol? (symbol : String) : Option BinaryOperator :=
  all.find? (·.symbol == symbol)

/-- Whether the result is always a flag. -/
def isComparison : BinaryOperator → Bool
  | add | subtract | multiply | divide | modulo => false
  | equal | notEqual | less | lessOrEqual | greater | greaterOrEqual => true

/-- The answer of a comparison as a value. -/
def comparison (look : Memory → Option Bool) : Action Value := do
  return .bool (← Action.read look)

def evaluate (operator : BinaryOperator) (a b : Value) : Action Value :=
  match operator with
  | add => a.plus b
  | subtract => a.minus b
  | multiply => a.times b
  | divide => a.divide b
  | modulo => a.modulo b
  | equal => comparison fun memory => a.equals memory b
  | notEqual => comparison fun memory => (a.equals memory b).map (!·)
  | less => comparison fun memory => a.relate memory .less b
  | lessOrEqual => comparison fun memory => a.relate memory .lessOrEqual b
  | greater => comparison fun memory => a.relate memory .greater b
  | greaterOrEqual => comparison fun memory => a.relate memory .greaterOrEqual b

end BinaryOperator

namespace UnaryOperator

def all : List UnaryOperator := [negate, not]

/-- How an operator is written. -/
def symbol : UnaryOperator → String
  | negate => "-"
  | not => "!"

/-- The operator that is written so. -/
def ofSymbol? (symbol : String) : Option UnaryOperator :=
  all.find? (·.symbol == symbol)

def evaluate (operator : UnaryOperator) (value : Value) : Action Value :=
  match operator with
  | negate => value.negate
  | not => return .bool (!value.truth (← get))

end UnaryOperator

end SolidScript
