/-
Products. A number times a vector multiplies its elements. What a product of two vectors means is
decided by their first elements: two vectors of numbers have an inner product, and a first element
that is a vector makes its operand a matrix. Operands and rows are flattened as they are read, and
stay under reading until the product is there; a matrix that is no rectangle of numbers is reported
and gives the undefined value.
-/

import SolidScript.Value.Arithmetic
import SolidScript.Vector.Append

namespace SolidScript.Product

/-- What stands at one place of an operand: a number, or something else. -/
abbrev Entry := Option Float

/-- A row of a matrix that has been read; `none` where the element is no vector. -/
abbrev Row := Option (Array Entry)

/-- Begin to read all rows of a matrix. -/
def readRows : List Value → Action (List Row)
  | [] => return []
  | .vector row :: rows => do
    let entries ← Memory.slice row
    return some (entries.map Value.number?) :: (← readRows rows)
  | _ :: rows => return none :: (← readRows rows)

/-- Give all rows of a matrix back. -/
def closeRows : List Value → Action Unit
  | [] => return ()
  | .vector row :: rows => do
    Memory.unslice row
    closeRows rows
  | _ :: rows => closeRows rows

/-! ### Sums of products

The sums start at zero and run from left to right. -/

/-- The inner product of two lists of numbers, as far as both go. -/
def dot? (sum : Float) : List Entry → List Entry → Option Float
  | x :: xs, y :: ys =>
    match x, y with
    | some x, some y => dot? (sum + x * y) xs ys
    | _, _ => none
  | _, _ => some sum

/-- A list of numbers times one column of a matrix of `columns` columns, from the row with number
`row` on. -/
def columnSum (columns column row : Nat) (sum : Float) :
    List Entry → List Row → Except Warning Float
  | x :: xs, entries :: rows =>
    match entries.filter (·.size == columns) with
    | none => .error (.raggedRow row)
    | some entries =>
      match x with
      | none => .error (.vectorEntry row)
      | some x =>
        match entries[column]?.join with
        | none => .error (.matrixEntry row column)
        | some entry => columnSum columns column (row + 1) (sum + x * entry) xs rows
  | _, _ => .ok sum

/-- A list of numbers times each column of a matrix. The first row says how many there are. -/
def columnSums (vector : List Entry) (rows : List Row) : Except Warning (List Float) :=
  let columns := match rows with
    | some first :: _ => first.size
    | _ => 0
  (List.range columns).mapM fun column => columnSum columns column 0 0 vector rows

/-- One row of a matrix, the one with number `row`, times a list of numbers, from the entry with
number `column` on. -/
def rowSum (row column : Nat) (sum : Float) : List Entry → List Entry → Except Warning Float
  | entry :: entries, x :: xs =>
    match entry with
    | none => .error (.matrixEntry row column)
    | some entry =>
      match x with
      | none => .error (.vectorEntry column)
      | some x => rowSum row (column + 1) (sum + entry * x) entries xs
  | _, _ => .ok sum

/-- Each row of a matrix, from the one with number `row` on, times a list of numbers. -/
def rowSums (vector : List Entry) (row : Nat) : List Row → Except Warning (List Float)
  | [] => .ok []
  | entries :: rows =>
    match entries.filter (·.size == vector.length) with
    | none => .error (.raggedRow row)
    | some entries => do
      let first ← rowSum row 0 0 entries.toList vector
      return first :: (← rowSums vector (row + 1) rows)

/-! ### Products -/

/-- Warn, and give the undefined value. -/
def refuse (cause : Warning) : Action Value := do
  Memory.warn cause
  return .undefined

/-- The vector of the sums, or the undefined value with the warning that stands for them. -/
def ofSums : Except Warning (List Float) → Action Value
  | .ok sums => return .vector (← Memory.newVector (sums.map .number))
  | .error cause => refuse cause

def vectorTimesMatrix (vector matrix : List Value) : Action Value := do
  let rows ← readRows matrix
  let product ← ofSums (columnSums (vector.map Value.number?) rows)
  closeRows matrix
  return product

def matrixTimesVector (matrix vector : List Value) : Action Value := do
  let rows ← readRows matrix
  let product ← ofSums (rowSums (vector.map Value.number?) 0 rows)
  closeRows matrix
  return product

/-- Give up a product that cannot be completed, as a row of its matrix does not fit. -/
def abandon (product : Address) (row : Nat) : Action Value := do
  Memory.warn (.raggedRow row)
  modify (·.release [.vector product])
  return .undefined

/-- Append each row of a matrix, from the one with number `row` on, times another matrix to a
product. The row is being read until its product is appended. -/
def rowProducts (matrix : List Value) (product : Address) (row : Nat) :
    List Value → Action Value
  | [] => return .vector product
  | .vector entries :: rows => do
    if (← get).size entries = matrix.length then
      let product ← Memory.reading entries fun entries => do
        Memory.append product (← vectorTimesMatrix entries.toList matrix)
      rowProducts matrix product (row + 1) rows
    else abandon product row
  | _ :: _ => abandon product row

def matrixTimesMatrix (left right : List Value) : Action Value := do
  rowProducts right (← Memory.create) 0 left

/-- The product of two vectors with the given elements. -/
def ofElements (left right : List Value) : Action Value := do
  match left, right with
  | .number _ :: _, .number _ :: _ =>
    if left.length = right.length then
      let sum := dot? 0 (left.map Value.number?) (right.map Value.number?)
      return (sum.map .number).getD .undefined
    else return .undefined
  | .number _ :: _, .vector _ :: _ =>
    if left.length = right.length then vectorTimesMatrix left right
    else refuse (.dimensions left.length right.length)
  | .vector row :: _, .number _ :: _ =>
    let columns := (← get).size row
    if columns = right.length then matrixTimesVector left right
    else refuse (.dimensions columns right.length)
  | .vector row :: _, .vector _ :: _ =>
    let columns := (← get).size row
    if columns = right.length then matrixTimesMatrix left right
    else refuse (.dimensions columns right.length)
  | _, _ => return .undefined

/-- The product of two vectors. Both are read to the end. -/
def ofVectors (a b : Address) : Action Value :=
  Memory.reading a fun left =>
    Memory.reading b fun right => ofElements left.toList right.toList

end Product

/-- The product of two values. -/
def Value.times : Value → Value → Action Value
  | .number x, .number y => return .number (x * y)
  | .vector a, .number y => change (· * y) (.vector a)
  | .number x, .vector b => change (· * x) (.vector b)
  | .vector a, .vector b => Product.ofVectors a b
  | _, _ => return .undefined

end SolidScript
