/-
This file defines vectors and matrices of numbers as trees, and what products of them should be: all
are made of inner products. Where the items are not all numbers, or the rows not all of one length,
it lists what is wrong with the operands, in the order in which a product comes upon it.
-/

import Mathlib.LinearAlgebra.Matrix.Defs
import SolidScript.Memory
import SolidScript.Proofs.Tree

namespace SolidScript

/-! ### Inner products -/

/-- The inner product: the sum of the products of entries at one place, from left to right and
starting at zero. -/
def dot {n : Nat} (u w : Fin n → Float) : Float := Fin.foldl n (fun sum k => sum + u k * w k) 0

/-- The inner products of the rows of one matrix with the columns of another. -/
def rowsTimesColumns {m n p : Nat} (A : Matrix (Fin m) (Fin n) Float)
    (B : Matrix (Fin n) (Fin p) Float) : Matrix (Fin m) (Fin p) Float :=
  .of fun i j => dot (A.row i) (B.col j)

namespace Tree

def numbers {n : Nat} (u : Fin n → Float) : List Tree := List.ofFn fun k => number (u k)

def ofVector {n : Nat} (u : Fin n → Float) : Tree := vector (numbers u)

def rows {m n : Nat} (A : Matrix (Fin m) (Fin n) Float) : List Tree :=
  List.ofFn fun i => ofVector (A.row i)

def ofMatrix {m n : Nat} (A : Matrix (Fin m) (Fin n) Float) : Tree := vector (rows A)

/-! ### Operands that fit -/

def AreNumbers (items : List Tree) : Prop := ∀ item ∈ items, ∃ x, item = number x

/-- Numbers are the entries of a vector. -/
theorem exists_numbers {items : List Tree} (areNumbers : AreNumbers items) :
    ∃ u : Fin items.length → Float, numbers u = items := by
  have each : ∀ k : Fin items.length, ∃ x, items[k] = number x := fun k =>
    areNumbers _ (List.getElem_mem k.isLt)
  choose u found using each
  refine ⟨u, ?_⟩
  rw [numbers, show (fun k => number (u k)) = fun k : Fin items.length => items[k] from
    funext fun k => (found k).symm]
  exact List.ofFn_getElem

/-- The tree is a vector of so many items. -/
def IsRow (columns : Nat) (tree : Tree) : Prop :=
  ∃ entries, tree = vector entries ∧ entries.length = columns

/-- The tree is a vector of so many numbers. -/
def IsNumberRow (columns : Nat) (tree : Tree) : Prop :=
  ∃ entries, tree = vector entries ∧ entries.length = columns ∧ AreNumbers entries

structure VectorsFit (left right : List Tree) : Prop where
  length : left.length = right.length
  left : AreNumbers left
  right : AreNumbers right

structure MatrixVectorFit (matrix vector : List Tree) : Prop where
  rows : ∀ row ∈ matrix, IsNumberRow vector.length row
  entries : AreNumbers vector

structure VectorMatrixFit (columns : Nat) (vector matrix : List Tree) : Prop where
  height : vector.length = matrix.length
  rows : ∀ row ∈ matrix, IsNumberRow columns row
  entries : AreNumbers vector

/-- The rows of the first matrix are as long as the second one is high, those of the second one have
so many columns, and all entries are numbers. Without columns no entry is needed. -/
structure MatricesFit (columns : Nat) (first second : List Tree) : Prop where
  left : ∀ row ∈ first, IsRow second.length row
  right : ∀ row ∈ second, IsRow columns row
  numbers : columns ≠ 0 →
    (∀ row ∈ first, IsNumberRow second.length row) ∧ ∀ row ∈ second, IsNumberRow columns row

/-! ### Defects

These are lists of all that is wrong with operands, each defect with the warning that names it. -/

/-- The entries of a row, if there are so many. -/
def entries? (columns : Nat) : Tree → Option (List Tree)
  | vector entries => if entries.length = columns then some entries else none
  | _ => none

/-- The defect of a place where no number stands. -/
def missing (cause : Warning) (entry : Option Float) : List Warning :=
  if entry.isSome then [] else [cause]

/-- A row that meets a vector has the wrong shape, or else, column by column, it lacks a number or
the vector does. -/
def rowDefects (vector : List Tree) (place : Nat) (row : Tree) : List Warning :=
  match row.entries? vector.length with
  | none => [.raggedRow place]
  | some entries => (entries.zip vector).zipIdx.flatMap fun ((entry, x), column) =>
    missing (.matrixEntry place column) entry.number? ++ missing (.vectorEntry column) x.number?

/-- The defects of a matrix and of a vector on its right, row by row. -/
def rowMajorDefects (matrix vector : List Tree) : List Warning :=
  matrix.zipIdx.flatMap fun (row, place) => rowDefects vector place row

/-- A row that meets an entry of a vector has the wrong shape, or else the entry is no number or
none stands in the given column of the row. -/
def cellDefects (columns column place : Nat) (x row : Tree) : List Warning :=
  match row.entries? columns with
  | none => [.raggedRow place]
  | some entries => missing (.vectorEntry place) x.number? ++
    missing (.matrixEntry place column) (entries[column]?.bind number?)

/-- The defects of a matrix of so many columns and of a vector on its left, column by column. -/
def columnMajorDefects (columns : Nat) (vector matrix : List Tree) : List Warning :=
  (List.range columns).flatMap fun column =>
    (vector.zip matrix).zipIdx.flatMap fun ((x, row), place) =>
      cellDefects columns column place x row

/-- The defects of a matrix, given with its first row, and of a vector on its right. If already the
first row is not as long as the vector, nothing else is looked at. -/
def matrixVectorDefects (first rows vector : List Tree) : List Warning :=
  if first.length = vector.length then rowMajorDefects (.vector first :: rows) vector
  else [.dimensions first.length vector.length]

/-- The defects of a vector and of a matrix on its right, given with its first row. If the vector is
not as long as the matrix is high, nothing else is looked at. -/
def vectorMatrixDefects (vector first rows : List Tree) : List Warning :=
  if vector.length = rows.length + 1 then
    columnMajorDefects first.length vector (.vector first :: rows)
  else [.dimensions vector.length (rows.length + 1)]

/-! ### Outcomes -/

/-- A product is a vector of so many numbers if and only if the operands fit. Otherwise it is the
undefined value, with one warning, which names the first of the defects. -/
structure Judged (fits : Prop) (length : Nat) (defects : List Warning) (product : Tree)
    (warned : List Warning) : Prop where
  accepts : IsNumberRow length product ↔ fits
  silent : fits → warned = []
  refuses : ¬ fits → product = undefined ∧ ∃ cause, defects.head? = some cause ∧ warned = [cause]

/-- A product is a number if and only if the operands fit. Otherwise it is the undefined value.
There is no warning in either case. -/
structure JudgedSilently (fits : Prop) (product : Tree) (warned : List Warning) : Prop where
  accepts : (∃ x, product = number x) ↔ fits
  refuses : ¬ fits → product = undefined
  silent : warned = []

/-- A product is a vector of rows of numbers, all of one length, or else the undefined value. If the
operands do not fit, it is the undefined value, with a warning. -/
structure AllOrNothing (fits : Prop) (product : Tree) (warned : List Warning) : Prop where
  shape : product = undefined ∨
    ∃ columns rows, product = vector rows ∧ ∀ row ∈ rows, IsNumberRow columns row
  refuses : ¬ fits → product = undefined ∧ warned ≠ []

end Tree

end SolidScript
