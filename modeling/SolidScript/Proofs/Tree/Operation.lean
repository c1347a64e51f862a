/-
This file defines what operations answer on trees, and with which warnings. It is the meaning of all
operations, free of memory.
-/

import SolidScript.Operation
import SolidScript.Proofs.Tree.Arithmetic
import SolidScript.Proofs.Tree.Comparison
import SolidScript.Proofs.Tree.Text

namespace SolidScript

namespace Tree

/-! ### Access by position -/

/-- What stands at a position, or the undefined value. -/
def elementAt (tree : Tree) (position : Nat) : Tree :=
  match tree with
  | text content => ((pieceAt? content position).map text).getD undefined
  | vector items | embedded items => items[position]?.getD undefined
  | range content =>
    match position with
    | 0 => number content.first
    | 1 => number content.step
    | 2 => number content.last
    | _ => undefined
  | _ => undefined

/-- The tree at an index that is itself a tree; the undefined value unless it is a number. -/
def index (tree : Tree) : Tree → Tree
  | number x => tree.elementAt (positionOf x)
  | _ => undefined

def indexAt (tree : Tree) (position : Nat) : Tree := tree.elementAt (min position farPosition)

/-- The components of a vector of exactly two items. -/
def pair? (component : Tree → Option Float) : Tree → Option (List Float)
  | vector [x, y] => do return [← component x, ← component y]
  | _ => none

/-- The components of a vector of exactly three numbers. -/
def triple? : Tree → Option (List Float)
  | vector [x, y, z] => do return [← x.number?, ← y.number?, ← z.number?]
  | _ => none

def tripleOr? (tree : Tree) (third : Float) : Option (List Float) :=
  match tree.pair? number? with
  | some components => some (components ++ [third])
  | none => tree.triple?

/-! ### Operators -/

def binary (operator : BinaryOperator) (a b : Tree) : Tree × List Warning :=
  match operator with
  | .add => (combine (· + ·) a b, [])
  | .subtract => (combine (· - ·) a b, [])
  | .multiply => a.times b
  | .divide => (a.divide b, [])
  | .modulo => (a.modulo b, [])
  | .equal => (bool (a.equals b), [])
  | .notEqual => (bool (!a.equals b), [])
  | .less => (bool (a.relate .less b), [])
  | .lessOrEqual => (bool (a.relate .lessOrEqual b), [])
  | .greater => (bool (a.relate .greater b), [])
  | .greaterOrEqual => (bool (a.relate .greaterOrEqual b), [])

def unary (operator : UnaryOperator) (tree : Tree) : Tree :=
  match operator with
  | .negate => change (- ·) tree
  | .not => bool (!tree.truth)

def comparisons (a b : Tree) : List Bool :=
  [a.equals b, !a.equals b, a.relate .less b, a.relate .lessOrEqual b, a.relate .greater b,
    a.relate .greaterOrEqual b]

end Tree

/-- The operation on other operands. -/
def Operation.map {α β : Type} (image : α → β) (operation : Operation α) : Operation β :=
  Id.run (operation.mapM fun operand => pure (image operand))

/-- What an operation answers on trees, and the warnings that it gives. -/
def Operation.evaluate : Operation Tree → Answer Tree × List Warning
  | binary operator a b =>
    let (result, warned) := Tree.binary operator a b
    (.value result, warned)
  | unary operator a => (.value (Tree.unary operator a), [])
  | compare a b => (.flags (Tree.comparisons a b), [])
  | truth a => (.flag a.truth, [])
  | index a position => (.value (a.index position), [])
  | indexAt a position => (.value (a.indexAt position), [])
  | pair a finite =>
    (.components (a.pair? (if finite then Tree.finiteNumber? else Tree.number?)), [])
  | triple a => (.components a.triple?, [])
  | tripleOr a third => (.components (a.tripleOr? third), [])
  | characters a =>
    let (text, warned) := a.characters
    (.text text, warned)
  | .show a => (.text a.shown, [])
  | echo a => (.text a.echoed, [])
  | write a => (.text a.written, [])
  | inspect a => (.text a.inspected, [])

end SolidScript
