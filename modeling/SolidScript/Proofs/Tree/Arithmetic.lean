/-
This file defines arithmetic on trees. Products give the warnings that they cause beside the result;
their sums are those that matrices and vectors that were read are given to.
-/

import SolidScript.Proofs.Tree
import SolidScript.Value.Product

namespace SolidScript.Tree

/-! ### Element by element -/

mutual

/-- Change every number of a tree. -/
def change (image : Float → Float) : Tree → Tree
  | number x => number (image x)
  | vector items => vector (changeAll image items)
  | _ => undefined

def changeAll (image : Float → Float) : List Tree → List Tree
  | [] => []
  | item :: items => change image item :: changeAll image items

end

mutual

/-- Combine two trees number by number. -/
def combine (operate : Float → Float → Float) : Tree → Tree → Tree
  | number x, number y => number (operate x y)
  | vector a, vector b => vector (combineAll operate a b)
  | _, _ => undefined

/-- Combine the items of two lists, as far as both go. -/
def combineAll (operate : Float → Float → Float) : List Tree → List Tree → List Tree
  | x :: xs, y :: ys => combine operate x y :: combineAll operate xs ys
  | _, _ => []

end

def divide : Tree → Tree → Tree
  | number x, number y => number (x / y)
  | vector a, number y => change (· / y) (vector a)
  | number x, vector b => change (x / ·) (vector b)
  | _, _ => undefined

def modulo : Tree → Tree → Tree
  | number x, number y => number (floatRemainder x y)
  | _, _ => undefined

/-! ### Products -/

open Product

/-- The entries of a row of a matrix. -/
def row : Tree → Row
  | vector entries => some (entries.map number?).toArray
  | _ => none

/-- The undefined value, with a warning. -/
def refuse (cause : Warning) : Tree × List Warning := (undefined, [cause])

def ofSums : Except Warning (List Float) → Tree × List Warning
  | .ok sums => (vector (sums.map number), [])
  | .error cause => refuse cause

def vectorTimesMatrix (vector matrix : List Tree) : Tree × List Warning :=
  ofSums (columnSums (vector.map number?) (matrix.map row))

def matrixTimesVector (matrix vector : List Tree) : Tree × List Warning :=
  ofSums (rowSums (vector.map number?) 0 (matrix.map row))

/-- The products of rows, from the one with number `place` on, with a matrix, behind those found
before. -/
def rowProducts (matrix found : List Tree) (place : Nat) : List Tree → Tree × List Warning
  | [] => (vector found, [])
  | vector entries :: rows =>
    if entries.length = matrix.length then
      let (image, warned) := vectorTimesMatrix entries matrix
      let (product, further) := rowProducts matrix (found ++ [image]) (place + 1) rows
      (product, warned ++ further)
    else refuse (.raggedRow place)
  | _ :: _ => refuse (.raggedRow place)

/-- The product of two lists of items. -/
def product (left right : List Tree) : Tree × List Warning :=
  match left, right with
  | number _ :: _, number _ :: _ =>
    if left.length = right.length then
      (((dot? 0 (left.map number?) (right.map number?)).map number).getD undefined, [])
    else (undefined, [])
  | number _ :: _, vector _ :: _ =>
    if left.length = right.length then vectorTimesMatrix left right
    else refuse (.dimensions left.length right.length)
  | vector first :: _, number _ :: _ =>
    if first.length = right.length then matrixTimesVector left right
    else refuse (.dimensions first.length right.length)
  | vector first :: _, vector _ :: _ =>
    if first.length = right.length then rowProducts right [] 0 left
    else refuse (.dimensions first.length right.length)
  | _, _ => (undefined, [])

def times : Tree → Tree → Tree × List Warning
  | number x, number y => (number (x * y), [])
  | vector a, number y => (change (· * y) (vector a), [])
  | number x, vector b => (change (· * x) (vector b), [])
  | vector a, vector b => product a b
  | _, _ => (undefined, [])

end SolidScript.Tree
