/-
Cursors walk a range from its first value on. Each value is computed afresh from its position, so no
rounding error builds up on a long way. Cursors can be copied, and every copy goes its own way.
-/

import SolidScript.Range

namespace SolidScript

/-- Where a cursor stands: in front of all values, behind one of several, behind all. -/
inductive Progress where
  | fresh
  | running
  | exhausted
deriving DecidableEq, Repr

/-- A position in a range: the number of values given so far, and the value to be given next. -/
structure Cursor where
  range : Range
  value : Float
  progress : Progress
  total : UInt32
  given : UInt32

namespace Cursor

/-- A cursor is exhausted when all values are given. A range with step zero gives none. -/
def settled (cursor : Cursor) : Cursor :=
  if cursor.range.step == 0 || cursor.total ≤ cursor.given then
    { cursor with progress := .exhausted }
  else cursor

def ofRange (range : Range) : Cursor :=
  settled
    { range := range, value := range.first, progress := .fresh, total := .ofNat range.count,
      given := 0 }

def isExhausted (cursor : Cursor) : Bool := cursor.progress = .exhausted

/-- The number of values still to come. -/
def remaining (cursor : Cursor) : Nat :=
  if cursor.isExhausted then 0 else (cursor.total - cursor.given).toNat

/-- The least and the greatest number of values still to come. -/
def sizeHint (cursor : Cursor) : Nat × Option Nat := (cursor.remaining, some cursor.remaining)

/-- The number of values still to come, which is only told when it is certain. -/
def length? (cursor : Cursor) : Option Nat :=
  match cursor.sizeHint with
  | (least, some greatest) => if greatest = least then some least else none
  | (_, none) => none

/-- The value at a position behind the first. -/
def valueAt (range : Range) (position : UInt32) : Float :=
  range.first + range.step * position.toFloat

/-- The next value and the cursor behind it; an exhausted cursor gives nothing and stays. -/
def next (cursor : Cursor) : Option Float × Cursor :=
  if cursor.isExhausted then (none, cursor)
  else
    (some cursor.value,
      settled
        { cursor with
          value := valueAt cursor.range (cursor.given + 1)
          progress := .running
          given := cursor.given + 1 })

/-- Pass over `count` values and give the one after them. -/
def skip (cursor : Cursor) : Nat → Option Float × Cursor
  | 0 => cursor.next
  | count + 1 => if cursor.isExhausted then (none, cursor) else cursor.next.2.skip count

/-- Cursors are equal when they walk equal ranges and both are exhausted or both are about to give
equal values. -/
def equals (a b : Cursor) : Bool :=
  (match a.isExhausted, b.isExhausted with
    | true, true => true
    | false, false => a.value == b.value
    | _, _ => false)
    && a.range.equals b.range

/-- The next values, at most `limit` of them, and the cursor behind them. After the last one that
was wanted nothing more is asked for. -/
def take (cursor : Cursor) : Nat → List Float × Cursor
  | 0 => ([], cursor)
  | limit + 1 =>
    match cursor.next with
    | (none, cursor) => ([], cursor)
    | (some value, cursor) =>
      let (values, cursor) := cursor.take limit
      (value :: values, cursor)

end Cursor

/-- All values of a range, in order. -/
def Range.values (range : Range) : List Float :=
  let cursor := Cursor.ofRange range
  (cursor.take cursor.remaining).1

/-! ### Many cursors -/

/-- What can be done with the cursors at hand: start one, copy one, ask one for a value. -/
inductive CursorStep where
  | start (range : Range)
  | copy (position : Nat)
  | next (position : Nat)
  | skip (position count : Nat)

/-- What a step gives, if it asks for a value, and the cursors behind it. A new cursor comes last.
`none` when no cursor has the position. -/
def CursorStep.perform (cursors : List Cursor) :
    CursorStep → Option (Option Float × List Cursor)
  | start range => some (none, cursors ++ [.ofRange range])
  | copy position => do
    let cursor ← cursors[position]?
    return (none, cursors ++ [cursor])
  | next position => do
    let cursor ← cursors[position]?
    let (value, moved) := cursor.next
    return (value, cursors.set position moved)
  | skip position count => do
    let cursor ← cursors[position]?
    let (value, moved) := cursor.skip count
    return (value, cursors.set position moved)

end SolidScript
