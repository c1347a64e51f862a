/-
The pieces of a text, by number and one after another. Their number and the piece at a position are
those of the text cut as a whole. A reader gives one piece at a time as a text of its own. It keeps
nothing but the number of bytes it has passed, and cuts what is left of the text anew each time.
-/

import SolidScript.Memory
import SolidScript.Text.Grapheme

namespace SolidScript

/-- The number of pieces of a text. -/
def pieceCount (text : String) : Nat := (Grapheme.pieces text.toList).length

/-- The piece of a text at a position. A position that lies behind all bytes of the text lies behind
all its pieces, which then need not be counted. -/
def pieceAt? (text : String) (position : Nat) : Option String :=
  if text.utf8ByteSize ≤ position || pieceCount text ≤ position then none
  else (Grapheme.pieces text.toList)[position]?.map String.ofList

/-- What is left of a text behind so many bytes; `none` inside a character and behind the end. -/
def suffix? : Nat → List Char → Option (List Char)
  | 0, rest => some rest
  | _ + 1, [] => none
  | bytes + 1, c :: rest =>
    if c.utf8Size ≤ bytes + 1 then suffix? (bytes + 1 - c.utf8Size) rest else none

/-- A way through the pieces of a text, with so many bytes behind it. -/
structure PieceReader where
  text : String
  passed : Nat

namespace PieceReader

def ofText (text : String) : PieceReader := ⟨text, 0⟩

/-- The next piece as a new text, and the reader behind it. A reader at the end stays there. -/
def next (reader : PieceReader) : Action (Option Value × PieceReader) :=
  match (suffix? reader.passed reader.text.toList).bind Grapheme.next? with
  | none => return (none, reader)
  | some (piece, _) => do
    let piece := String.ofList piece
    let value ← Memory.newText piece
    return (some value, { reader with passed := reader.passed + piece.utf8ByteSize })

/-- Ask for a piece so many times. -/
def ask (reader : PieceReader) : Nat → Action (List (Option Value) × PieceReader)
  | 0 => return ([], reader)
  | count + 1 => do
    let (answer, reader) ← reader.next
    let (answers, reader) ← reader.ask count
    return (answer :: answers, reader)

end PieceReader

end SolidScript
