/-
This file defines the texts of trees: the three that show a tree, the one that names the kind of
every part, and the text of the code points that a tree denotes.
-/

import SolidScript.Number.Shortest
import SolidScript.Proofs.Tree
import SolidScript.Text.Escaped
import SolidScript.Text.Quoted
import SolidScript.Value.Characters

namespace SolidScript.Tree

/-! ### Texts that show a tree -/

/-- How trees are written: what stands around the items of a vector and of an embedded one, and
everything else. -/
structure Style where
  opening : String
  embeddedOpening : String
  closing : String
  scalar : Tree → String

mutual

/-- The text of a tree, with commas between the items of a vector. -/
def write (style : Style) : Tree → String
  | vector items => style.opening ++ ", ".intercalate (writeAll style items) ++ style.closing
  | embedded items =>
    style.embeddedOpening ++ ", ".intercalate (writeAll style items) ++ style.closing
  | tree => style.scalar tree

def writeAll (style : Style) : List Tree → List String
  | [] => []
  | item :: items => write style item :: writeAll style items

end

def shownStyle : Style where
  opening := "["
  embeddedOpening := "["
  closing := "]"
  scalar
    | undefined => "undef"
    | bool flag => if flag then "true" else "false"
    | number x => numberText x
    | text content => "\"" ++ content ++ "\""
    | range content => content.text
    | function closure => closure.content.text
    | vector _ | embedded _ => ""

def inspectedStyle : Style where
  opening := "Vector(["
  embeddedOpening := "Embedded(["
  closing := "])"
  scalar
    | undefined => "Undefined"
    | bool flag => if flag then "Bool(true)" else "Bool(false)"
    | number x => "Number(" ++ shortestText x ++ ")"
    | text content => "String(" ++ escapedText content ++ ")"
    | range content => "Range(" ++ content.text ++ ")"
    | function closure => "Function(" ++ closure.content.text ++ ")"
    | vector _ | embedded _ => ""

/-- The text of a tree with a text in plain quotes. -/
def echoed (tree : Tree) : String := write shownStyle tree

/-- The text of a tree with a text as it is. -/
def shown : Tree → String
  | text content => content
  | tree => tree.echoed

/-- The text of a tree with a text in quotes and escaped. -/
def written : Tree → String
  | text content => quotedText content
  | tree => tree.echoed

/-- The text of a tree for inspection. -/
def inspected (tree : Tree) : String := write inspectedStyle tree

/-- The text of the items of a vector for inspection. -/
def inspectedItems (items : List Tree) : String :=
  "[" ++ ", ".intercalate (writeAll inspectedStyle items) ++ "]"

/-! ### Code points -/

mutual

/-- The characters of a tree, with the warnings of ranges that are too long. -/
def codes : Tree → List Char × List Warning
  | number x => ((characterOf? x).toList, [])
  | range content =>
    if Range.expansionLimit ≤ content.count then ([], [.tooManyValues content.count])
    else (content.values.filterMap characterOf?, [])
  | vector items => codesOfAll items
  | _ => ([], [])

def codesOfAll : List Tree → List Char × List Warning
  | [] => ([], [])
  | item :: items =>
    let (first, warned) := codes item
    let (rest, further) := codesOfAll items
    (first ++ rest, warned ++ further)

end

/-- The text of the code points that a tree denotes. -/
def characters (tree : Tree) : String × List Warning :=
  (String.ofList tree.codes.1, tree.codes.2)

end SolidScript.Tree
