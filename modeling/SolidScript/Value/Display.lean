/-
The texts of values. A vector is written element by element between brackets. Three texts differ in
how a text at the top is written: as it is, in plain quotes, or quoted with escapes; inside vectors
texts stand in plain quotes. A fourth text names the kind of every part and is meant for inspection.
-/

import SolidScript.Vector.Walk
import SolidScript.Number.Shortest
import SolidScript.Text.Quoted
import SolidScript.Text.Escaped

namespace SolidScript

namespace Display

/-- How values are written: what stands around the elements of a vector and of an embedded one, and
everything else. -/
structure Style where
  opening : String
  embeddedOpening : String
  closing : String
  scalar : Value → String

/-- What stands in front of an element. -/
def separator (first : Bool) : String := if first then "" else ", "

namespace Style

mutual

/-- Write a value behind what is written. -/
def writeValue (style : Style) (memory : Memory) (out : String) : Value → Option String
  | .vector a => do
    let out ← style |>.writeElements memory (out ++ style.opening) true (memory.walk a)
    return out ++ style.closing
  | .embedded a => do
    let out ← style |>.writeElements memory (out ++ style.embeddedOpening) true (memory.walk a)
    return out ++ style.closing
  | value => some (out ++ style.scalar value)
partial_fixpoint

/-- Write what a walk still passes, with commas between the elements. -/
def writeElements (style : Style) (memory : Memory) (out : String) (first : Bool) (walk : Walk) :
    Option String := do
  match ← memory.next walk with
  | (none, _) => return out
  | (some value, walk) =>
    let out ← style |>.writeValue memory (out ++ separator first) value
    style |>.writeElements memory out false walk
partial_fixpoint

end

end Style

/-! ### The text of a value -/

def quoted (text : String) : String := "\"" ++ text ++ "\""

/-- Text that is shown. Inside vectors texts stand in quotes, without escapes. -/
def shown : Style where
  opening := "["
  embeddedOpening := "["
  closing := "]"
  scalar
    | .undefined => "undef"
    | .bool flag => if flag then "true" else "false"
    | .number x => numberText x
    | .text t => quoted t.content
    | .range r => r.content.text
    | .function f => f.content.text
    | .vector _ | .embedded _ => ""

/-- Text that is inspected: every part is named by its kind. -/
def inspected : Style where
  opening := "Vector(["
  embeddedOpening := "Embedded(["
  closing := "])"
  scalar
    | .undefined => "Undefined"
    | .bool flag => if flag then "Bool(true)" else "Bool(false)"
    | .number x => "Number(" ++ shortestText x ++ ")"
    | .text t => "String(" ++ escapedText t.content ++ ")"
    | .range r => "Range(" ++ r.content.text ++ ")"
    | .function f => "Function(" ++ f.content.text ++ ")"
    | .vector _ | .embedded _ => ""

end Display

/-- The elements of a vector between brackets, each named by its kind. -/
def Memory.inspected (memory : Memory) (address : Address) : Option String := do
  let out ← Display.inspected.writeElements memory "[" true (memory.walk address)
  return out ++ "]"

namespace Value

/-- The text of a value with a text in plain quotes. -/
def echoed (memory : Memory) (value : Value) : Option String :=
  Display.shown.writeValue memory "" value

/-- The text of a value with a text as it is. -/
def shown (memory : Memory) : Value → Option String
  | .text t => some t.content
  | value => value.echoed memory

/-- The text of a value with a text in quotes and escaped. -/
def written (memory : Memory) : Value → Option String
  | .text t => some (quotedText t.content)
  | value => value.echoed memory

/-- The text of a value for inspection. -/
def inspected (memory : Memory) (value : Value) : Option String :=
  Display.inspected.writeValue memory "" value

end Value

end SolidScript
