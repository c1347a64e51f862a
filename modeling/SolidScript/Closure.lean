/-
Function values: parameters, some with a default, and a body. Defaults and bodies are kept as the
source text that they are shown by; evaluating them is not the business of values.
-/

namespace SolidScript

structure Parameter where
  name : String
  fallback? : Option String

/-- The parameter as it is written in a function's head. -/
def Parameter.text (parameter : Parameter) : String :=
  match parameter.fallback? with
  | none => parameter.name
  | some fallback => parameter.name ++ " = " ++ fallback

structure Closure where
  parameters : List Parameter
  body : String

/-- The source text of a function. -/
def Closure.text (closure : Closure) : String :=
  "function(" ++ ", ".intercalate (closure.parameters.map Parameter.text) ++ ") " ++ closure.body

end SolidScript
