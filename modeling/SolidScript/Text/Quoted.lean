/-
Quoted texts. Tab, line end, carriage return, quote and backslash are written as a backslash and
one more character; every other character stands for itself.
-/

namespace SolidScript.Quoted

/-- How one character is written between quotes. -/
def escape : Char → List Char
  | '\t' => ['\\', 't']
  | '\n' => ['\\', 'n']
  | '\r' => ['\\', 'r']
  | '"' => ['\\', '"']
  | '\\' => ['\\', '\\']
  | c => [c]

def encode (text : List Char) : List Char :=
  '"' :: (text.flatMap escape ++ ['"'])

end Quoted

/-- The text between double quotes, with the five escapes. -/
def quotedText (text : String) : String :=
  String.ofList (Quoted.encode text.toList)

end SolidScript
