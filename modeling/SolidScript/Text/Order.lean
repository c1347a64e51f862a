/-
The order of texts: by their first characters that differ, which is the order of their bytes.
-/

namespace SolidScript

/-- The texts in ascending order, each once. -/
def distinctTexts (texts : List String) : List String :=
  (texts.mergeSort fun a b => !(compare a b == .gt)).eraseReps

end SolidScript
