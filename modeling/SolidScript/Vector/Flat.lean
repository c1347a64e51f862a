/-
Access by position. A vector that is accessed so is flattened first: its placeholders are replaced
by the elements they stand for, in the storage itself, so that all copies find it flat. While a
slice of a storage is read, the storage must not be rewritten.
-/

import SolidScript.Vector.Walk

namespace SolidScript

def Storage.withReaders (readers : Nat) (storage : Storage) : Storage := { storage with readers }

/-- The storage with other elements, none of them a placeholder. -/
def Storage.flattened (elements : Array Value) (storage : Storage) : Storage :=
  { storage with elements, excess := 0 }

namespace Memory

/-- Put the elements of a storage in the place of its placeholders. The storage becomes an owner of
the elements, and the old ones are given up. -/
def rewrite (memory : Memory) (address : Address) (elements : Array Value) : Memory :=
  let old := memory.contents address
  (((memory.report (.flattened elements.size.toUInt64.toNat)).retain elements.toList).change
    address (Storage.flattened elements)).release old

/-- Flatten a storage. One without placeholders is left alone. To rewrite a storage of which a slice
is being read is a defect, and has no result. -/
def flatten (address : Address) : Action Unit := fun memory =>
  if memory.excess address = 0 then some ((), memory)
  else do
    let elements ← memory.list address
    if memory.readers address = 0 then some ((), memory.rewrite address elements) else none

/-- Begin to read a slice of all elements. Flattens. -/
def slice (address : Address) : Action (Array Value) := do
  flatten address
  fun memory =>
    some ((memory.storage address).elements,
      memory.change address (Storage.withReaders (memory.readers address + 1)))

/-- Give a slice back. -/
def unslice (address : Address) : Action Unit := modify fun memory =>
  memory.change address (Storage.withReaders (memory.readers address - 1))

/-- Work on a slice of all elements. -/
def reading {α : Type} (address : Address) (work : Array Value → Action α) : Action α := do
  let elements ← slice address
  let result ← work elements
  unslice address
  return result

/-- The element at a position, or the undefined value beyond the end. Flattens. -/
def element (address : Address) (position : Nat) : Action Value := do
  let found ← reading address fun elements => return elements[position]?.getD .undefined
  modify (·.retain [found])
  return found

end Memory

end SolidScript
