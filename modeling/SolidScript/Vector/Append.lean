/-
Appending to vectors. A vector that is appended as an embedded one is not copied: a placeholder
takes its place, unless it has a single element, which is stored itself, or none. The handle to the
vector that grows and the value that is appended are both used up. The storage grows in place if it
has no other owner; otherwise a copy of it grows, and the other owners see nothing of it.
-/

import SolidScript.Vector.Flat

namespace SolidScript

/-- The storage with further elements, placeholders among them standing for `hidden` more. The sum
wraps. -/
def Storage.extended (added : List Value) (hidden : UInt64) (storage : Storage) : Storage :=
  { storage with
    elements := storage.elements ++ added
    excess := storage.excess + hidden }

namespace Memory

/-- The storage to write to through a handle: its own one if there is no other handle to it,
otherwise a copy. -/
def own (address : Address) : Action Address := fun memory =>
  if memory.owners address = 1 then some (address, memory)
  else do
    let storage := memory.storage address
    let (copy, memory) ← allocate storage.elements storage.excess
      (memory.retain storage.elements.toList)
    some (copy, memory.release [.vector address])

/-- Store elements behind those of a vector. -/
def put (address : Address) (added : List Value) (hidden : UInt64) : Action Address := do
  let target ← own address
  modify (·.change target (Storage.extended added hidden))
  return target

/-- The vector with the elements of another one at its end, hidden behind a placeholder. -/
def embed (address other : Address) : Action Address := do
  match (← get).size other with
  | 0 =>
    modify (·.release [.embedded other])
    return address
  | 1 =>
    let only ← element other 0
    let target ← put address [only] 0
    modify (·.release [.embedded other])
    return target
  | size + 2 => put address [.embedded other] (size + 1).toUInt64

/-- The vector with one more value at its end, an embedded one spliced in. -/
def append (address : Address) : Value → Action Address
  | .embedded other => embed address other
  | value => put address [value] 0

/-- The vector with the given values at its end, embedded ones spliced in. -/
def extend (address : Address) (values : List Value) : Action Address :=
  values.foldlM append address

/-- A new vector of the given values, with embedded ones spliced in. -/
def newVector (values : List Value) : Action Address :=
  if values.any Value.isEmbedded then do extend (← create) values
  else allocate values.toArray 0

/-- Take the elements out of a storage. They are moved if there is no other owner, and otherwise
copied. -/
def take (address : Address) : Action (List Value × UInt64) := fun memory =>
  let elements := memory.contents address
  let excess := (memory.storage address).excess
  if memory.owners address = 1 then some ((elements, excess), memory.setOwners address 0)
  else some ((elements, excess), (memory.retain elements).release [.vector address])

/-- The vector with the elements of another one at its end, placeholders of the other one as they
are. An empty vector gives way to the other one. -/
def concatenate (address other : Address) : Action Address := do
  if (← get).size address = 0 then
    modify (·.release [.vector address])
    return other
  else
    let (elements, excess) ← take other
    put address elements excess

/-- The vector `count` times doubled, each time with itself as the embedded vector. -/
def double (address : Address) : Nat → Action Address
  | 0 => return address
  | count + 1 => do
    modify (·.retain [.vector address])
    double (← append address (.embedded address)) count

/-- The vector put behind a zero as an embedded vector, `count` times over. -/
def chain (address : Address) : Nat → Action Address
  | 0 => return address
  | count + 1 => do chain (← append (← newVector [.number 0]) (.embedded address)) count

end Memory

end SolidScript
