/-
Walking the elements of a vector without flattening it. A walk is a stack of levels, the innermost
first: one for the storage it started from and one for each placeholder that it is inside of. While
a walk is under way, any of these storages may be flattened. The placeholders that the walk went
through are gone then, so it restarts on the outermost such level, behind the elements that it has
passed there, and the levels further in are dropped.
-/

import SolidScript.Memory

namespace SolidScript

/-- How far a walk has come in one storage. -/
structure Level where
  storage : Address
  /-- The index of the stored element that comes next. -/
  position : Nat
  /-- The number of elements passed on this level and further in. -/
  passed : Nat
  /-- Whether the storage had placeholders when the level was entered. -/
  spliced : Bool

/-- The levels of a walk, the innermost first. A walk that is over has none. -/
abbrev Walk := List Level

/-- The handles by which a walk owns the storages of its levels. -/
def Walk.handles (walk : Walk) : List Value := walk.map fun level => .vector level.storage

def Level.pass (level : Level) : Level := { level with passed := level.passed + 1 }

/-- The level behind its next stored element. -/
def Level.skip (level : Level) : Level := { level with position := level.position + 1 }

/-- Go on where the elements that were passed end in a storage that is flat now. -/
def Level.restart (level : Level) : Level :=
  { level with position := level.passed, spliced := false }

namespace Memory

/-- The start of a storage. -/
def enter (memory : Memory) (address : Address) : Level :=
  ⟨address, 0, 0, memory.excess address != 0⟩

/-- A walk through all elements of a storage. -/
def walk (memory : Memory) (address : Address) : Walk := [memory.enter address]

/-- Whether the storage of a level was flattened after it was entered. -/
def isOutdated (memory : Memory) (level : Level) : Bool :=
  level.spliced && memory.excess level.storage == 0

/-- Restart on the outermost level that is outdated, if there is one. -/
def restart? (memory : Memory) : Walk → Option Walk
  | [] => none
  | level :: outer =>
    match memory.restart? outer with
    | some walk => some walk
    | none => if memory.isOutdated level then some (level.restart :: outer) else none

/-- The walk with its positions up to date. -/
def resync (memory : Memory) (walk : Walk) : Walk := (memory.restart? walk).getD walk

/-- The next element on levels that are up to date, and what is left of the walk after it. -/
def advance (memory : Memory) (walk : Walk) : Option (Option Value × Walk) :=
  match walk with
  | [] => some (none, [])
  | level :: outer =>
    match (memory.storage level.storage).elements[level.position]? with
    | none => memory |>.advance outer
    | some (.embedded inner) => memory |>.advance (memory.enter inner :: level.skip :: outer)
    | some value => some (some value, (level.skip :: outer).map Level.pass)
partial_fixpoint

/-- The next element of a walk, if there is one, and what is left of the walk after it. -/
def next (memory : Memory) (walk : Walk) : Option (Option Value × Walk) :=
  memory.advance (memory.resync walk)

/-- All elements that are left of a walk, behind those found before. -/
def collect (memory : Memory) (found : Array Value) (walk : Walk) : Option (Array Value) := do
  match ← memory.next walk with
  | (none, _) => return found
  | (some value, walk) => memory |>.collect (found.push value) walk
partial_fixpoint

/-- All elements of a vector in order. -/
def list (memory : Memory) (address : Address) : Option (Array Value) :=
  memory.collect #[] (memory.walk address)

end Memory

end SolidScript
