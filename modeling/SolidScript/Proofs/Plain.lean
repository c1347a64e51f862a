/-
This file defines the machine that the workspace stands for. It takes the same steps on plain lists:
a register holds a list of trees, a walk holds the list it started with, and nothing is shared. A
step that appends to one list hence leaves all others alone by definition. The machine gives up when
a list becomes too long for a word to count its items; what the workspace does then is not what it
does to lists.
-/

import SolidScript.Proofs.Tree.Operation
import SolidScript.Workspace

namespace SolidScript

/-- A walk through a list. It never changes the list. -/
structure PlainWalk where
  sequence : List Tree
  /-- How often an item was asked for. -/
  passed : Nat

/-- The items that are left of a walk. -/
def PlainWalk.left (walk : PlainWalk) : List Tree := walk.sequence.drop walk.passed

structure Plain where
  registers : List (List Tree)
  walks : List PlainWalk
  values : List Tree
  /-- The identities of functions below this one are taken. -/
  closures : Nat
  /-- What was warned of in the current step. -/
  warnings : List Warning

/-- What a step answers, if the lists decide it, the sizes of all lists, and the warnings. -/
structure PlainReport where
  answer : Option (Answer Tree)
  sizes : List Nat
  warnings : List Warning

/-! ### Giving up -/

/-- Why work on plain lists does not go on: it ends in a fault, or a list has become too long. -/
inductive Stop where
  | fault (cause : Fault)
  | tooLong

/-- A tree, if words count the items of all vectors in it. -/
def Tree.counted {τ : Type} (tree : Tree) : StateT τ (Except Stop) Tree :=
  if tree.small = true then return tree else throw .tooLong

/-! ### Recipes -/

namespace Recipe

/-- The tree wrapped `depth` times in a vector. An embedded vector is spliced into the innermost
one. -/
def wrapped (tree : Tree) : Nat → Tree
  | 0 => tree
  | depth + 1 => wrapped (.vector tree.parts) depth

/-- The items of a tree that has to be a vector. -/
def itemsOf : Tree → Except Stop (List Tree)
  | .vector items => .ok items
  | tree => .error (.fault (.mismatch ⟨.vector, tree.kind⟩))

variable (earlier : List Tree) (registers : List (List Tree))

mutual

/-- The tree that a recipe describes. Each function takes the next identity. -/
def plant : Recipe → StateT Nat (Except Stop) Tree
  | undefined => return .undefined
  | bool flag => return .bool flag
  | number x => return .number x
  | text content => return .text content
  | range content => return .range content
  | function content => modifyGet fun closures => (.function ⟨closures, content⟩, closures + 1)
  | vector items => do Tree.counted (.vector ((← plantAll items).flatMap Tree.parts))
  | embedded inner => do return .embedded (← itemsOf (← plant inner))
  | copies count inner => do
    let tree ← plant inner
    Tree.counted (.vector ((List.replicate count tree).flatMap Tree.parts))
  | nested depth inner => do return wrapped (← plant inner) depth
  | .earlier position =>
    match earlier[position]? with
    | some tree => return tree
    | none => throw (.fault (.noEarlier position))
  | register position =>
    match registers[position]? with
    | some items => return .vector items
    | none => throw (.fault (.noRegister position))

def plantAll : List Recipe → StateT Nat (Except Stop) (List Tree)
  | [] => return []
  | item :: items => do
    let tree ← plant item
    let trees ← plantAll items
    return tree :: trees

end

end Recipe

/-! ### Steps -/

namespace Plain

def empty : Plain := ⟨[], [], [], 0, []⟩

/-- Work on plain lists that may end in a fault or give up. -/
abbrev Work := StateT Plain (Except Stop)

def register (position : Nat) : Work (List Tree) := do
  match (← get).registers[position]? with
  | some items => return items
  | none => throw (.fault (.noRegister position))

def setRegister (position : Nat) (items : List Tree) : Work Unit := do
  let _ ← Tree.counted (.vector items)
  modify fun plain => { plain with registers := plain.registers.set position items }

def addRegister (items : List Tree) : Work (Option (Answer Tree)) := do
  let _ ← Tree.counted (.vector items)
  modify fun plain => { plain with registers := plain.registers ++ [items] }
  return some .nothing

/-- Replace the list of a register by its image. -/
def changeRegister (position : Nat) (image : List Tree → List Tree) :
    Work (Option (Answer Tree)) := do
  let items ← register position
  setRegister position (image items)
  return some .nothing

/-- Take the list out of a register and leave an empty one. -/
def takeRegister (position : Nat) : Work (List Tree) := do
  let items ← register position
  setRegister position []
  return items

/-- Work with the identities of functions. -/
def planting {α : Type} (work : StateT Nat (Except Stop) α) : Work α := fun plain => do
  let (result, closures) ← work plain.closures
  return (result, { plain with closures })

def make (item : Recipe) : Work Tree := do
  let plain ← get
  planting (item.plant plain.values plain.registers)

def makeAll (items : List Recipe) : Work (List Tree) := do
  let plain ← get
  planting (Recipe.plantAll plain.values plain.registers items)

def makeVector (item : Recipe) : Work (List Tree) := do
  Recipe.itemsOf (← make item)

def value (position : Nat) : Work Tree := do
  match (← get).values[position]? with
  | some tree => return tree
  | none => throw (.fault (.noEarlier position))

def addValue (tree : Tree) : Work Unit := do
  let _ ← tree.counted
  modify fun plain => { plain with values := plain.values ++ [tree] }

def walkAt (position : Nat) : Work PlainWalk := do
  match (← get).walks[position]? with
  | some walk => return walk
  | none => throw (.fault (.noWalk position))

def setWalk (position : Nat) (walk : PlainWalk) : Work Unit :=
  modify fun plain => { plain with walks := plain.walks.set position walk }

def warn (warned : List Warning) : Work Unit :=
  modify fun plain => { plain with warnings := plain.warnings ++ warned }

/-- Give the answer of an operation. If it is a value, that is added to the values. -/
def give (outcome : Answer Tree × List Warning) : Work (Option (Answer Tree)) := do
  warn outcome.2
  if let .value result := outcome.1 then addValue result
  return some outcome.1

/-- Perform a step. Whether two registers share their storage is not decided by their lists. -/
def perform : Step → Work (Option (Answer Tree))
  | .create => addRegister []
  | .fill items => do addRegister ((← makeAll items).flatMap Tree.parts)
  | .copy position => do addRegister (← register position)
  | .append position item => do
    let tree ← make item
    changeRegister position (· ++ tree.parts)
  | .extend position items => do
    let trees ← makeAll items
    changeRegister position (· ++ trees.flatMap Tree.parts)
  | .embed position item => do
    let other ← makeVector item
    let _ ← changeRegister position (· ++ other)
    return some (.size other.length other.isEmpty)
  | .embedMoved position source | .concatenateMoved position source => do
    let other ← takeRegister source
    changeRegister position (· ++ other)
  | .concatenate position item => do
    let other ← makeVector item
    changeRegister position (· ++ other)
  | .double position count => changeRegister position fun items => Tree.doubled items count
  | .chain position count => changeRegister position fun items => Tree.chained items count
  | .unwrap position | .flatten position => do
    let _ ← register position
    return some .nothing
  | .reset position => do
    let _ ← takeRegister position
    return some .nothing
  | .element position index => do
    let items ← register position
    return some (.value (items[index]?.getD .undefined))
  | .slice position | .list position => do return some (.values (← register position))
  | .isEmpty position => do return some (.flag (← register position).isEmpty)
  | .equal position other => do
    let a ← register position
    let b ← register other
    return some (.flag (Tree.allEqual a b))
  | .shared position other => do
    let _ ← register position
    let _ ← register other
    return none
  | .inspect position => do return some (.text (Tree.inspectedItems (← register position)))
  | .display position => do return some (.text (Tree.vector (← register position)).shown)
  | .walk position => do
    let items ← register position
    modify fun plain => { plain with walks := plain.walks ++ [⟨items, 0⟩] }
    return some .nothing
  | .next position => do
    let walk ← walkAt position
    setWalk position { walk with passed := walk.passed + 1 }
    return some (.values walk.left.head?.toList)
  | .rest position => do
    let walk ← walkAt position
    setWalk position { walk with passed := walk.sequence.length }
    return some (.values walk.left)
  | .keep item => do
    addValue (← make item)
    return some .nothing
  | .operate operation => do give (← operation.mapM value).evaluate

/-- How many items the walk at a place was asked for after a step, if it was asked for `passed`
items before it. -/
def asked (place size passed : Nat) : Step → Nat
  | .next other => if other = place then passed + 1 else passed
  | .rest other => if other = place then size else passed
  | _ => passed

/-- Perform a step and report it. -/
def step (action : Step) : Work PlainReport := do
  modify fun plain => { plain with warnings := [] }
  let answer ← perform action
  let plain ← get
  return { answer, sizes := plain.registers.map List.length, warnings := plain.warnings }

/-- Perform all steps in turn. -/
def run : List Step → Work (List PlainReport)
  | [] => return []
  | action :: actions => do
    let report ← step action
    let reports ← run actions
    return report :: reports

end Plain

end SolidScript
