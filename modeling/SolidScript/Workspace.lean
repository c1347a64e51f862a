/-
A workspace holds vectors in registers, walks through them and further values, and changes them step
by step. It owns everything it holds. Every step is reported with what it answers, the sizes of all
registers after it, and the events of it.
-/

import SolidScript.Operation
import SolidScript.Recipe

namespace SolidScript

/-- One step. Registers, walks and values are numbered in the order in which they are added. -/
inductive Step where
  /-- Add a register with an empty vector. -/
  | create
  /-- Add a register with a vector of the given values. -/
  | fill (items : List Recipe)
  /-- Add a register that shares the storage of another one. -/
  | copy (register : Nat)
  | append (register : Nat) (item : Recipe)
  | extend (register : Nat) (items : List Recipe)
  /-- Append a vector as an embedded one and answer its size. -/
  | embed (register : Nat) (item : Recipe)
  /-- Append the vector of another register as an embedded one, after emptying that register. -/
  | embedMoved (register source : Nat)
  | concatenate (register : Nat) (item : Recipe)
  /-- Append the elements of another register, after emptying that register. -/
  | concatenateMoved (register source : Nat)
  | double (register count : Nat)
  | chain (register count : Nat)
  /-- Turn the vector into an embedded one and back. -/
  | unwrap (register : Nat)
  | reset (register : Nat)
  | flatten (register : Nat)
  | element (register position : Nat)
  | slice (register : Nat)
  | list (register : Nat)
  | isEmpty (register : Nat)
  | equal (register other : Nat)
  /-- Whether two registers share their storage. -/
  | shared (register other : Nat)
  | inspect (register : Nat)
  | display (register : Nat)
  /-- Add a walk through a register as it is now. -/
  | walk (register : Nat)
  | next (walk : Nat)
  /-- Take all that is left of a walk. -/
  | rest (walk : Nat)
  /-- Make a value and add it to the values. -/
  | keep (item : Recipe)
  /-- Perform an operation on values. If it answers a value, that is added to the values. -/
  | operate (operation : Operation Nat)

structure Workspace where
  memory : Memory
  registers : List Address
  walks : List Walk
  values : List Value

/-- A step's answer, the size and the hidden elements of each register after it, and its events. -/
structure Report where
  answer : Answer Value
  sizes : List (Nat × Nat)
  events : List Event

namespace Workspace

def empty : Workspace := ⟨Memory.empty, [], [], []⟩

/-- Work on a workspace that may end in a fault. -/
abbrev Work := StateT Workspace (ExceptT Fault Option)

/-! ### Parts of steps -/

/-- Work on the memory of the workspace. -/
def onMemory {α : Type} (action : Attempt α) : Work α :=
  fun ⟨memory, registers, walks, values⟩ => do
  let (result, memory) ← action memory
  return (result, ⟨memory, registers, walks, values⟩)

/-- Work on the memory of the workspace that cannot fail. -/
def withMemory {α : Type} (action : Action α) : Work α := onMemory (Attempt.ofAction action)

/-- Look something up in the memory of the workspace. -/
def lookUp {α : Type} (look : Memory → Option α) : Work α := withMemory (Action.read look)

def retain (values : List Value) : Work Unit := withMemory (modify (·.retain values))

def release (values : List Value) : Work Unit := withMemory (modify (·.release values))

def register (position : Nat) : Work Address := do
  match (← get).registers[position]? with
  | some address => return address
  | none => throw (.noRegister position)

def setRegister (position : Nat) (address : Address) : Work Unit :=
  modify fun workspace => { workspace with registers := workspace.registers.set position address }

def addRegister (address : Address) : Work (Answer Value) := do
  modify fun workspace => { workspace with registers := workspace.registers ++ [address] }
  return .nothing

/-- Replace the vector of a register by what the action makes of it. -/
def changeRegister (position : Nat) (action : Address → Action Address) : Work (Answer Value) := do
  let address ← register position
  setRegister position (← withMemory (action address))
  return .nothing

/-- Take the vector out of a register and leave an empty one. -/
def takeRegister (position : Nat) : Work Address := do
  let address ← register position
  setRegister position (← withMemory Memory.create)
  return address

/-- Make a value that may refer to the registers and to the values. -/
def make (item : Recipe) : Work Value := do
  let workspace ← get
  onMemory (item.make ⟨workspace.values, workspace.registers⟩)

def makeAll (items : List Recipe) : Work (List Value) := do
  let workspace ← get
  onMemory (Recipe.makeAll ⟨workspace.values, workspace.registers⟩ items)

def makeVector (item : Recipe) : Work Address := do
  let value ← make item
  onMemory (Attempt.vector value)

def value (position : Nat) : Work Value := do
  match (← get).values[position]? with
  | some value => return value
  | none => throw (.noEarlier position)

def addValue (value : Value) : Work Unit :=
  modify fun workspace => { workspace with values := workspace.values ++ [value] }

def walkAt (position : Nat) : Work Walk := do
  match (← get).walks[position]? with
  | some walk => return walk
  | none => throw (.noWalk position)

/-- Replace a walk by what is left of it. The storages of its levels change owners. -/
def setWalk (position : Nat) (old new : Walk) : Work Unit := do
  retain new.handles
  modify fun workspace => { workspace with walks := workspace.walks.set position new }
  release old.handles

/-! ### Steps -/

def perform : Step → Work (Answer Value)
  | .create => do addRegister (← withMemory Memory.create)
  | .fill items => do
    let values ← makeAll items
    addRegister (← withMemory (Memory.newVector values))
  | .copy position => do
    let address ← register position
    retain [.vector address]
    addRegister address
  | .append position item => do
    let value ← make item
    changeRegister position fun receiver => Memory.append receiver value
  | .extend position items => do
    let values ← makeAll items
    changeRegister position fun receiver => Memory.extend receiver values
  | .embed position item => do
    let other ← makeVector item
    let size ← lookUp fun memory => some (memory.size other)
    let _ ← changeRegister position fun receiver => Memory.append receiver (.embedded other)
    return .size size (size = 0)
  | .embedMoved position source => do
    let other ← takeRegister source
    changeRegister position fun receiver => Memory.append receiver (.embedded other)
  | .concatenate position item => do
    let other ← makeVector item
    changeRegister position fun receiver => Memory.concatenate receiver other
  | .concatenateMoved position source => do
    let other ← takeRegister source
    changeRegister position fun receiver => Memory.concatenate receiver other
  | .double position count => changeRegister position fun receiver => Memory.double receiver count
  | .chain position count => changeRegister position fun receiver => Memory.chain receiver count
  | .unwrap position => do
    let _ ← register position
    return .nothing
  | .reset position => do
    let address ← takeRegister position
    release [.vector address]
    return .nothing
  | .flatten position => do
    let address ← register position
    withMemory (Memory.flatten address)
    return .nothing
  | .element position index => do
    let address ← register position
    let found ← withMemory (Memory.element address index)
    release [found]
    return .value found
  | .slice position => do
    let address ← register position
    let elements ← withMemory (Memory.reading address fun elements => return elements)
    return .values elements.toList
  | .list position => do
    let address ← register position
    let elements ← lookUp (·.list address)
    return .values elements.toList
  | .isEmpty position => do
    let address ← register position
    let size ← lookUp fun memory => some (memory.size address)
    return .flag (size = 0)
  | .equal position other => do
    let a ← register position
    let b ← register other
    return .flag (← lookUp fun memory => (Value.vector a).equals memory (.vector b))
  | .shared position other => do
    let a ← register position
    let b ← register other
    return .flag (a = b)
  | .inspect position => do
    let address ← register position
    return .text (← lookUp (·.inspected address))
  | .display position => do
    let address ← register position
    return .text (← lookUp (Value.vector address).shown)
  | .walk position => do
    let address ← register position
    retain [.vector address]
    modify fun workspace =>
      { workspace with walks := workspace.walks ++ [workspace.memory.walk address] }
    return .nothing
  | .next position => do
    let old ← walkAt position
    let (value, new) ← lookUp (·.next old)
    setWalk position old new
    return .values value.toList
  | .rest position => do
    let old ← walkAt position
    let elements ← lookUp (·.collect #[] old)
    setWalk position old []
    return .values elements.toList
  | .keep item => do
    let value ← make item
    addValue value
    return .nothing
  | .operate operation => do
    let operation ← operation.mapM value
    let answer ← withMemory operation.perform
    if let .value result := answer then addValue result
    return answer

/-- Perform a step and report it. -/
def step (action : Step) : Work Report := do
  modify fun workspace => { workspace with memory := { workspace.memory with events := [] } }
  let answer ← perform action
  let workspace ← get
  return {
    answer
    sizes := workspace.registers.map fun address =>
      (workspace.memory.size address, workspace.memory.excess address)
    events := workspace.memory.events.reverse }

/-- Perform all steps in turn. -/
def run : List Step → Work (List Report)
  | [] => return []
  | action :: actions => do
    let report ← step action
    let reports ← run actions
    return report :: reports

end Workspace

end SolidScript
