/-
Recipes describe values that are to be made. A recipe may also refer to values made before it and to
the registers of a workspace, and what it makes shares their storage. Whoever has a value made owns
it.
-/

import SolidScript.Vector.Append
import SolidScript.Value.Required

namespace SolidScript

inductive Recipe where
  | undefined
  | bool (flag : Bool)
  | number (x : Float)
  | text (content : String)
  | range (content : Range)
  | function (content : Closure)
  /-- A vector of the given values, embedded ones spliced in. -/
  | vector (items : List Recipe)
  | embedded (inner : Recipe)
  /-- A vector of copies of one value. -/
  | copies (count : Nat) (inner : Recipe)
  /-- A value wrapped in vectors of one element. -/
  | nested (depth : Nat) (inner : Recipe)
  /-- A copy of a value made before. -/
  | earlier (position : Nat)
  /-- A vector that shares the storage of a register. -/
  | register (position : Nat)

/-- Why a recipe or a step cannot be followed. -/
inductive Fault where
  | mismatch (cause : KindMismatch)
  | noEarlier (position : Nat)
  | noRegister (position : Nat)
  | noWalk (position : Nat)
deriving DecidableEq, Repr

/-- The message of a fault. -/
def Fault.message : Fault → String
  | mismatch cause => cause.defect
  | noEarlier position => s!"no value {position}"
  | noRegister position => s!"no register {position}"
  | noWalk position => s!"no walk {position}"

/-- Work on memory that may end in a fault. -/
abbrev Attempt := StateT Memory (ExceptT Fault Option)

/-- Work on memory that cannot fail. -/
def Attempt.ofAction {α : Type} (action : Action α) : Attempt α := fun memory =>
  ExceptT.mk ((action memory).map .ok)

/-- The vector of a value that has to be one. -/
def Attempt.vector (value : Value) : Attempt Address :=
  match value.requiredVector with
  | .ok address => return address
  | .error cause => throw (.mismatch cause)

/-- One more owner for a value. -/
def Memory.copy (value : Value) : Action Value := do
  modify (·.retain [value])
  return value

/-- What a recipe may refer to. -/
structure Surroundings where
  earlier : List Value
  registers : List Address

/-- The value wrapped `depth` times in a vector of one element. -/
def Memory.nest (value : Value) : Nat → Action Value
  | 0 => return value
  | depth + 1 => do nest (.vector (← newVector [value])) depth

/-- A vector of copies of one value, which is given up afterwards. -/
def Memory.repeat (value : Value) (count : Nat) : Action Address := do
  modify (·.retain (List.replicate count value))
  let result ← newVector (List.replicate count value)
  modify (·.release [value])
  return result

namespace Recipe

open Attempt

mutual

def make (around : Surroundings) : Recipe → Attempt Value
  | undefined => return .undefined
  | bool flag => return .bool flag
  | number x => return .number x
  | text content => ofAction (Memory.newText content)
  | range content => ofAction (Memory.newRange content)
  | function content => ofAction (Memory.newFunction content)
  | vector items => do
    let values ← makeAll around items
    return .vector (← ofAction (Memory.newVector values))
  | embedded inner => do return .embedded (← Attempt.vector (← make around inner))
  | copies count inner => do
    let value ← make around inner
    return .vector (← ofAction (Memory.repeat value count))
  | nested depth inner => do
    let value ← make around inner
    ofAction (Memory.nest value depth)
  | earlier position =>
    match around.earlier[position]? with
    | some value => ofAction (Memory.copy value)
    | none => throw (.noEarlier position)
  | register position =>
    match around.registers[position]? with
    | some address => ofAction (Memory.copy (.vector address))
    | none => throw (.noRegister position)

def makeAll (around : Surroundings) : List Recipe → Attempt (List Value)
  | [] => return []
  | item :: items => do
    let value ← make around item
    let values ← makeAll around items
    return value :: values

end

end Recipe

end SolidScript
