/-
Values of the language. Texts, ranges, functions and the elements of vectors are kept once and
shared by all copies of a value. The first three never change, and a copy carries them with the
identity of their place. The elements of a vector do change, so they stay in memory, and a value
holds the address of their storage only. A vector may hold another one as an embedded vector: a
placeholder that stands for the elements of the other one, so that joining vectors copies nothing.
-/

import SolidScript.Closure
import SolidScript.Range

namespace SolidScript

/-- Something kept in memory once. Two copies share it when their identities agree. -/
structure Shared (α : Type) where
  identity : Nat
  content : α

/-- Where in memory the storage of a vector is. -/
abbrev Address := Nat

inductive Value where
  | undefined
  | bool (flag : Bool)
  | number (x : Float)
  | text (text : Shared String)
  | vector (address : Address)
  /-- A vector on its way into another one. It is never the result of an operator. -/
  | embedded (address : Address)
  | range (range : Shared Range)
  | function (closure : Shared Closure)

instance : Inhabited Value := ⟨.undefined⟩

/-- The kinds of values. -/
inductive Kind where
  | undefined
  | bool
  | number
  | text
  | vector
  | embedded
  | range
  | function
deriving DecidableEq, Repr

/-- All kinds, in the order in which they are listed. -/
def Kind.all : List Kind := [undefined, bool, number, text, vector, embedded, range, function]

/-- The name of a kind in messages. -/
def Kind.name : Kind → String
  | undefined => "undefined"
  | bool => "bool"
  | number => "number"
  | text => "string"
  | vector => "vector"
  | embedded => "embedded vector"
  | range => "range"
  | function => "function"

namespace Value

def kind : Value → Kind
  | undefined => .undefined
  | bool _ => .bool
  | number _ => .number
  | text _ => .text
  | vector _ => .vector
  | embedded _ => .embedded
  | range _ => .range
  | function _ => .function

def isUndefined (value : Value) : Bool := value.kind = .undefined

def isDefined (value : Value) : Bool := !value.isUndefined

/-! ### The parts of a value -/

def number? : Value → Option Float
  | number x => some x
  | _ => none

/-- The number, with zero for every other kind. -/
def numberOrZero (value : Value) : Float := value.number?.getD 0

def text? : Value → Option String
  | text t => some t.content
  | _ => none

def vector? : Value → Option Address
  | vector address => some address
  | _ => none

/-- The storage that a value is a handle to. -/
def storage? : Value → Option Address
  | vector address | embedded address => some address
  | _ => none

/-- The storages that values are handles to, each as often as there is a handle to it. -/
def handles (values : List Value) : List Address := values.filterMap storage?

/-- Whether a value is a placeholder where it is an element. -/
def isEmbedded : Value → Bool
  | embedded _ => true
  | _ => false

def range? : Value → Option Range
  | range r => some r.content
  | _ => none

def function? : Value → Option Closure
  | function f => some f.content
  | _ => none

/-- The number, if it is neither infinite nor no number. -/
def finiteNumber? (value : Value) : Option Float := value.number?.filter Float.isFinite

end Value

end SolidScript
