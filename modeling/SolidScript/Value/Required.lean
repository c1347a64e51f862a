/-
Values of which a certain kind is required. What can go wrong is a cause with a message: the value
has another kind, or a number is not finite.
-/

import SolidScript.Value
import SolidScript.Number.Shortest

namespace SolidScript

/-- A value of one kind where another one was required. -/
structure KindMismatch where
  expected : Kind
  found : Kind
deriving DecidableEq, Repr

/-- The message to the user of the language. -/
def KindMismatch.message (mismatch : KindMismatch) : String :=
  "expected " ++ mismatch.expected.name ++ ", found " ++ mismatch.found.name

/-- The message where the kind was taken for granted, so that the mismatch is a defect of the
evaluator. -/
def KindMismatch.defect (mismatch : KindMismatch) : String :=
  "value accessed as " ++ mismatch.expected.name ++ " but is " ++ mismatch.found.name

/-- Why a finite number could not be had. -/
inductive Refusal where
  | mismatch (cause : KindMismatch)
  | notFinite (x : Float)

def Refusal.message : Refusal → String
  | mismatch cause => cause.message
  | notFinite x => "expected a finite number, found " ++ shortestText x

namespace Value

/-- A part of a value, or the mismatch if the value has no such part. -/
def required {α : Type} (value : Value) (expected : Kind) (part : Option α) :
    Except KindMismatch α :=
  match part with
  | some content => .ok content
  | none => .error ⟨expected, value.kind⟩

def requiredNumber (value : Value) : Except KindMismatch Float :=
  value.required .number value.number?

def requiredText (value : Value) : Except KindMismatch String :=
  value.required .text value.text?

def requiredVector (value : Value) : Except KindMismatch Address :=
  value.required .vector value.vector?

def requiredRange (value : Value) : Except KindMismatch Range :=
  value.required .range value.range?

def requiredFunction (value : Value) : Except KindMismatch Closure :=
  value.required .function value.function?

def requiredFiniteNumber (value : Value) : Except Refusal Float :=
  match value.requiredNumber with
  | .error cause => .error (.mismatch cause)
  | .ok x => if x.isFinite then .ok x else .error (.notFinite x)

end Value

end SolidScript
