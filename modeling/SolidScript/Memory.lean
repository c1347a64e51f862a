/-
The memory behind the values: the storages of vectors, and what has been reported. A storage is
shared by all handles to it, in variables and among the elements of other storages, and counts them
as its owners. A storage without owners is never read again. An action is work on memory; some
actions walk through storages that hold one another, so that only the absence of cycles makes them
end, and an action that does not come to an end has no result.
-/

import SolidScript.Value

namespace SolidScript

/-- What an operation warns of. -/
inductive Warning where
  | dimensions (columns rows : Nat)
  | raggedRow (row : Nat)
  | vectorEntry (index : Nat)
  | matrixEntry (row column : Nat)
  | tooManyValues (count : Nat)
deriving DecidableEq, Repr

def Warning.message : Warning → String
  | dimensions columns rows =>
    s!"Matrix dimensions must agree: {columns} columns against {rows} rows"
  | raggedRow row => s!"Matrix must be rectangular. Problem at row {row}"
  | vectorEntry index => s!"Vector must contain only numbers. Problem at index {index}"
  | matrixEntry row column =>
    s!"Matrix must contain only numbers. Problem at row {row}, col {column}"
  | tooManyValues count =>
    s!"Bad range parameter in for statement: too many elements ({count})."

/-- What is reported while values are worked with. -/
inductive Event where
  | warning (cause : Warning)
  /-- The placeholders of a storage were replaced by the elements they stood for. -/
  | flattened (size : Nat)
deriving DecidableEq, Repr

/-- The line of the report. -/
def Event.line : Event → String
  | warning cause => "WARN " ++ cause.message
  | flattened size => s!"TRACE flattened vector size={size}"

/-- The elements of a vector as they are stored. A placeholder counts as one element. -/
structure Storage where
  elements : Array Value
  /-- The elements beyond the first that placeholders stand for, counted by a machine word. -/
  excess : UInt64
  /-- The number of handles to the storage. -/
  owners : Nat
  /-- The number of slices of the storage that are being read. -/
  readers : Nat

instance : Inhabited Storage := ⟨⟨#[], 0, 0, 0⟩⟩

/-- The number of elements, those that placeholders stand for included. It is a machine word, so a
vector of 2 ^ 64 elements or more has the size that is left of their number. -/
def Storage.size (storage : Storage) : UInt64 :=
  storage.elements.size.toUInt64 + storage.excess

def Storage.withOwners (owners : Nat) (storage : Storage) : Storage := { storage with owners }

/-- The elements that are owned through a storage: none if the storage has no owner itself. -/
def Storage.load (storage : Storage) : Nat :=
  if storage.owners = 0 then 0 else storage.elements.size

theorem Storage.load_of_owners {storage : Storage} (owned : storage.owners ≠ 0) :
    storage.load = storage.elements.size := if_neg owned

structure Memory where
  storages : Array Storage
  /-- The ranges made so far. The identity of a range is its place among them. -/
  ranges : Array Range
  /-- The identities of texts below this one are taken. -/
  texts : Nat
  /-- The identities of functions below this one are taken. -/
  closures : Nat
  /-- What was reported, the latest first. -/
  events : List Event

/-- Work on memory. It has no result if it does not come to an end. -/
abbrev Action := StateT Memory Option

/-- Look something up in memory. -/
def Action.read {α : Type} (look : Memory → Option α) : Action α := fun memory => do
  return (← look memory, memory)

namespace Memory

def empty : Memory := ⟨#[], #[], 0, 0, []⟩

/-! ### Storages -/

def storage (memory : Memory) (address : Address) : Storage :=
  memory.storages.getD address default

def contents (memory : Memory) (address : Address) : List Value :=
  (memory.storage address).elements.toList

def excess (memory : Memory) (address : Address) : Nat := (memory.storage address).excess.toNat

def owners (memory : Memory) (address : Address) : Nat := (memory.storage address).owners

def readers (memory : Memory) (address : Address) : Nat := (memory.storage address).readers

def size (memory : Memory) (address : Address) : Nat := (memory.storage address).size.toNat

/-- Change one storage. -/
def change (memory : Memory) (address : Address) (update : Storage → Storage) : Memory :=
  { memory with storages := memory.storages.modify address update }

def setOwners (memory : Memory) (address : Address) (owners : Nat) : Memory :=
  memory.change address (Storage.withOwners owners)

/-- Keep elements in a new storage with one owner. -/
def allocate (elements : Array Value) (excess : UInt64) : Action Address := fun memory =>
  some (memory.storages.size,
    { memory with storages := memory.storages.push ⟨elements, excess, 1, 0⟩ })

/-- An empty vector. -/
def create : Action Address := allocate #[] 0

/-! ### Sums over all storages -/

def total (memory : Memory) (measure : Storage → Nat) : Nat :=
  (memory.storages.toList.map measure).foldr (· + ·) 0

theorem sum_map_modify (measure : Storage → Nat) (update : Storage → Storage)
    (storages : List Storage) (address : Nat) (inside : address < storages.length) :
    ((storages.modify address update).map measure).foldr (· + ·) 0 + measure storages[address] =
      (storages.map measure).foldr (· + ·) 0 + measure (update storages[address]) := by
  induction storages generalizing address with
  | nil => contradiction
  | cons first storages inductionHypothesis =>
    cases address with
    | zero =>
      simp only [List.modify_zero_cons, List.map_cons, List.foldr_cons, List.getElem_cons_zero]
      omega
    | succ address =>
      have := inductionHypothesis address (by simpa using inside)
      simp only [List.modify_succ_cons, List.map_cons, List.foldr_cons, List.getElem_cons_succ]
      omega

/-- A sum over all storages changes as the one storage does that is changed. -/
theorem total_change (memory : Memory) (measure : Storage → Nat) (address : Address)
    (update : Storage → Storage) (inside : address < memory.storages.size) :
    (memory.change address update).total measure + measure (memory.storage address) =
      memory.total measure + measure (update (memory.storage address)) := by
  have found : memory.storage address = memory.storages.toList[address] := by
    simp only [storage, Array.getD_eq_getD_getElem?, Array.getElem?_eq_getElem inside,
      Option.getD_some, Array.getElem_toList]
  rw [found, total, change, Array.toList_modify]
  exact sum_map_modify measure update memory.storages.toList address inside

theorem owners_inside {memory : Memory} {address : Address}
    (owned : memory.owners address ≠ 0) : address < memory.storages.size := by
  refine Nat.lt_of_not_le fun outside => owned ?_
  rw [owners, storage, Array.getD_eq_getD_getElem?, Array.getElem?_eq_none outside]
  rfl

/-! ### Owners -/

/-- One more owner for the storage of each value. -/
def retain (memory : Memory) (values : List Value) : Memory :=
  (Value.handles values).foldl
    (fun memory address => memory.setOwners address (memory.owners address + 1)) memory

/-- The load falls or stays as the owners of one storage become fewer. -/
theorem total_load_setOwners (memory : Memory) (address : Address) (owners : Nat)
    (owned : memory.owners address ≠ 0) :
    (memory.setOwners address owners).total Storage.load +
        (if owners = 0 then (memory.contents address).length else 0) =
      memory.total Storage.load := by
  have changed := memory.total_change Storage.load address (Storage.withOwners owners)
    (owners_inside owned)
  have before : (memory.storage address).load = (memory.contents address).length :=
    Storage.load_of_owners owned
  have after : ((memory.storage address).withOwners owners).load =
      if owners = 0 then 0 else (memory.contents address).length := rfl
  unfold setOwners
  by_cases unowned : owners = 0
  · rw [if_pos unowned] at after ⊢
    omega
  · rw [if_neg unowned] at after ⊢
    omega

/-- Give values up. A storage that loses its last owner gives up its elements in turn. They wait in
a list, so that a long chain of vectors needs no deep recursion. -/
def release (memory : Memory) : List Value → Memory
  | [] => memory
  | value :: pending =>
    match value.storage? with
    | none => memory.release pending
    | some address =>
      match owned : memory.owners address with
      | 0 => memory.release pending
      | 1 =>
        let elements := memory.contents address
        (memory.setOwners address 0).release (elements ++ pending)
      | owners + 2 => (memory.setOwners address (owners + 1)).release pending
termination_by pending => memory.total Storage.load + pending.length
decreasing_by
  · exact Nat.lt_succ_self _
  · exact Nat.lt_succ_self _
  · have lighter := memory.total_load_setOwners address 0 (by omega)
    rw [if_pos rfl] at lighter
    rw [List.length_append, List.length_cons]
    omega
  · have same := memory.total_load_setOwners address (owners + 1) (by omega)
    rw [if_neg (Nat.succ_ne_zero owners)] at same
    rw [List.length_cons]
    omega

/-! ### Reports and identities -/

def report (event : Event) (memory : Memory) : Memory :=
  { memory with events := event :: memory.events }

def warn (cause : Warning) : Action Unit := modify (report (.warning cause))

def newText (content : String) : Action Value := fun memory =>
  some (.text ⟨memory.texts, content⟩, { memory with texts := memory.texts + 1 })

def newRange (content : Range) : Action Value := fun memory =>
  some (.range ⟨memory.ranges.size, content⟩,
    { memory with ranges := memory.ranges.push content })

def newFunction (content : Closure) : Action Value := fun memory =>
  some (.function ⟨memory.closures, content⟩, { memory with closures := memory.closures + 1 })

end Memory

/-- The truth of a value. Zero, the empty text, the empty vector, the undefined value and functions
are false; every range is true. -/
def Value.truth (memory : Memory) : Value → Bool
  | bool flag => flag
  | number x => x != 0
  | text t => !t.content.isEmpty
  | vector address | embedded address => memory.size address != 0
  | range _ => true
  | undefined | function _ => false

end SolidScript
