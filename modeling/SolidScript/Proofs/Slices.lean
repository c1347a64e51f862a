/-
This file follows the slices of storages that are read one beside another. A course is a sequence
of accesses: a slice of a storage is opened, which flattens the storage, or given back, and between
two accesses nothing is flattened and the storages that were there are left alone. Once a slice of a
storage was opened, the storage has no placeholders and stores the elements of the slice for as long
as the course goes on, so that no slice of it that is opened later has anything to rewrite. A
storage that is rewritten is one that was never read before.
-/

import SolidScript.Proofs.Tracing

namespace SolidScript

/-- All elements of a storage, as they are read. -/
structure Slice where
  storage : Address
  elements : Array Value

/-- What is done with slices. -/
inductive Access where
  | opens (slice : Slice)
  | closes (storage : Address)

namespace Access

def opened? : Access → Option Address
  | opens slice => some slice.storage
  | closes _ => none

def closed? : Access → Option Address
  | opens _ => none
  | closes storage => some storage

/-- The storages of the slices that were opened. -/
def openings (accesses : List Access) : List Address := accesses.filterMap opened?

/-- The storages of the slices that were given back. -/
def closings (accesses : List Access) : List Address := accesses.filterMap closed?

variable (done : List Access) (slice : Slice) (storage : Address)

theorem openings_opens : openings (done ++ [.opens slice]) = openings done ++ [slice.storage] :=
  List.filterMap_append

theorem openings_closes : openings (done ++ [.closes storage]) = openings done :=
  List.filterMap_append.trans (List.append_nil _)

theorem closings_opens : closings (done ++ [.opens slice]) = closings done :=
  List.filterMap_append.trans (List.append_nil _)

theorem closings_closes : closings (done ++ [.closes storage]) = closings done ++ [storage] :=
  List.filterMap_append

theorem mem_openings {done : List Access} {storage : Address} :
    storage ∈ openings done ↔ ∃ slice, .opens slice ∈ done ∧ slice.storage = storage := by
  refine List.mem_filterMap.trans ⟨?_, ?_⟩
  · rintro ⟨access, member, opened⟩
    cases access with
    | opens slice => exact ⟨slice, member, Option.some.inj opened⟩
    | closes => contradiction
  · rintro ⟨slice, member, rfl⟩
    exact ⟨.opens slice, member, rfl⟩

end Access

open Access (openings closings)

namespace Memory

/-- The slice of a storage holds what the storage stores once it is flat: what it stores already if
nothing is hidden, and otherwise its elements, with what placeholders stand for in their place. -/
def sliceOf (memory : Memory) (address : Address) : Slice where
  storage := address
  elements :=
    if memory.excess address = 0 then (memory.storage address).elements
    else (memory.list address).getD #[]

/-- The storage has no placeholders, and stores the elements of the slice. -/
structure Backs (memory : Memory) (slice : Slice) : Prop where
  flat : memory.excess slice.storage = 0
  elements : memory.contents slice.storage = slice.elements.toList

/-- The storages below the base store what they stored, slices of them are being read as before, and
nothing was flattened. -/
structure Undisturbed (base : Nat) (before after : Memory) : Prop
    extends Spares base before after where
  readers : ∀ address < base, after.readers address = before.readers address

/-- What was done with slices of the storages that a memory started with. Slices are opened one
beside another, also of one and the same storage. -/
inductive Course (start : Memory) : List Access → Memory → Prop
  | start : Course start [] start
  | undisturbed {done : List Access} {middle after : Memory} (course : Course start done middle)
      (undisturbed : Undisturbed start.storages.size middle after) : Course start done after
  | opens {done : List Access} {middle after : Memory} {slice : Slice}
      (course : Course start done middle) (old : slice.storage < start.storages.size)
      (opened : Memory.slice slice.storage middle = some (slice.elements, after)) :
      Course start (done ++ [.opens slice]) after
  | closes {done : List Access} {middle after : Memory} {address : Address}
      (course : Course start done middle) (old : address < start.storages.size)
      (lent : middle.readers address ≠ 0)
      (closed : Memory.unslice address middle = some ((), after)) :
      Course start (done ++ [.closes address]) after

variable {start before after memory : Memory} {done : List Access} {address other : Address}
  {slice : Slice} {elements : Array Value}

/-! ### One slice -/

theorem length_flatten (flattened : flatten address before = some ((), after)) :
    after.storages.size = before.storages.size := by
  rcases flatten_eq_some flattened with ⟨_, rfl⟩ | ⟨elements, _, rfl⟩
  · rfl
  · exact length_rewrite before address elements

theorem readers_flatten (flattened : flatten address before = some ((), after)) :
    after.readers other = before.readers other := by
  rcases flatten_eq_some flattened with ⟨_, rfl⟩ | ⟨elements, _, rfl⟩
  · rfl
  · exact readers_rewrite before address other elements

theorem excess_flatten (flattened : flatten address before = some ((), after)) :
    after.excess address = 0 := by
  rcases flatten_eq_some flattened with ⟨flat, rfl⟩ | ⟨elements, spliced, rfl⟩
  · exact flat
  · exact excess_rewrite_self elements (excess_inside spliced)

/-- A storage that stores a slice is not rewritten, whichever one is flattened. -/
theorem Backs.flatten (backs : before.Backs slice)
    (flattened : Memory.flatten address before = some ((), after)) : after.Backs slice := by
  rcases flatten_eq_some flattened with ⟨_, rfl⟩ | ⟨elements, spliced, rfl⟩
  · exact backs
  · have different : slice.storage ≠ address := fun same => spliced (same ▸ backs.flat)
    refine ⟨?_, ?_⟩
    · rw [excess_rewrite_of_ne elements different]
      exact backs.flat
    · rw [contents_rewrite_of_ne elements different]
      exact backs.elements

theorem Backs.lend (backs : before.Backs slice) (address : Address) (readers : Nat) :
    (before.lend address readers).Backs slice :=
  ⟨(excess_lend readers slice.storage).trans backs.flat,
    (contents_lend readers slice.storage).trans backs.elements⟩

theorem Backs.undisturbed {base : Nat} (backs : before.Backs slice) (old : slice.storage < base)
    (undisturbed : Undisturbed base before after) : after.Backs slice :=
  ⟨(undisturbed.excess slice.storage old).trans backs.flat,
    (undisturbed.toSpares.contents old).trans backs.elements⟩

/-- A slice is opened by flattening and counting one more reader. -/
theorem slice_eq_some (opened : Memory.slice address before = some (elements, after)) :
    ∃ flattened, flatten address before = some ((), flattened) ∧
      elements = (flattened.storage address).elements ∧
      after = flattened.lend address (flattened.readers address + 1) := by
  obtain ⟨⟨_, flattened⟩, found, counted⟩ := Option.bind_eq_some_iff.mp
    (show (flatten address before).bind (fun pair => some ((pair.2.storage address).elements,
      pair.2.lend address (pair.2.readers address + 1))) = some (elements, after) from opened)
  cases counted
  exact ⟨flattened, found, rfl, rfl⟩

theorem unslice_eq_some (closed : unslice address before = some ((), after)) :
    after = before.lend address (before.readers address - 1) := by
  cases closed
  rfl

/-! ### Courses -/

namespace Course

theorem length (course : Course start done memory) :
    start.storages.size ≤ memory.storages.size := by
  induction course with
  | start => exact Nat.le_refl _
  | undisturbed _ undisturbed inductionHypothesis =>
    exact Nat.le_trans inductionHypothesis undisturbed.length
  | opens _ _ opened inductionHypothesis =>
    obtain ⟨flattened, found, _, rfl⟩ := slice_eq_some opened
    rw [lend, length_change, length_flatten found]
    exact inductionHypothesis
  | closes _ _ _ closed inductionHypothesis =>
    rw [unslice_eq_some closed, lend, length_change]
    exact inductionHypothesis

theorem old (course : Course start done memory) (opened : .opens slice ∈ done) :
    slice.storage < start.storages.size := by
  induction course with
  | start => contradiction
  | undisturbed _ _ inductionHypothesis => exact inductionHypothesis opened
  | opens _ old _ inductionHypothesis =>
    rcases List.mem_append.mp opened with before | last
    · exact inductionHypothesis before
    · cases List.mem_singleton.mp last
      exact old
  | closes _ _ _ _ inductionHypothesis =>
    rcases List.mem_append.mp opened with before | last
    · exact inductionHypothesis before
    · cases List.mem_singleton.mp last

/-- Whatever slice was opened, its storage still stores its elements. -/
theorem backs (course : Course start done memory) (opened : .opens slice ∈ done) :
    memory.Backs slice := by
  induction course with
  | start => contradiction
  | undisturbed course undisturbed inductionHypothesis =>
    exact (inductionHypothesis opened).undisturbed (course.old opened) undisturbed
  | opens _ _ sliced inductionHypothesis =>
    obtain ⟨flattened, found, elements, rfl⟩ := slice_eq_some sliced
    rcases List.mem_append.mp opened with before | last
    · exact ((inductionHypothesis before).flatten found).lend _ _
    · cases List.mem_singleton.mp last
      exact Backs.lend ⟨excess_flatten found, congrArg Array.toList elements.symm⟩ _ _
  | closes _ _ _ closed inductionHypothesis =>
    rw [unslice_eq_some closed]
    rcases List.mem_append.mp opened with before | last
    · exact (inductionHypothesis before).lend _ _
    · cases List.mem_singleton.mp last

/-- The readers of a storage are those of the start and one for each slice of it that was opened and
not given back. -/
theorem readers (course : Course start done memory) (old : address < start.storages.size) :
    memory.readers address + (closings done).count address =
      start.readers address + (openings done).count address := by
  induction course with
  | start => rfl
  | undisturbed _ undisturbed inductionHypothesis =>
    rw [undisturbed.readers address old]
    exact inductionHypothesis
  | @opens done middle _ slice course inside opened inductionHypothesis =>
    obtain ⟨flattened, found, _, rfl⟩ := slice_eq_some opened
    rw [Access.openings_opens, Access.closings_opens, List.count_append]
    have there : slice.storage < flattened.storages.size := by
      rw [length_flatten found]
      exact Nat.lt_of_lt_of_le inside course.length
    by_cases same : address = slice.storage
    · subst same
      rw [readers_lend_self there, readers_flatten found, List.count_singleton_self]
      omega
    · rw [readers_lend_of_ne _ same, readers_flatten found,
        List.count_eq_zero.mpr (fun member => same (List.mem_singleton.mp member))]
      exact inductionHypothesis
  | @closes done middle _ storage course inside lent closed inductionHypothesis =>
    rw [unslice_eq_some closed, Access.openings_closes, Access.closings_closes, List.count_append]
    by_cases same : address = storage
    · subst same
      rw [readers_lend_self (Nat.lt_of_lt_of_le inside course.length), List.count_singleton_self]
      omega
    · rw [readers_lend_of_ne _ same,
        List.count_eq_zero.mpr (fun member => same (List.mem_singleton.mp member))]
      exact inductionHypothesis

/-- A storage that has placeholders was not read so far. -/
theorem unread (course : Course start done memory) (spliced : memory.excess address ≠ 0) :
    address ∉ openings done := by
  intro member
  obtain ⟨slice, opened, rfl⟩ := Access.mem_openings.mp member
  exact spliced (course.backs opened).flat

/-- No slice of a storage that has placeholders is being read. -/
theorem readers_eq_zero (course : Course start done memory) (idle : start.Idle)
    (old : address < start.storages.size) (spliced : memory.excess address ≠ 0) :
    memory.readers address = 0 := by
  have balance := course.readers old
  rw [idle, List.count_eq_zero.mpr (course.unread spliced)] at balance
  omega

end Course

end Memory

end SolidScript
