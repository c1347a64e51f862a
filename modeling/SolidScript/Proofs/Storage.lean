/-
This file holds the laws of reading a memory after it was changed. Each change of memory concerns
one storage, or only the owners of several. Later files use these laws and do not open the changes
again.
-/

import SolidScript.Vector.Append
import Mathlib.Algebra.Group.Nat.Defs

namespace SolidScript

namespace Memory

/-! ### Changes of one storage -/

theorem storage_eq_getElem (memory : Memory) (address : Address)
    (inside : address < memory.storages.size) :
    memory.storage address = memory.storages[address] := by
  rw [storage, Array.getD_eq_getD_getElem?, Array.getElem?_eq_getElem inside, Option.getD_some]

theorem storage_of_outside (memory : Memory) (address : Address)
    (outside : memory.storages.size ≤ address) : memory.storage address = default := by
  rw [storage, Array.getD_eq_getD_getElem?, Array.getElem?_eq_none outside, Option.getD_none]

theorem readers_inside {memory : Memory} {address : Address}
    (lent : memory.readers address ≠ 0) : address < memory.storages.size := by
  refine Nat.lt_of_not_le fun outside => lent ?_
  rw [readers, storage_of_outside _ _ outside]
  rfl

@[simp]
theorem length_change (memory : Memory) (address : Address) (update : Storage → Storage) :
    (memory.change address update).storages.size = memory.storages.size :=
  Array.size_modify

theorem storage_change_self (memory : Memory) (address : Address) (update : Storage → Storage)
    (inside : address < memory.storages.size) :
    (memory.change address update).storage address = update (memory.storage address) := by
  rw [storage_eq_getElem _ _ ((memory.length_change address update).symm ▸ inside),
    storage_eq_getElem _ _ inside]
  exact Array.getElem_modify_self update _

theorem storage_change_of_ne (memory : Memory) {address other : Address}
    (update : Storage → Storage) (different : other ≠ address) :
    (memory.change address update).storage other = memory.storage other := by
  rw [storage, storage, Array.getD_eq_getD_getElem?, Array.getD_eq_getD_getElem?, change,
    Array.getElem?_modify, if_neg (Ne.symm different)]

/-- A change that keeps a part of every storage keeps it in memory. -/
theorem storage_change_keeps {α : Type} (part : Storage → α) (memory : Memory)
    (address other : Address) (update : Storage → Storage)
    (keeps : ∀ storage, part (update storage) = part storage) :
    part ((memory.change address update).storage other) = part (memory.storage other) := by
  by_cases same : other = address
  · subst same
    by_cases inside : other < memory.storages.size
    · rw [storage_change_self _ _ _ inside, keeps]
    · rw [storage_of_outside _ _ (Nat.le_of_not_lt (by rwa [length_change])),
        storage_of_outside _ _ (Nat.le_of_not_lt inside)]
  · rw [storage_change_of_ne _ _ same]

/-! ### Sizes -/

/-- The size of a storage is what a machine word keeps of the number of its elements. -/
theorem size_eq_mod (memory : Memory) (address : Address) :
    memory.size address =
      ((memory.contents address).length + memory.excess address) % 2 ^ 64 := by
  rw [size, Storage.size, UInt64.toNat_add, UInt64.toNat_ofNat', Nat.mod_add_mod]
  rfl

theorem size_lt (memory : Memory) (address : Address) : memory.size address < 2 ^ 64 :=
  UInt64.toNat_lt _

/-- A storage that hides nothing has as many elements as it stores. -/
theorem size_of_flat {memory : Memory} {address : Address} (flat : memory.excess address = 0) :
    memory.size address = (memory.contents address).length % 2 ^ 64 := by
  rw [size_eq_mod, flat, Nat.add_zero]

/-- What a storage stores and hides decides its size. -/
theorem size_congr {before after : Memory} {address : Address}
    (contents : after.contents address = before.contents address)
    (excess : after.excess address = before.excess address) :
    after.size address = before.size address := by
  rw [size_eq_mod, size_eq_mod, contents, excess]

/-! ### New storages -/

/-- The memory with one more storage. -/
def add (memory : Memory) (storage : Storage) : Memory :=
  { memory with storages := memory.storages.push storage }

theorem allocate_eq (elements : Array Value) (excess : UInt64) (memory : Memory) :
    allocate elements excess memory =
      some (memory.storages.size, memory.add ⟨elements, excess, 1, 0⟩) := rfl

@[simp]
theorem length_add (memory : Memory) (storage : Storage) :
    (memory.add storage).storages.size = memory.storages.size + 1 :=
  Array.size_push storage

theorem storage_add_fresh (memory : Memory) (storage : Storage) :
    (memory.add storage).storage memory.storages.size = storage := by
  rw [storage_eq_getElem _ _ (by rw [length_add]; exact Nat.lt_succ_self _)]
  exact Array.getElem_push_eq

theorem storage_add_of_ne (memory : Memory) (storage : Storage) {address : Address}
    (old : address ≠ memory.storages.size) :
    (memory.add storage).storage address = memory.storage address := by
  rcases Nat.lt_or_gt_of_ne old with inside | outside
  · rw [storage_eq_getElem _ _ (by rw [length_add]; exact Nat.lt_succ_of_lt inside),
      storage_eq_getElem _ _ inside]
    exact Array.getElem_push_lt inside
  · rw [storage_of_outside _ _ (by rw [length_add]; exact outside),
      storage_of_outside _ _ (Nat.le_of_lt outside)]

/-! ### Changes of owners -/

/-- The second memory differs from the first one in the owners of storages only. -/
structure Reowned (before after : Memory) : Prop where
  length : after.storages.size = before.storages.size
  elements : ∀ address, (after.storage address).elements = (before.storage address).elements
  excess : ∀ address, after.excess address = before.excess address
  readers : ∀ address, after.readers address = before.readers address
  ranges : after.ranges = before.ranges
  closures : after.closures = before.closures
  events : after.events = before.events

namespace Reowned

theorem refl (memory : Memory) : Reowned memory memory :=
  ⟨rfl, fun _ => rfl, fun _ => rfl, fun _ => rfl, rfl, rfl, rfl⟩

theorem trans {first second third : Memory} (one : Reowned first second)
    (two : Reowned second third) : Reowned first third where
  length := two.length.trans one.length
  elements address := (two.elements address).trans (one.elements address)
  excess address := (two.excess address).trans (one.excess address)
  readers address := (two.readers address).trans (one.readers address)
  ranges := two.ranges.trans one.ranges
  closures := two.closures.trans one.closures
  events := two.events.trans one.events

theorem contents {before after : Memory} (reowned : Reowned before after) (address : Address) :
    after.contents address = before.contents address :=
  congrArg Array.toList (reowned.elements address)

end Reowned

theorem reowned_setOwners (memory : Memory) (address : Address) (owners : Nat) :
    Reowned memory (memory.setOwners address owners) where
  length := memory.length_change address _
  elements _ := storage_change_keeps Storage.elements _ _ _ _ fun _ => rfl
  excess _ := congrArg UInt64.toNat (storage_change_keeps Storage.excess _ _ _ _ fun _ => rfl)
  readers _ := storage_change_keeps Storage.readers _ _ _ _ fun _ => rfl
  ranges := rfl
  closures := rfl
  events := rfl

theorem reowned_retain (memory : Memory) (values : List Value) :
    Reowned memory (memory.retain values) := by
  unfold retain
  generalize Value.handles values = addresses
  induction addresses generalizing memory with
  | nil => exact .refl memory
  | cons address addresses inductionHypothesis =>
    exact (memory.reowned_setOwners address _).trans (inductionHypothesis _)

theorem reowned_release (memory : Memory) (values : List Value) :
    Reowned memory (memory.release values) := by
  fun_induction release memory values with
  | case1 => exact .refl _
  | case2 _ _ _ _ inductionHypothesis => exact inductionHypothesis
  | case3 _ _ _ _ _ _ inductionHypothesis => exact inductionHypothesis
  | case4 _ _ _ _ _ _ _ inductionHypothesis =>
    exact (reowned_setOwners _ _ _).trans inductionHypothesis
  | case5 _ _ _ _ _ _ _ inductionHypothesis =>
    exact (reowned_setOwners _ _ _).trans inductionHypothesis

theorem owners_setOwners_self (memory : Memory) (address : Address) (owners : Nat)
    (inside : address < memory.storages.size) :
    (memory.setOwners address owners).owners address = owners :=
  congrArg Storage.owners (memory.storage_change_self address _ inside)

theorem owners_setOwners_of_ne (memory : Memory) {address other : Address} (owners : Nat)
    (different : other ≠ address) :
    (memory.setOwners address owners).owners other = memory.owners other :=
  congrArg Storage.owners (memory.storage_change_of_ne _ different)

end Memory

end SolidScript
