/-
This file proves that owners are counted right. A storage is owned by the handles in the storages
that have owners themselves, and by the handles at work: in registers, in walks, among values, in
the hands of an operation. Every change of memory moves handles from one place to another, so the
number of owners agrees with the number of handles throughout. A storage with a single owner that is
at work is hence referred to by nothing else.
-/

import SolidScript.Proofs.Meaning
import Mathlib.Algebra.Order.BigOperators.Group.List
import Mathlib.Algebra.Order.Group.Nat

namespace SolidScript

open Value (handles)

/-- The handles to a storage that another one holds, if that one has owners itself. -/
def Storage.holds (address : Address) (storage : Storage) : Nat :=
  if storage.owners = 0 then 0 else (handles storage.elements.toList).count address

namespace Memory

/-- The handles to a storage that are in storages. -/
def held (memory : Memory) (address : Address) : Nat := memory.total (Storage.holds address)

/-- Every storage has as many owners as there are handles to it, in storages or at work. -/
def Owned (memory : Memory) (atWork : List Address) : Prop :=
  ∀ address, memory.owners address = memory.held address + atWork.count address

/-! ### Handles in storages -/

theorem holds_storage {memory : Memory} {address : Address} (alive : memory.owners address ≠ 0)
    (other : Address) :
    (memory.storage address).holds other = (handles (memory.contents address)).count other :=
  if_neg alive

theorem count_le_held {memory : Memory} {address : Address} (alive : memory.owners address ≠ 0)
    (other : Address) : (handles (memory.contents address)).count other ≤ memory.held other := by
  rw [← holds_storage alive other]
  have inside := owners_inside alive
  rw [storage_eq_getElem memory address inside]
  refine List.single_le_sum (fun _ _ => Nat.zero_le _) _ (List.mem_map_of_mem ?_)
  exact Array.getElem_mem_toList inside

theorem held_setOwners (memory : Memory) (address : Address) (owners : Nat)
    (alive : memory.owners address ≠ 0) (other : Address) :
    (memory.setOwners address owners).held other +
        (if owners = 0 then (handles (memory.contents address)).count other else 0) =
      memory.held other := by
  have changed := memory.total_change (Storage.holds other) address (Storage.withOwners owners)
    (owners_inside alive)
  have before := holds_storage alive other
  have after : ((memory.storage address).withOwners owners).holds other =
      if owners = 0 then 0 else (handles (memory.contents address)).count other := rfl
  unfold held setOwners
  by_cases unowned : owners = 0
  · rw [if_pos unowned] at after ⊢
    omega
  · rw [if_neg unowned] at after ⊢
    omega

theorem held_add (memory : Memory) (storage : Storage) (address : Address) :
    (memory.add storage).held address = memory.held address + storage.holds address := by
  rw [held, held, total, total, ← List.sum_eq_foldr, ← List.sum_eq_foldr, add, Array.toList_push,
    List.map_append, List.sum_append]
  rfl

/-! ### Storages that have owners -/

theorem owners_setOwners_le {memory : Memory} {address : Address} {owners : Nat}
    (fewer : owners ≤ memory.owners address) (other : Address) :
    (memory.setOwners address owners).owners other ≤ memory.owners other := by
  by_cases same : other = address
  · subst same
    by_cases inside : other < memory.storages.size
    · rw [owners_setOwners_self _ _ _ inside]
      exact fewer
    · have outside : (memory.setOwners other owners).owners other = 0 := by
        refine congrArg Storage.owners (storage_of_outside _ _ ?_)
        rw [setOwners, length_change]
        exact Nat.le_of_not_lt inside
      rw [outside]
      exact Nat.zero_le _
  · rw [owners_setOwners_of_ne _ _ same]

/-- Giving values up makes no storage owned again. -/
theorem owners_release_le (memory : Memory) (values : List Value) (address : Address) :
    (memory.release values).owners address ≤ memory.owners address := by
  fun_induction release memory values with
  | case1 => exact Nat.le_refl _
  | case2 _ _ _ _ inductionHypothesis => exact inductionHypothesis
  | case3 _ _ _ _ _ _ inductionHypothesis => exact inductionHypothesis
  | case4 _ _ _ _ _ _ _ inductionHypothesis =>
    exact Nat.le_trans inductionHypothesis (owners_setOwners_le (Nat.zero_le _) address)
  | case5 _ _ _ _ _ _ _ inductionHypothesis =>
    exact Nat.le_trans inductionHypothesis (owners_setOwners_le (by omega) address)

theorem alive_of_release {memory : Memory} {values : List Value} {address : Address}
    (alive : (memory.release values).owners address ≠ 0) : memory.owners address ≠ 0 := by
  have fewer := memory.owners_release_le values address
  omega

theorem owners_le_retain (memory : Memory) (values : List Value) (address : Address) :
    memory.owners address ≤ (memory.retain values).owners address := by
  unfold retain
  generalize handles values = addresses
  induction addresses generalizing memory with
  | nil => exact Nat.le_refl _
  | cons first addresses inductionHypothesis =>
    refine Nat.le_trans ?_ (inductionHypothesis _)
    by_cases same : address = first
    · subst same
      by_cases inside : address < memory.storages.size
      · rw [owners_setOwners_self _ _ _ inside]
        exact Nat.le_succ _
      · rw [owners, storage_of_outside _ _ (Nat.le_of_not_lt inside)]
        exact Nat.zero_le _
    · rw [owners_setOwners_of_ne _ _ same]

/-- Copying handles to storages that have owners gives no other storage an owner. -/
theorem alive_of_retain {memory : Memory} {values : List Value}
    (all : ∀ handle ∈ handles values, memory.owners handle ≠ 0) {address : Address}
    (alive : (memory.retain values).owners address ≠ 0) : memory.owners address ≠ 0 := by
  unfold retain at alive
  generalize handles values = addresses at all alive
  induction addresses generalizing memory with
  | nil => exact alive
  | cons first addresses inductionHypothesis =>
    have one : ∀ other, (memory.setOwners first (memory.owners first + 1)).owners other ≠ 0 ↔
        memory.owners other ≠ 0 := by
      intro other
      have aliveFirst := all first List.mem_cons_self
      by_cases same : other = first
      · subst same
        rw [owners_setOwners_self _ _ _ (owners_inside aliveFirst)]
        exact ⟨fun _ => aliveFirst, fun _ => Nat.succ_ne_zero _⟩
      · rw [owners_setOwners_of_ne _ _ same]
    refine (one address).mp (inductionHypothesis (fun handle member => ?_) alive)
    exact (one handle).mpr (all handle (List.mem_cons_of_mem _ member))

namespace Owned

variable {memory : Memory} {atWork : List Address}

/-- Only the number of handles at work matters, not their order. -/
theorem of_count (owned : memory.Owned atWork) (others : List Address)
    (same : ∀ address, atWork.count address = others.count address) : memory.Owned others := by
  intro address
  rw [owned address, same address]

theorem alive_of_mem (owned : memory.Owned atWork) {address : Address}
    (member : address ∈ atWork) : memory.owners address ≠ 0 := by
  have positive := List.count_pos_iff.mpr member
  have counts := owned address
  omega

theorem alive_of_held (owned : memory.Owned atWork) {address handle : Address}
    (alive : memory.owners address ≠ 0) (member : handle ∈ handles (memory.contents address)) :
    memory.owners handle ≠ 0 := by
  have positive := List.count_pos_iff.mpr member
  have within := count_le_held alive handle
  have counts := owned handle
  omega

/-- The storage that the only handle refers to is held by no other storage. -/
theorem not_held (owned : memory.Owned atWork) {address : Address} (member : address ∈ atWork)
    (unique : memory.owners address = 1) {other : Address} (alive : memory.owners other ≠ 0) :
    address ∉ handles (memory.contents other) := by
  intro stored
  have positive := List.count_pos_iff.mpr member
  have within := count_le_held alive address
  have storedOnce := List.count_pos_iff.mpr stored
  have counts := owned address
  omega

/-- The only handle is at work once. -/
theorem not_mem_of_unique (owned : memory.Owned (address :: atWork))
    (unique : memory.owners address = 1) : address ∉ atWork := by
  intro member
  have positive := List.count_pos_iff.mpr member
  have counts := owned address
  rw [List.count_cons_self] at counts
  omega

/-! ### Changes of owners -/

/-- A change of the elements of one storage trades handles. -/
theorem change (owned : memory.Owned atWork) {address : Address} {update : Storage → Storage}
    (alive : memory.owners address ≠ 0) {others : List Address}
    (keeps : (update (memory.storage address)).owners = memory.owners address)
    (trade : ∀ other,
      (handles (update (memory.storage address)).elements.toList).count other + others.count other =
        (handles (memory.contents address)).count other + atWork.count other) :
    (memory.change address update).Owned others := by
  intro other
  have inside := owners_inside alive
  have changed := memory.total_change (Storage.holds other) address update inside
  have before := holds_storage alive other
  have after : (update (memory.storage address)).holds other =
      (handles (update (memory.storage address)).elements.toList).count other :=
    if_neg (keeps ▸ alive)
  have owners : (memory.change address update).owners other = memory.owners other := by
    by_cases same : other = address
    · subst same
      exact (congrArg Storage.owners (memory.storage_change_self other update inside)).trans keeps
    · exact congrArg Storage.owners (memory.storage_change_of_ne update same)
  have balance := trade other
  have counts := owned other
  rw [owners]
  unfold held at counts ⊢
  omega

/-- Handles to storages that have owners already may be copied. -/
theorem retain (owned : memory.Owned atWork) (values : List Value)
    (alive : ∀ handle ∈ handles values, memory.owners handle ≠ 0) :
    (memory.retain values).Owned (handles values ++ atWork) := by
  unfold Memory.retain
  generalize handles values = addresses at alive
  induction addresses generalizing memory atWork with
  | nil => exact owned
  | cons address addresses inductionHypothesis =>
    have aliveAddress := alive address List.mem_cons_self
    have inside := owners_inside aliveAddress
    have owners : ∀ other, (memory.setOwners address (memory.owners address + 1)).owners other =
        memory.owners other + if address = other then 1 else 0 := by
      intro other
      by_cases same : address = other
      · subst same
        rw [owners_setOwners_self _ _ _ inside, if_pos rfl]
      · rw [owners_setOwners_of_ne _ _ (Ne.symm same), if_neg same, Nat.add_zero]
    have one :
        (memory.setOwners address (memory.owners address + 1)).Owned (address :: atWork) := by
      intro other
      have held := memory.held_setOwners address (memory.owners address + 1) aliveAddress other
      rw [if_neg (Nat.succ_ne_zero _), Nat.add_zero] at held
      rw [owners, held, owned other, List.count_cons]
      simp only [beq_iff_eq]
      omega
    refine (inductionHypothesis one fun handle member => ?_).of_count _ fun other => ?_
    · rw [owners]
      exact Nat.ne_of_gt (Nat.lt_of_lt_of_le
        (Nat.pos_of_ne_zero (alive handle (List.mem_cons_of_mem _ member))) (Nat.le_add_right ..))
    · simp only [List.count_append, List.count_cons]
      omega

/-- The last handle of a storage is traded for the handles in it. -/
theorem unwrap (owned : memory.Owned (address :: atWork)) (unique : memory.owners address = 1) :
    (memory.setOwners address 0).Owned (handles (memory.contents address) ++ atWork) := by
  have alive : memory.owners address ≠ 0 := by omega
  intro other
  have held := memory.held_setOwners address 0 alive other
  have counts := owned other
  rw [if_pos rfl] at held
  rw [List.count_append]
  by_cases same : other = address
  · subst same
    rw [owners_setOwners_self _ _ _ (owners_inside alive)]
    rw [List.count_cons_self] at counts
    omega
  · rw [owners_setOwners_of_ne _ _ same]
    rw [List.count_cons_of_ne (Ne.symm same)] at counts
    omega

/-- One of several handles of a storage is given up. -/
theorem drop (owned : memory.Owned (address :: atWork)) {owners : Nat}
    (shared : memory.owners address = owners + 2) :
    (memory.setOwners address (owners + 1)).Owned atWork := by
  have alive : memory.owners address ≠ 0 := by omega
  intro other
  have held := memory.held_setOwners address (owners + 1) alive other
  have counts := owned other
  rw [if_neg (Nat.succ_ne_zero _), Nat.add_zero] at held
  by_cases same : other = address
  · subst same
    rw [owners_setOwners_self _ _ _ (owners_inside alive)]
    rw [List.count_cons_self] at counts
    omega
  · rw [owners_setOwners_of_ne _ _ same]
    rw [List.count_cons_of_ne (Ne.symm same)] at counts
    omega

theorem release (values : List Value) (owned : memory.Owned (handles values ++ atWork)) :
    (memory.release values).Owned atWork := by
  fun_induction Memory.release memory values with
  | case1 => exact owned
  | case2 memory value pending notStored inductionHypothesis =>
    refine inductionHypothesis (owned.of_count _ fun address => ?_)
    rw [handles, List.filterMap_cons_none notStored]
    rfl
  | case3 memory value pending address stored unowned inductionHypothesis =>
    refine absurd unowned (owned.alive_of_mem ?_)
    rw [handles, List.filterMap_cons_some stored]
    exact List.mem_cons_self
  | case4 memory value pending address stored unique elements inductionHypothesis =>
    rw [handles, List.filterMap_cons_some stored] at owned
    rw [handles_append, List.append_assoc] at inductionHypothesis
    exact inductionHypothesis (unwrap owned unique)
  | case5 memory value pending address stored owners shared inductionHypothesis =>
    rw [handles, List.filterMap_cons_some stored] at owned
    exact inductionHypothesis (drop owned shared)

/-- A new storage owns its elements. -/
theorem add (owned : memory.Owned (handles elements.toList ++ atWork)) (excess : UInt64) :
    (memory.add ⟨elements, excess, 1, 0⟩).Owned (memory.storages.size :: atWork) := by
  intro address
  have held := memory.held_add ⟨elements, excess, 1, 0⟩ address
  have holds : Storage.holds address ⟨elements, excess, 1, 0⟩ =
      (handles elements.toList).count address := if_neg Nat.one_ne_zero
  have counts := owned address
  rw [List.count_append] at counts
  by_cases fresh : address = memory.storages.size
  · subst fresh
    have outside : memory.owners memory.storages.size = 0 :=
      congrArg Storage.owners (memory.storage_of_outside _ (Nat.le_refl _))
    have owners := congrArg Storage.owners (memory.storage_add_fresh ⟨elements, excess, 1, 0⟩)
    rw [List.count_cons_self, Memory.owners, owners]
    simp only
    omega
  · have owners := congrArg Storage.owners
      (memory.storage_add_of_ne ⟨elements, excess, 1, 0⟩ fresh)
    rw [List.count_cons_of_ne (Ne.symm fresh), Memory.owners, owners]
    change memory.owners address = _
    omega

end Owned

end Memory

end SolidScript
