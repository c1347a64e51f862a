/-
This file proves that storages never hold one another in a cycle, in whatever order vectors are
appended to one another and to themselves, taken over, copied and flattened, and that everything
that follows handles through storages comes to an end for this reason. A storage with owners denotes
a tree. A tree has finite height, and the placeholders of a storage are expanded in finitely many
steps, so the handles that start from it run out.
-/

import Mathlib.Order.WellFounded
import SolidScript.Proofs.Supporting

namespace SolidScript

open Value (handles)

/-- A storage with owners holds a handle to the other one, as an element or in a placeholder. -/
def Memory.Holds (memory : Memory) (outer inner : Address) : Prop :=
  memory.owners outer ≠ 0 ∧ inner ∈ handles (memory.contents outer)

/-- From the storage on, handles run out. -/
abbrev Memory.Bounded (memory : Memory) (address : Address) : Prop :=
  Acc (fun inner outer => memory.Holds outer inner) address

/-! ### Handles run out -/

variable {memory : Memory}

theorem Memory.bounded_of_contents {address : Address}
    (contents : ∀ handle ∈ handles (memory.contents address), memory.Bounded handle) :
    memory.Bounded address :=
  .intro address fun handle holds => contents handle holds.2

/-- If handles run out from the elements on, they do from what is stored on: placeholders hold
elements only. -/
theorem Expands.bounded {stored elements : List Value} (expands : Expands memory stored elements)
    (bounded : ∀ handle ∈ handles elements, memory.Bounded handle) :
    ∀ handle ∈ handles stored, memory.Bounded handle := by
  induction expands with
  | nil => exact bounded
  | @plain value stored elements _ _ inductionHypothesis =>
    rw [handles_cons] at bounded ⊢
    intro handle member
    rcases List.mem_append.mp member with first | later
    · exact bounded handle (List.mem_append_left _ first)
    · exact inductionHypothesis
        (fun other found => bounded other (List.mem_append_right _ found)) handle later
  | @splice address stored inner elements _ _ _ innerHypothesis restHypothesis =>
    rw [handles_append] at bounded
    intro handle member
    rcases List.mem_cons.mp member with rfl | later
    · exact Memory.bounded_of_contents
        (innerHypothesis fun other found => bounded other (List.mem_append_left _ found))
    · exact restHypothesis
        (fun other found => bounded other (List.mem_append_right _ found)) handle later

theorem Shows.bounded {address : Address} {elements : List Value} {items : List Tree}
    (shows : Shows memory address elements items)
    (each : ∀ item ∈ items, ∀ {value}, Denotes memory value item →
      ∀ handle ∈ handles [value], memory.Bounded handle) : memory.Bounded address := by
  refine Memory.bounded_of_contents (shows.expands.bounded fun handle member => ?_)
  obtain ⟨value, inElements, stored⟩ := List.mem_filterMap.mp member
  obtain ⟨item, inItems, denotes⟩ := exists_mem_of_forall₂ shows.each inElements
  exact each item inItems denotes handle
    (List.mem_filterMap.mpr ⟨value, List.mem_cons_self, stored⟩)

/-- From whatever denotes a tree, handles run out. The induction is on the tree. -/
theorem Denotes.bounded {value : Value} {tree : Tree} (denotes : Denotes memory value tree) :
    ∀ handle ∈ handles [value], memory.Bounded handle := by
  induction tree using Tree.induct generalizing value with
  | vector items inductionHypothesis =>
    cases denotes with
    | vector inside expands each =>
      intro handle member
      rw [List.mem_singleton.mp member]
      exact Shows.bounded ⟨inside, expands, each⟩ inductionHypothesis
  | embedded items inductionHypothesis =>
    cases denotes with
    | embedded inside expands each =>
      intro handle member
      rw [List.mem_singleton.mp member]
      exact Shows.bounded ⟨inside, expands, each⟩ inductionHypothesis
  | _ =>
    cases denotes
    exact fun _ member => absurd member List.not_mem_nil

namespace Sound

variable {sure : Prop} {atWork : List Address}

/-- A storage without owners holds nothing, and one with owners denotes a tree. -/
theorem wellFounded (sound : Sound sure memory atWork) :
    WellFounded fun inner outer => memory.Holds outer inner := by
  refine ⟨fun address => ?_⟩
  by_cases alive : memory.owners address = 0
  · exact .intro address fun _ holds => absurd alive holds.1
  · obtain ⟨elements, items, shows⟩ := sound.shows alive
    exact shows.vector.bounded address List.mem_cons_self

theorem acyclic (sound : Sound sure memory atWork) (address : Address) :
    ¬ Relation.TransGen memory.Holds address address := by
  intro cycle
  exact sound.wellFounded.transGen.irrefl.irrefl address (Relation.transGen_swap.mpr cycle)

end Sound

/-! ### Everything that follows handles ends -/

namespace Workspace

variable {workspace : Workspace}

/-- Storages hold one another without cycles, and steps, walks, flattening, comparisons, texts and
all operations come to an end. -/
structure Grounded (workspace : Workspace) : Prop where
  acyclic : ∀ address, ¬ Relation.TransGen workspace.memory.Holds address address
  wellFounded : WellFounded fun inner outer => workspace.memory.Holds outer inner
  /-- What the workspace leads to, and what is stored in it, is among the values below. -/
  supports : ∀ value, workspace.Reaches value → workspace.memory.Supports value
  stored : ∀ address, workspace.memory.owners address ≠ 0 →
    ∀ value ∈ workspace.memory.contents address, workspace.memory.Supports value
  step : ∀ action, ∃ outcome, step action workspace = some outcome
  next : ∀ walk, workspace.Walks walk →
    ∃ drawn left, workspace.memory.next walk = some (drawn, left)
  collect : ∀ walk, workspace.Walks walk →
    ∃ elements, workspace.memory.collect #[] walk = some elements
  list : ∀ address, workspace.memory.owners address ≠ 0 →
    ∃ elements, workspace.memory.list address = some elements
  flatten : ∀ address, workspace.memory.owners address ≠ 0 →
    (Memory.flatten address).Ends workspace.memory fun _ after => after.excess address = 0
  equals : ∀ a b, workspace.memory.Supports a → workspace.memory.Supports b →
    ∃ flag, a.equals workspace.memory b = some flag
  relate : ∀ relation a b, workspace.memory.Supports a → workspace.memory.Supports b →
    ∃ flag, a.relate workspace.memory relation b = some flag
  write : ∀ value, workspace.memory.Supports value →
    (∃ text, value.shown workspace.memory = some text) ∧
      (∃ text, value.echoed workspace.memory = some text) ∧
      (∃ text, value.written workspace.memory = some text) ∧
      ∃ text, value.inspected workspace.memory = some text
  perform : ∀ operation : Operation Value,
    (∀ operand ∈ operation.operands, workspace.memory.Supports operand) →
      ∃ answer after,
        operation.perform (workspace.memory.retain operation.operands) = some (answer, after)

/-- In every workspace that is reached, storages hold one another without cycles, and everything
that follows handles through them ends, for every value that there can be. -/
theorem reached_grounded (reached : workspace.Reached) : workspace.Grounded := by
  obtain ⟨followed, plain, represents⟩ := reached.represents
  have sound := represents.sound
  refine {
    acyclic := sound.acyclic
    wellFounded := sound.wellFounded
    supports := fun value reaches => reaches.supports represents
    stored := fun address alive value => sound.supports_stored alive
    step := fun action => (step_refines represents action).exists_outcome
    next := fun walk walks => ?_
    collect := fun walk walks => ?_
    list := fun address alive => ?_
    flatten := fun address alive => ?_
    equals := fun a b first second => ?_
    relate := fun relation a b first second => ?_
    write := fun value supports => ?_
    perform := fun operation supports => ?_ }
  · obtain ⟨drawn, left, ends, -⟩ := walks.next_ends represents
    exact ⟨drawn, left, ends⟩
  · obtain ⟨elements, ends, -⟩ := walks.collect_ends represents
    exact ⟨elements, ends⟩
  · obtain ⟨elements, items, shows⟩ := sound.shows alive
    exact ⟨_, Memory.list_eq shows.inside shows.expands⟩
  · exact (Memory.flatten_ends sound alive).imp fun _ _ flattened => flattened.2.2
  · obtain ⟨x, denotesFirst⟩ := first.denotes sound
    obtain ⟨y, denotesSecond⟩ := second.denotes sound
    exact Value.equals_ends denotesFirst denotesSecond
  · obtain ⟨x, denotesFirst⟩ := first.denotes sound
    obtain ⟨y, denotesSecond⟩ := second.denotes sound
    exact ⟨_, Value.relate_eq relation denotesFirst denotesSecond⟩
  · obtain ⟨tree, denotes⟩ := supports.denotes sound
    exact ⟨⟨_, Value.shown_eq denotes⟩, ⟨_, Value.echoed_eq denotes⟩,
      ⟨_, Value.written_eq denotes⟩, ⟨_, Value.inspected_eq denotes⟩⟩
  · obtain ⟨answer, after, ends, -⟩ := Operation.performed supports sound
    exact ⟨answer, after, ends⟩

unseal Memory.release in
/-- A vector of which there is a copy is appended to itself. What grows is another storage, which
holds the first one. -/
theorem reached_grounded_doubled :
    ∃ workspace : Workspace, workspace.Reached ∧ workspace.registers = [1, 0] ∧
      workspace.memory.contents 0 = [.number 1, .number 2] ∧
      workspace.memory.contents 1 = [.number 1, .number 2, .embedded 0] ∧ workspace.Grounded := by
  have reached : ∃ reports workspace,
      run [.fill [.number 1, .number 2], .copy 0, .double 0 1] empty =
          some (.ok (reports, workspace)) ∧ workspace.registers = [1, 0] ∧
        workspace.memory.contents 0 = [.number 1, .number 2] ∧
        workspace.memory.contents 1 = [.number 1, .number 2, .embedded 0] :=
    ⟨_, _, rfl, rfl, rfl, rfl⟩
  obtain ⟨reports, workspace, ran, registers, first, second⟩ := reached
  exact ⟨workspace, ⟨_, _, ran⟩, registers, first, second, reached_grounded ⟨_, _, ran⟩⟩

end Workspace

end SolidScript
