/-
This file says which values a memory supports: those whose storage, if they refer to one, has
owners. These are all values that can be at hand in a workspace, placeholders among them, whether
the workspace holds them itself or they are stored in a vector. Supported values denote trees, so
that operations on copies of them end, and so do walks that started from a storage with owners.
-/

import SolidScript.Proofs.Runs

namespace SolidScript

open Value (handles)

/-- The storage that the value refers to has owners, and a range is the one of its identity. -/
structure Memory.Supports (memory : Memory) (value : Value) : Prop where
  alive : ∀ handle ∈ handles [value], memory.owners handle ≠ 0
  registers : ∀ range, value = .range range → memory.Registers range

namespace Memory.Supports

variable {sure : Prop} {memory : Memory} {atWork : List Address}

theorem of_denotes {value : Value} {tree : Tree} (denotes : Denotes memory value tree)
    (alive : ∀ handle ∈ handles [value], memory.owners handle ≠ 0) : memory.Supports value := by
  refine ⟨alive, ?_⟩
  rintro range rfl
  cases denotes with
  | range registers => exact registers

theorem vector {address : Address} (alive : memory.owners address ≠ 0) :
    memory.Supports (.vector address) where
  alive _ member := List.mem_singleton.mp member ▸ alive
  registers _ same := Value.noConfusion same

/-- Whatever a memory supports denotes a tree. -/
theorem denotes {value : Value} (supports : memory.Supports value)
    (sound : Sound sure memory atWork) :
    ∃ tree, Denotes memory value tree := by
  cases value with
  | undefined => exact ⟨_, .undefined⟩
  | bool flag => exact ⟨_, .bool flag⟩
  | number x => exact ⟨_, .number x⟩
  | text text => exact ⟨_, .text text⟩
  | range range => exact ⟨_, .range (supports.registers range rfl)⟩
  | function closure => exact ⟨_, .function closure⟩
  | vector address =>
    obtain ⟨elements, items, shows⟩ := sound.shows (supports.alive address List.mem_cons_self)
    exact ⟨_, shows.vector⟩
  | embedded address =>
    obtain ⟨elements, items, shows⟩ := sound.shows (supports.alive address List.mem_cons_self)
    exact ⟨_, shows.embedded⟩

theorem alive_of_mem {values : List Value} (supports : ∀ value ∈ values, memory.Supports value) :
    ∀ handle ∈ handles values, memory.owners handle ≠ 0 := by
  intro handle member
  obtain ⟨value, inValues, stored⟩ := List.mem_filterMap.mp member
  exact (supports value inValues).alive handle
    (List.mem_filterMap.mpr ⟨value, List.mem_cons_self, stored⟩)

/-- Supported values can be worked on once they are copied. -/
theorem copied {values : List Value} (supports : ∀ value ∈ values, memory.Supports value)
    (sound : Sound sure memory atWork) :
    Sound sure (memory.retain values) (handles values ++ atWork) ∧
      Evolves [] [] memory (memory.retain values) :=
  ⟨sound.retain values (alive_of_mem supports), .of_reowned sound (memory.reowned_retain values)⟩

theorem each {values : List Value} (supports : ∀ value ∈ values, memory.Supports value)
    (sound : Sound sure memory atWork) : ∃ trees, List.Forall₂ (Denotes memory) values trees := by
  induction values with
  | nil => exact ⟨[], .nil⟩
  | cons value values inductionHypothesis =>
    obtain ⟨tree, denotes⟩ := (supports value List.mem_cons_self).denotes sound
    obtain ⟨trees, rest⟩ :=
      inductionHypothesis fun other member => supports other (List.mem_cons_of_mem _ member)
    exact ⟨tree :: trees, .cons denotes rest⟩

end Memory.Supports

/-- Whatever is stored with an owner is supported, placeholders included. -/
theorem Sound.supports_stored {sure : Prop} {memory : Memory} {atWork : List Address}
    (sound : Sound sure memory atWork) {address : Address} (alive : memory.owners address ≠ 0)
    {value : Value} (stored : value ∈ memory.contents address) : memory.Supports value := by
  refine ⟨fun handle inValue => sound.enclosed_alive.closed address alive handle
    ((handles_sublist (List.singleton_sublist.mpr stored)).subset inValue), ?_⟩
  rintro range rfl
  obtain ⟨elements, items, shows⟩ := sound.shows alive
  obtain ⟨tree, denotes⟩ :=
    exists_of_forall₂_of_mem shows.each (shows.expands.mem_of_direct stored rfl)
  cases denotes with
  | range registers => exact registers

/-! ### Operations -/

namespace Operation

variable {sure : Prop} {memory : Memory} {atWork : List Address}

/-- Operands are paired with the trees that they denote. -/
theorem exists_pairs {operation : Operation Value}
    (denotes : ∀ operand ∈ operation.operands, ∃ tree, Denotes memory operand tree) :
    ∃ pairs : Operation (Value × Tree), pairs.map Prod.fst = operation ∧
      ∀ pair ∈ pairs.operands, pair.1 ∈ operation.operands ∧ Denotes memory pair.1 pair.2 := by
  have each : ∀ operand, ∃ tree, operand ∈ operation.operands → Denotes memory operand tree := by
    intro operand
    by_cases member : operand ∈ operation.operands
    · obtain ⟨tree, one⟩ := denotes operand member
      exact ⟨tree, fun _ => one⟩
    · exact ⟨.undefined, fun found => absurd found member⟩
  choose trees paired using each
  refine ⟨operation.map fun operand => (operand, trees operand),
    Workspace.map_fst_pairs operation trees, fun pair member => ?_⟩
  rw [Operation.operands_map] at member
  obtain ⟨operand, inOperands, rfl⟩ := List.mem_map.mp member
  exact ⟨inOperands, paired operand inOperands⟩

/-- An operation on copies of supported values ends, and its answer means something. -/
theorem performed {operation : Operation Value}
    (supports : ∀ operand ∈ operation.operands, memory.Supports operand)
    (sound : Sound sure memory atWork) :
    operation.perform.Ends (memory.retain operation.operands) fun answer after =>
      ∃ clear expected, Performed sure clear (memory.retain operation.operands)
        (handles operation.operands ++ atWork) expected answer after := by
  obtain ⟨copied, evolves⟩ := Memory.Supports.copied supports sound
  obtain ⟨pairs, rfl, found⟩ := exists_pairs fun operand member =>
    (supports operand member).denotes sound
  refine (pairs.perform_ends copied (fun pair member handle inPair => ?_)
    fun pair member => evolves.denotes (found pair member).2).imp
      fun _ _ ⟨expected, performed, _⟩ => ⟨_, expected, performed⟩
  exact List.mem_append_left _
    ((handles_sublist (List.singleton_sublist.mpr (found pair member).1)).subset inPair)

end Operation

namespace Workspace

variable {silent followed : Prop} {walks : List PlainWalk} {workspace : Workspace} {plain : Plain}

/-- Whatever a workspace leads to is supported. -/
theorem Reaches.supports (represents : Represents silent followed walks [] workspace plain)
    {value : Value} (reaches : workspace.Reaches value) : workspace.memory.Supports value := by
  obtain ⟨⟨tree, denotes⟩, alive⟩ := reaches.denotes represents
  exact .of_denotes denotes alive

/-! ### Walks -/

/-- The walks of a workspace: those under way, and those that start from a storage with owners, as
far as they are taken. -/
inductive Walks (workspace : Workspace) : Walk → Prop
  | held {walk : Walk} (member : walk ∈ workspace.walks) : Walks workspace walk
  | start {address : Address} (alive : workspace.memory.owners address ≠ 0) :
      Walks workspace (workspace.memory.walk address)
  | next {walk left : Walk} {drawn : Option Value} (walks : Walks workspace walk)
      (draws : workspace.memory.next walk = some (drawn, left)) : Walks workspace left

theorem Walks.follows (represents : Represents silent followed walks [] workspace plain)
    {walk : Walk} (reached : workspace.Walks walk) :
    ∃ items, Follows workspace.memory walk items := by
  induction reached with
  | held member =>
    obtain ⟨plain, continues⟩ := exists_of_forall₂_of_mem represents.walks member
    exact ⟨_, continues.follows⟩
  | start alive =>
    obtain ⟨elements, items, shows⟩ := represents.sound.shows alive
    exact ⟨items, .start shows⟩
  | @next walk left drawn _ draws inductionHypothesis =>
    obtain ⟨items, follows⟩ := inductionHypothesis
    cases items with
    | nil =>
      rw [follows.next_nil] at draws
      cases draws
      exact ⟨[], .ended _⟩
    | cons item items =>
      obtain ⟨value, rest, found, _, _, further⟩ := follows.next_cons
      rw [found] at draws
      cases draws
      exact ⟨items, further⟩

/-- A walk gives another element or ends. What it gives is no placeholder and denotes a tree. -/
theorem Walks.next_ends (represents : Represents silent followed walks [] workspace plain)
    {walk : Walk} (reached : workspace.Walks walk) :
    ∃ drawn left, workspace.memory.next walk = some (drawn, left) ∧
      ∀ value ∈ drawn, value.isEmbedded = false ∧ ∃ tree, Denotes workspace.memory value tree := by
  obtain ⟨items, follows⟩ := reached.follows represents
  cases items with
  | nil =>
    exact ⟨none, [], follows.next_nil, fun _ member => absurd member (Option.not_mem_none _)⟩
  | cons item items =>
    obtain ⟨value, left, found, direct, denotes, _⟩ := follows.next_cons
    exact ⟨some value, left, found, fun _ member =>
      Option.some.inj member ▸ ⟨direct, item, denotes⟩⟩

theorem Walks.collect_ends (represents : Represents silent followed walks [] workspace plain)
    {walk : Walk} (reached : workspace.Walks walk) :
    ∃ elements, workspace.memory.collect #[] walk = some elements ∧
      ∀ value ∈ elements, value.isEmbedded = false ∧
        ∃ tree, Denotes workspace.memory value tree := by
  obtain ⟨items, follows⟩ := reached.follows represents
  obtain ⟨elements, collected, direct, each⟩ := follows.collect
  refine ⟨_, collected, fun value member => ?_⟩
  have found := List.mem_toArray.mp member
  exact ⟨direct value found, exists_of_forall₂_of_mem each found⟩

end Workspace

end SolidScript
