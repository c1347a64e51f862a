/-
This file proves that placeholders do not get out. Whatever is drawn from a walk or computed is no
placeholder, even if it is asked of one, and none is found among the elements of vectors at any
depth. The elements of a storage are what its placeholders stand for, so a placeholder is seen only
by whoever reads what is stored. What is found by position or read in a slice is read there, once
the storage is flat; that it holds no placeholder then rests on its counter, so it is so as long as
words can count the elements.
-/

import Mathlib.Logic.Relation
import SolidScript.Proofs.Supporting

namespace SolidScript

open Value (handles)

namespace Memory

/-- A walk through the vector passes the value. A placeholder is walked like the vector that it
stands for. -/
def HasElement (memory : Memory) (vector value : Value) : Prop :=
  ∃ address elements, vector.storage? = some address ∧ memory.list address = some elements ∧
    value ∈ elements

/-- The value is no placeholder, and none is among its elements at any depth. -/
structure Clear (memory : Memory) (value : Value) : Prop where
  direct : value.isEmbedded = false
  within : ∀ inner, Relation.TransGen memory.HasElement value inner → inner.isEmbedded = false

end Memory

/-- The value that an operation finds an element of. -/
def Operation.searched? : Operation Value → Option Value
  | index a _ => some a
  | indexAt a _ => some a
  | _ => none

theorem Operation.mem_operands_of_searched {operation : Operation Value} {vector : Value}
    (searched : vector ∈ operation.searched?) : vector ∈ operation.operands := by
  cases operation with
  | index | indexAt => exact Option.some.inj searched ▸ List.mem_cons_self
  | _ => contradiction

/-! ### Elements at any depth -/

variable {memory : Memory} {value inner : Value} {tree : Tree}

namespace Denotes

/-- The elements of what denotes a tree are no placeholders, and denote trees in turn. -/
theorem element (denotes : Denotes memory value tree) (element : memory.HasElement value inner) :
    inner.isEmbedded = false ∧ ∃ item, Denotes memory inner item := by
  obtain ⟨address, elements, stored, lists, member⟩ := element
  obtain ⟨shown, shows⟩ := denotes.shows_items stored
  obtain rfl := Option.some.inj (lists.symm.trans (Memory.list_eq shows.inside shows.expands))
  have inShown := List.mem_toArray.mp member
  exact ⟨shows.expands.direct inner inShown, exists_of_forall₂_of_mem shows.each inShown⟩

/-- So are and do the elements of their elements. The induction is on the way down. -/
theorem within (denotes : Denotes memory value tree)
    (within : Relation.TransGen memory.HasElement value inner) :
    inner.isEmbedded = false ∧ ∃ item, Denotes memory inner item := by
  induction within with
  | single element => exact denotes.element element
  | tail _ element inductionHypothesis =>
    obtain ⟨_, item, outer⟩ := inductionHypothesis
    exact outer.element element

theorem clear (denotes : Denotes memory value tree) (direct : value.isEmbedded = false) :
    memory.Clear value :=
  ⟨direct, fun _ within => (denotes.within within).1⟩

end Denotes

theorem clear_of_forall₂ {values : List Value} {trees : List Tree}
    (each : List.Forall₂ (Denotes memory) values trees)
    (direct : ∀ value ∈ values, value.isEmbedded = false) :
    ∀ value ∈ values, memory.Clear value := by
  intro value member
  obtain ⟨tree, denotes⟩ := exists_of_forall₂_of_mem each member
  exact denotes.clear (direct value member)

/-! ### Elements found by position -/

variable {sure : Prop} {atWork : List Address}

theorem Value.Obtains.clear {small : Prop} {expected : Tree × List Warning} {result : Value}
    {after : Memory} (obtains : Obtains True small memory atWork expected result after)
    (holds : small) : after.Clear result := by
  obtain ⟨_, _, _, denotes, _, exact'⟩ := obtains
  exact denotes.clear (exact' trivial holds).1

/-! ### Answers of operations -/

/-- What is answered under another name than that of a value is no value. -/
theorem clear_of_noValue {α : Type} {action : Action α} {answer : α → Answer Value}
    {condition : Answer Value → Memory → Prop}
    (noValue : ∀ found value, answer found ≠ .value value)
    (ends : (answer <$> action : Action (Answer Value)).Ends memory condition) :
    (answer <$> action : Action (Answer Value)).Ends memory
      fun answer after => ∀ value, answer = .value value → after.Clear value := by
  have named : (answer <$> action : Action (Answer Value)).Maintains (fun _ => True)
      fun answer => ∀ value, answer ≠ .value value :=
    .map fun _ _ found _ _ => ⟨trivial, noValue found⟩
  exact (ends.and_leads (named memory trivial)).imp
    fun _ _ ⟨_, _, apart⟩ value same => absurd same (apart value)

/-- Operations answer no placeholder, if words can count the elements of the value that they find an
element of. The operands are given as pairs of values and trees. -/
theorem Operation.perform_clear (operation : Operation (Value × Tree))
    (sound : Sound True memory atWork)
    (held : ∀ pair ∈ operation.operands, ∀ handle ∈ handles [pair.1], handle ∈ atWork)
    (denotes : ∀ pair ∈ operation.operands, Denotes memory pair.1 pair.2)
    (countable : ∀ vector ∈ (operation.map Prod.fst).searched?, memory.Countable vector) :
    (operation.map Prod.fst).perform.Ends memory
      fun answer after => ∀ value, answer = .value value → after.Clear value := by
  have ends := operation.perform_ends sound held denotes
  have given : ∀ {action : Action Value},
      (action.Ends memory fun result after => after.Clear result) →
        (Answer.value <$> action : Action (Answer Value)).Ends memory
          fun answer after => ∀ value, answer = .value value → after.Clear value :=
    fun clears => .map (clears.imp fun _ _ clear _ same => Answer.value.inj same ▸ clear)
  cases operation with
  | binary operator a b =>
    refine given ((operator.evaluate_ends sound (held a List.mem_cons_self)
      (held b (List.mem_cons_of_mem _ List.mem_cons_self)) (denotes a List.mem_cons_self)
      (denotes b (List.mem_cons_of_mem _ List.mem_cons_self))).imp ?_)
    rintro _ _ ⟨_, _, computes, _⟩
    exact computes.denotes.clear computes.direct
  | unary operator a =>
    obtain ⟨_, builds, _⟩ := operator.evaluate_builds sound (held a List.mem_cons_self)
      (denotes a List.mem_cons_self)
    exact given (builds.imp fun _ _ builds => builds.denotes.clear builds.direct)
  | index a b =>
    have first := denotes a List.mem_cons_self
    have second := denotes b (List.mem_cons_of_mem _ List.mem_cons_self)
    obtain ⟨value, tree⟩ := a
    obtain ⟨position, place⟩ := b
    cases second with
    | number =>
      exact given ((Value.elementAt_ends sound (held (value, tree) List.mem_cons_self) first
        _).imp fun _ _ obtains => obtains.clear (countable value rfl))
    | _ => exact given (.pure (Denotes.undefined.clear rfl))
  | indexAt a position =>
    exact given ((Value.elementAt_ends sound (held a List.mem_cons_self)
      (denotes a List.mem_cons_self) _).imp fun _ _ obtains => obtains.clear (countable a.1 rfl))
  | _ => exact clear_of_noValue (fun _ _ same => nomatch same) ends

/-! ### What workspaces give -/

namespace Workspace

variable {workspace : Workspace}

/-- No placeholder is given by anything that is done with the values of a workspace, placeholders
among them. Whatever is worked on is copied for the work. -/
structure Concealing (workspace : Workspace) : Prop where
  elements : ∀ value, workspace.memory.Supports value → ∀ inner,
    Relation.TransGen workspace.memory.HasElement value inner → inner.isEmbedded = false
  drawing : ∀ walk, workspace.Walks walk → ∃ drawn left,
    workspace.memory.next walk = some (drawn, left) ∧
      ∀ value ∈ drawn, workspace.memory.Clear value
  collecting : ∀ walk, workspace.Walks walk → ∃ elements,
    workspace.memory.collect #[] walk = some elements ∧
      ∀ value ∈ elements, workspace.memory.Clear value
  /-- Access by position gives the elements that a walk gives as long as words can count these. -/
  position : ∀ address, workspace.memory.owners address ≠ 0 →
    workspace.memory.Countable (.vector address) → ∀ position,
      (Memory.element address position).Ends (workspace.memory.retain [.vector address])
        fun value after => after.Clear value
  slice : ∀ address, workspace.memory.owners address ≠ 0 →
    workspace.memory.Countable (.vector address) →
      (Memory.slice address).Ends (workspace.memory.retain [.vector address])
        fun elements after => ∀ value ∈ elements, after.Clear value
  operation : ∀ operation : Operation Value,
    (∀ operand ∈ operation.operands, workspace.memory.Supports operand) →
    (∀ vector ∈ operation.searched?, workspace.memory.Countable vector) →
      operation.perform.Ends (workspace.memory.retain operation.operands)
        fun answer after => ∀ value, answer = .value value → after.Clear value
  making : ∀ values, (∀ value ∈ values, workspace.memory.Supports value) →
    (Memory.newVector values).Ends (workspace.memory.retain values)
      fun address after => after.Clear (.vector address)
  gathering : ∀ values, (∀ value ∈ values, workspace.memory.Supports value) →
    (do Memory.extend (← Memory.create) values : Action Address).Ends
      (workspace.memory.retain values) fun address after => after.Clear (.vector address)
  extending : ∀ address values, workspace.memory.owners address ≠ 0 →
    (∀ value ∈ values, workspace.memory.Supports value) →
      (Memory.extend address values).Ends (workspace.memory.retain (.vector address :: values))
        fun extended after => after.Clear (.vector extended)

section Copies

variable (sound : Sound sure workspace.memory workspace.roots)

include sound

/-- Copies of supported values denote trees, and no slice was borrowed to make them. -/
theorem copies_denote (idle : workspace.memory.Idle) {values : List Value}
    (supports : ∀ value ∈ values, workspace.memory.Supports value) :
    Sound sure (workspace.memory.retain values) (handles values ++ workspace.roots) ∧
      (workspace.memory.retain values).Idle ∧
      ∃ trees, List.Forall₂ (Denotes (workspace.memory.retain values)) values trees := by
  obtain ⟨copied, evolves⟩ := Memory.Supports.copied supports sound
  obtain ⟨trees, each⟩ := Memory.Supports.each supports sound
  exact ⟨copied, Memory.idle_of_steady idle evolves.steady, trees, evolves.each each⟩

/-- A copy of a vector shows the elements of the vector. -/
theorem copy_shows {address : Address} (alive : workspace.memory.owners address ≠ 0) :
    ∃ elements items,
      Sound sure (workspace.memory.retain [.vector address]) (address :: workspace.roots) ∧
        Shows workspace.memory address elements items ∧
        Shows (workspace.memory.retain [.vector address]) address elements items := by
  have supports : ∀ value ∈ [Value.vector address], workspace.memory.Supports value :=
    fun _ member => List.mem_singleton.mp member ▸ Memory.Supports.vector alive
  obtain ⟨copied, evolves⟩ := Memory.Supports.copied supports sound
  obtain ⟨elements, items, shows⟩ := sound.shows alive
  exact ⟨elements, items, copied, shows, evolves.shows shows⟩

/-- A vector is clear that values were gathered into one by one. -/
theorem gathered_clear (idle : workspace.memory.Idle) {values : List Value}
    (supports : ∀ value ∈ values, workspace.memory.Supports value) :
    (do Memory.extend (← Memory.create) values : Action Address).Ends
      (workspace.memory.retain values) fun address after => after.Clear (.vector address) := by
  obtain ⟨copied, idle, trees, each⟩ := copies_denote sound idle supports
  refine (Memory.create_ends copied).bind fun result created started => ?_
  obtain ⟨_, createdSound, evolves, shows, _⟩ := started
  refine (Memory.extend_ends createdSound shows.vector (evolves.each each)
    (Memory.idle_of_steady idle evolves.steady)).imp ?_
  rintro _ _ ⟨_, grows, _⟩
  exact grows.denotes.clear rfl

theorem extended_clear (idle : workspace.memory.Idle) {address : Address} {values : List Value}
    (alive : workspace.memory.owners address ≠ 0)
    (supports : ∀ value ∈ values, workspace.memory.Supports value) :
    (Memory.extend address values).Ends (workspace.memory.retain (.vector address :: values))
      fun extended after => after.Clear (.vector extended) := by
  have supportsAll : ∀ value ∈ .vector address :: values, workspace.memory.Supports value := by
    intro value member
    rcases List.mem_cons.mp member with rfl | later
    · exact .vector alive
    · exact supports value later
  obtain ⟨copied, idle, trees, each⟩ := copies_denote sound idle supportsAll
  cases each with
  | cons denotes each =>
    obtain ⟨elements, items, rfl, shows⟩ := denotes_vector_iff.mp denotes
    refine (Memory.extend_ends copied denotes each idle).imp ?_
    rintro _ _ ⟨_, grows, _⟩
    exact grows.denotes.clear rfl

end Copies

theorem operation_clear (sound : Sound True workspace.memory workspace.roots)
    {operation : Operation Value}
    (supports : ∀ operand ∈ operation.operands, workspace.memory.Supports operand)
    (countable : ∀ vector ∈ operation.searched?, workspace.memory.Countable vector) :
    operation.perform.Ends (workspace.memory.retain operation.operands)
      fun answer after => ∀ value, answer = .value value → after.Clear value := by
  obtain ⟨copied, evolves⟩ := Memory.Supports.copied supports sound
  obtain ⟨pairs, rfl, found⟩ := Operation.exists_pairs fun operand member =>
    (supports operand member).denotes sound
  refine pairs.perform_clear copied (fun pair member handle inPair => ?_)
    (fun pair member => evolves.denotes (found pair member).2) fun vector searched => ?_
  · exact List.mem_append_left _
      ((handles_sublist (List.singleton_sublist.mpr (found pair member).1)).subset inPair)
  · obtain ⟨tree, denotes⟩ :=
      (supports vector (Operation.mem_operands_of_searched searched)).denotes sound
    exact (countable vector searched).evolved denotes evolves

/-- In every workspace that is reached, placeholders stay where they are stored. -/
theorem reached_concealing (reached : workspace.Reached) (fits : workspace.memory.Fits) :
    workspace.Concealing := by
  obtain ⟨followed, plain, represents⟩ := reached.represents
  have sound := reached.sound fits
  have idle := represents.idle
  refine {
    elements := fun value supports inner within => ?_
    drawing := fun walk walks => ?_
    collecting := fun walk walks => ?_
    position := fun address alive countable position => ?_
    slice := fun address alive countable => ?_
    operation := fun operation => operation_clear sound
    making := fun values supports => ?_
    gathering := fun values supports => gathered_clear sound idle supports
    extending := fun address values alive supports => extended_clear sound idle alive supports }
  · obtain ⟨tree, denotes⟩ := supports.denotes sound
    exact (denotes.within within).1
  · obtain ⟨drawn, left, ends, found⟩ := walks.next_ends represents
    refine ⟨drawn, left, ends, fun value member => ?_⟩
    obtain ⟨direct, tree, denotes⟩ := found value member
    exact denotes.clear direct
  · obtain ⟨elements, ends, found⟩ := walks.collect_ends represents
    refine ⟨elements, ends, fun value member => ?_⟩
    obtain ⟨direct, tree, denotes⟩ := found value member
    exact denotes.clear direct
  · obtain ⟨elements, items, copied, shows, later⟩ := copy_shows sound alive
    exact (Value.element_obtains copied List.mem_cons_self later position).imp
      fun _ _ obtains => obtains.clear (countable.few shows.vector)
  · obtain ⟨elements, items, copied, shows, later⟩ := copy_shows sound alive
    refine (Memory.slice_ends copied (copied.owned.alive_of_mem List.mem_cons_self)).imp ?_
    rintro _ after ⟨rfl, slicedSound, evolves, flat⟩ value member
    have sliced := evolves.shows later
    rw [slicedSound.contents_of_flat trivial
      (slicedSound.owned.alive_of_mem List.mem_cons_self) flat sliced
        (countable.few shows.vector)] at member
    exact clear_of_forall₂ sliced.each sliced.expands.direct value (List.mem_toArray.mp member)
  · obtain ⟨copied, idle, trees, each⟩ := copies_denote sound idle supports
    refine (Memory.newVector_ends copied each idle).imp ?_
    rintro _ _ ⟨_, grows, _⟩
    exact grows.denotes.clear rfl

/-- A storage with a placeholder, and a placeholder for it at hand as an operand. -/
theorem reached_concealing_operand :
    ∃ workspace : Workspace, workspace.Reached ∧ workspace.values = [.embedded 0] ∧
      workspace.memory.contents 0 = [.number 1, .embedded 1] ∧ workspace.Concealing := by
  have reached : ∃ reports workspace,
      run [.create, .append 0 (.number 1), .append 0 (.embedded (.vector [.number 2, .number 3])),
          .keep (.embedded (.register 0))] empty = some (.ok (reports, workspace)) ∧
        workspace.values = [.embedded 0] ∧
        workspace.memory.contents 0 = [.number 1, .embedded 1] ∧ workspace.memory.Fits :=
    ⟨_, _, rfl, rfl, rfl, rfl⟩
  obtain ⟨reports, workspace, ran, values, contents, fits⟩ := reached
  exact ⟨workspace, ⟨_, _, ran⟩, values, contents, reached_concealing ⟨_, _, ran⟩ fits⟩

/-- A vector of `2 ^ 64 + 3` elements passes for a flat one, and an index finds the placeholder that
is stored first. -/
theorem index_finds_placeholder :
    ∃ (workspace : Workspace) (value : Value) (after : Memory), workspace.Reached ∧
      workspace.memory.Fits ∧ workspace.memory.Supports (.vector 66) ∧
      (Value.vector 66).index (.number 0) (workspace.memory.retain [.vector 66]) =
        some (value, after) ∧ value.isEmbedded = true := by
  obtain ⟨workspace, reached, outgrown⟩ := exists_outgrown
  obtain ⟨⟨value, after⟩, ends, embedded⟩ := (Option.any_eq_true _ _).mp outgrown.first
  exact ⟨workspace, value, after, reached, outgrown.fits,
    .vector (outgrown.alive reached (by decide)), ends, embedded⟩

end Workspace

end SolidScript
