/-
This file proves that steps which append, make values or walk through them spare the storages that
were there, all but the one that they append to, unless something is flattened. They access one kind
of vector by position, those of the size one, when they append its only element. What they do to
storages is told apart from what it means: it holds whatever the storages refer to.
-/

import SolidScript.Proofs.Simulation

namespace SolidScript

namespace Memory

/-- The storages below the base were spared since the start, unless some vector was flattened. -/
def Kept (base : Nat) (start memory : Memory) : Prop :=
  base ≤ memory.storages.size ∧ start.flattenings.length ≤ memory.flattenings.length ∧
    (memory.flattenings = start.flattenings → Spares base start memory)

variable {base : Nat} {start : Memory}

theorem kept_refl (inside : base ≤ start.storages.size) : Kept base start start :=
  ⟨inside, Nat.le_refl _, fun _ => .refl base start⟩

theorem lasts_kept (base : Nat) (start : Memory) : Lasts base (Kept base start) where
  inside kept := kept.1
  spares := by
    rintro before after ⟨inside, longer, spared⟩ spares
    rw [Kept, spares.flattenings]
    exact ⟨Nat.le_trans inside spares.length, longer, fun same => (spared same).trans spares⟩

theorem admits_kept (base : Nat) (start : Memory) : Admits base loose (Kept base start) :=
  (lasts_kept base start).admits_any

/-- Whatever is flattened is reported. -/
theorem flatten_kept (address : Address) :
    (flatten address).Maintains (Kept base start) fun _ => True := by
  rintro before ⟨inside, longer, spared⟩ _ after reached
  refine ⟨?_, trivial⟩
  rcases flatten_eq_some reached with ⟨_, rfl⟩ | ⟨elements, _, rfl⟩
  · exact ⟨inside, longer, spared⟩
  · have more := congrArg List.length (flattenings_rewrite before address elements)
    rw [List.length_append, List.length_singleton] at more
    refine ⟨?_, by omega, fun same => ?_⟩
    · rw [length_rewrite]
      exact inside
    · have whole := congrArg List.length same
      omega

/-! ### Appending -/

section

variable {address other : Address}

theorem element_kept (address : Address) (position : Nat) :
    (element address position).Maintains (Kept base start) fun _ => True :=
  element_maintains (admits_kept base start).alike (flatten_kept address) position

theorem put_kept (beyond : base ≤ address) (added : List Value) (hidden : UInt64) :
    (put address added hidden).Maintains (Kept base start) fun result => base ≤ result :=
  (admits_kept base start).put beyond (loose_takes added hidden)

theorem allocate_kept (stored : Array Value) :
    (allocate stored 0).Maintains (Kept base start) fun result => base ≤ result :=
  (admits_kept base start).allocate stored 0 trivial

theorem release_kept (values : List Value) :
    (modify (·.release values) : Action PUnit).Maintains (Kept base start) fun _ => True :=
  .modify fun _ kept => (admits_kept base start).released values kept

theorem retain_kept (values : List Value) :
    (modify (·.retain values) : Action PUnit).Maintains (Kept base start) fun _ => True :=
  .modify fun _ kept => (admits_kept base start).retained values kept

theorem embed_kept (beyond : base ≤ address) :
    (embed address other).Maintains (Kept base start) fun result => base ≤ result := by
  refine .get_bind fun memory => ?_
  split
  · exact (release_kept _).bind fun _ _ => .pure beyond
  · exact (element_kept other 0).bind fun only _ => (put_kept beyond [only] 0).bind
      fun _ later => (release_kept _).bind fun _ _ => .pure later
  · exact put_kept beyond _ _

theorem append_kept (beyond : base ≤ address) (value : Value) :
    (append address value).Maintains (Kept base start) fun result => base ≤ result := by
  cases value with
  | embedded other => exact embed_kept beyond
  | _ => exact put_kept beyond _ 0

theorem extend_kept (beyond : base ≤ address) (values : List Value) :
    (extend address values).Maintains (Kept base start) fun result => base ≤ result := by
  induction values generalizing address with
  | nil => exact .pure beyond
  | cons value values inductionHypothesis =>
    exact (append_kept beyond value).bind fun _ later => inductionHypothesis later

theorem newVector_kept (values : List Value) :
    (newVector values).Maintains (Kept base start) fun result => base ≤ result := by
  unfold newVector
  split
  · exact (allocate_kept #[]).bind fun _ beyond => extend_kept beyond values
  · exact allocate_kept _

theorem take_kept (other : Address) :
    (take other).Maintains (Kept base start) fun _ => True := by
  rintro before kept taken after reached
  have admits := admits_kept base start
  unfold take at reached
  by_cases unique : before.owners other = 1
  · rw [if_pos unique] at reached
    cases reached
    exact ⟨admits.alike kept (before.reowned_setOwners other 0).alike, trivial⟩
  · rw [if_neg unique] at reached
    cases reached
    exact ⟨admits.released _ (admits.retained _ kept), trivial⟩

theorem concatenate_kept (beyond : base ≤ address) (beyondOther : base ≤ other) :
    (concatenate address other).Maintains (Kept base start) fun result => base ≤ result := by
  refine .get_bind fun memory => ?_
  split
  · exact (release_kept [.vector address]).bind fun _ _ => .pure beyondOther
  · exact (take_kept other).bind fun taken _ => put_kept beyond taken.1 taken.2

theorem double_kept (beyond : base ≤ address) (count : Nat) :
    (double address count).Maintains (Kept base start) fun result => base ≤ result := by
  induction count generalizing address with
  | zero => exact .pure beyond
  | succ count inductionHypothesis =>
    exact (retain_kept [.vector address]).bind fun _ _ => (append_kept beyond _).bind
      fun _ later => inductionHypothesis later

theorem chain_kept (beyond : base ≤ address) (count : Nat) :
    (chain address count).Maintains (Kept base start) fun result => base ≤ result := by
  induction count generalizing address with
  | zero => exact .pure beyond
  | succ count inductionHypothesis =>
    exact (newVector_kept [.number 0]).bind fun head beyondHead =>
      (append_kept beyondHead (.embedded address)).bind fun _ later => inductionHypothesis later

/-! ### Making values -/

theorem nest_kept (value : Value) (depth : Nat) :
    (nest value depth).Maintains (Kept base start) fun _ => True := by
  induction depth generalizing value with
  | zero => exact .pure trivial
  | succ depth inductionHypothesis =>
    exact (newVector_kept [value]).bind fun result _ => inductionHypothesis (.vector result)

theorem repeat_kept (value : Value) (count : Nat) :
    (Memory.repeat value count).Maintains (Kept base start) fun _ => True :=
  (retain_kept _).bind fun _ _ => (newVector_kept _).bind fun _ _ =>
    (release_kept _).bind fun _ _ => .pure trivial

end

theorem copy_kept (value : Value) :
    (Memory.copy value).Maintains (Kept base start) fun _ => True :=
  (retain_kept [value]).bind fun _ _ => .pure trivial

end Memory

open Memory

variable {base : Nat} {start : Memory}

theorem identity_kept {α : Type} {action : Action α}
    (same : ∀ before result after, action before = some (result, after) →
      after.storages = before.storages ∧ after.events = before.events) :
    action.Maintains (Kept base start) fun _ => True := by
  intro before kept result after reached
  obtain ⟨storages, events⟩ := same before result after reached
  have alike : Alike before after := .of_storages storages
    (congrArg (fun events => (events.filterMap Event.flattened?).reverse) events)
  exact ⟨(admits_kept base start).alike kept alike, trivial⟩

theorem vector_upholds (value : Value) :
    Upholds (Attempt.vector value) (Kept base start) fun _ => True := by
  unfold Attempt.vector
  split
  · exact .pure trivial
  · exact .throw _

mutual

theorem Recipe.make_upholds (around : Surroundings) (recipe : Recipe) :
    Upholds (recipe.make around) (Kept base start) fun _ => True := by
  cases recipe with
  | text content => exact .ofAction (identity_kept (by rintro _ _ _ ⟨⟩; exact ⟨rfl, rfl⟩))
  | range content => exact .ofAction (identity_kept (by rintro _ _ _ ⟨⟩; exact ⟨rfl, rfl⟩))
  | function content =>
    exact .ofAction (identity_kept (by rintro _ _ _ ⟨⟩; exact ⟨rfl, rfl⟩))
  | vector items =>
    exact (Recipe.makeAll_upholds around items).bind fun values _ =>
      (Upholds.ofAction (newVector_kept values)).bind fun _ _ => .pure trivial
  | embedded inner =>
    exact (Recipe.make_upholds around inner).bind fun value _ =>
      (vector_upholds value).bind fun _ _ => .pure trivial
  | copies count inner =>
    exact (Recipe.make_upholds around inner).bind fun value _ =>
      (Upholds.ofAction (repeat_kept value count)).bind fun _ _ => .pure trivial
  | nested depth inner =>
    exact (Recipe.make_upholds around inner).bind fun value _ =>
      .ofAction (nest_kept value depth)
  | earlier position =>
    rw [Recipe.make]
    split
    · exact .ofAction (copy_kept _)
    · exact .throw _
  | register position =>
    rw [Recipe.make]
    split
    · exact .ofAction (copy_kept _)
    · exact .throw _
  | _ => exact .pure trivial

theorem Recipe.makeAll_upholds (around : Surroundings) (recipes : List Recipe) :
    Upholds (Recipe.makeAll around recipes) (Kept base start) fun _ => True := by
  cases recipes with
  | nil => exact .pure trivial
  | cons recipe recipes =>
    exact (Recipe.make_upholds around recipe).bind fun value _ =>
      (Recipe.makeAll_upholds around recipes).bind fun values _ => .pure trivial

end

/-! ### Steps -/

namespace Workspace

/-- An invariant of the memory of a workspace. -/
def Meets (invariant : Memory → Prop) (workspace : Workspace) : Prop := invariant workspace.memory

section Parts

variable {α : Type} {invariant : Memory → Prop} {condition : α → Prop}

theorem onMemory_upholds {attempt : Attempt α} (upholds : Upholds attempt invariant condition) :
    Upholds (onMemory attempt) (Meets invariant) condition := by
  rintro ⟨memory, registers, walks, values⟩ result after reached holds
  have first : ((attempt memory : ExceptT Fault Option (α × Memory)) >>= fun pair =>
      Pure.pure (pair.1, (⟨pair.2, registers, walks, values⟩ : Workspace))) =
        some (.ok (result, after)) := reached
  cases found : attempt memory with
  | none =>
    rw [show attempt memory = (none : ExceptT Fault Option (α × Memory)) from found] at first
    contradiction
  | some outcome =>
    rw [show attempt memory = (some outcome : ExceptT Fault Option (α × Memory)) from found]
      at first
    cases outcome with
    | error fault => exact absurd first (by rintro ⟨⟩)
    | ok pair =>
      cases first
      exact upholds memory pair.1 pair.2 found holds

theorem withMemory_upholds {action : Action α} (maintains : action.Maintains invariant condition) :
    Upholds (withMemory action) (Meets invariant) condition :=
  onMemory_upholds (.ofAction maintains)

theorem lookUp_upholds (look : Memory → Option α) :
    Upholds (lookUp look) (Meets invariant) fun _ => True :=
  withMemory_upholds (.read look)

/-- A change of anything but the memory. -/
theorem modify_upholds {change : Workspace → Workspace}
    (same : ∀ workspace, (change workspace).memory = workspace.memory) :
    Upholds (modify change : Work PUnit) (Meets invariant) fun _ => True :=
  .modify fun workspace holds => by
    rw [Meets, same]
    exact holds

theorem register_upholds (position : Nat) :
    Upholds (register position) (Meets invariant) fun _ => True := by
  refine .get_bind fun workspace => ?_
  split
  · exact .pure trivial
  · exact .throw _

theorem walkAt_upholds (position : Nat) :
    Upholds (walkAt position) (Meets invariant) fun _ => True := by
  refine .get_bind fun workspace => ?_
  split
  · exact .pure trivial
  · exact .throw _

theorem setRegister_upholds (position : Nat) (address : Address) :
    Upholds (setRegister position address) (Meets invariant) fun _ => True := by
  exact modify_upholds fun _ => rfl

theorem addRegister_upholds (address : Address) :
    Upholds (addRegister address) (Meets invariant) fun _ => True := by
  refine .bind (modify_upholds ?_) fun _ _ => .pure trivial
  exact fun _ => rfl

theorem addValue_upholds (value : Value) :
    Upholds (addValue value) (Meets invariant) fun _ => True := by
  exact modify_upholds fun _ => rfl

theorem changeRegister_upholds (position : Nat) {action : Address → Action Address}
    (maintains : ∀ address, (action address).Maintains invariant fun _ => True) :
    Upholds (changeRegister position action) (Meets invariant) fun _ => True :=
  (register_upholds position).bind fun address _ =>
    (withMemory_upholds (maintains address)).bind fun target _ =>
      (setRegister_upholds position target).bind fun _ _ => .pure trivial

end Parts

section Steps

variable {base : Nat} {start : Memory}

theorem retain_upholds (values : List Value) :
    Upholds (retain values) (Meets (Kept base start)) fun _ => True :=
  withMemory_upholds (retain_kept values)

theorem release_upholds (values : List Value) :
    Upholds (release values) (Meets (Kept base start)) fun _ => True :=
  withMemory_upholds (release_kept values)

theorem create_upholds :
    Upholds (withMemory Memory.create) (Meets (Kept base start)) fun _ => True :=
  withMemory_upholds ((allocate_kept #[]).imp fun _ _ => trivial)

theorem takeRegister_upholds (position : Nat) :
    Upholds (takeRegister position) (Meets (Kept base start)) fun _ => True :=
  (register_upholds position).bind fun _ _ => create_upholds.bind fun address _ =>
    (setRegister_upholds position address).bind fun _ _ => .pure trivial

theorem make_upholds (item : Recipe) :
    Upholds (make item) (Meets (Kept base start)) fun _ => True :=
  .get_bind fun _ => onMemory_upholds (Recipe.make_upholds _ item)

theorem makeAll_upholds (items : List Recipe) :
    Upholds (makeAll items) (Meets (Kept base start)) fun _ => True :=
  .get_bind fun _ => onMemory_upholds (Recipe.makeAll_upholds _ items)

theorem makeVector_upholds (item : Recipe) :
    Upholds (makeVector item) (Meets (Kept base start)) fun _ => True :=
  (make_upholds item).bind fun value _ => onMemory_upholds (vector_upholds value)

theorem setWalk_upholds (position : Nat) (old new : Walk) :
    Upholds (setWalk position old new) (Meets (Kept base start)) fun _ => True := by
  refine (retain_upholds _).bind fun _ _ => .bind (modify_upholds ?_) fun _ _ => ?_
  · exact fun _ => rfl
  · exact release_upholds _

/-- Steps that do not access vectors by position spare the storages that were there, unless they
append or something is flattened. -/
theorem perform_upholds {action : Step} (silent : action.flattens = false)
    (apart : action.appends = true → base = 0) :
    Upholds (perform action) (Meets (Kept base start)) fun _ => True := by
  have grows : ∀ position (action : Address → Action Address),
      (∀ address, (action address).Maintains (Kept base start) fun result => base ≤ result) →
        Upholds (changeRegister position action) (Meets (Kept base start)) fun _ => True :=
    fun position action maintains => changeRegister_upholds position
      fun address => (maintains address).imp fun _ _ => trivial
  have beyond : action.appends = true → ∀ address, base ≤ address :=
    fun appends address => apart appends ▸ Nat.zero_le address
  cases action with
  | create =>
    exact create_upholds.bind fun address _ => addRegister_upholds address
  | fill items =>
    refine (makeAll_upholds items).bind fun values _ => ?_
    exact (withMemory_upholds (newVector_kept values)).bind
      fun address _ => addRegister_upholds address
  | copy position =>
    exact (register_upholds position).bind fun address _ =>
      (retain_upholds _).bind fun _ _ => addRegister_upholds address
  | append position item =>
    exact (make_upholds item).bind fun value _ => grows _ _ fun address =>
      append_kept (beyond rfl address) value
  | extend position items =>
    exact (makeAll_upholds items).bind fun values _ => grows _ _ fun address =>
      extend_kept (beyond rfl address) values
  | embed position item =>
    refine (makeVector_upholds item).bind fun other _ => ?_
    refine (lookUp_upholds _).bind fun size _ => ?_
    refine (grows _ _ fun address => ?_).bind fun _ _ => .pure trivial
    exact append_kept (beyond rfl address) (.embedded other)
  | embedMoved position source =>
    exact (takeRegister_upholds source).bind fun other _ => grows _ _ fun address =>
      append_kept (beyond rfl address) (.embedded other)
  | concatenate position item =>
    exact (makeVector_upholds item).bind fun other _ => grows _ _ fun address =>
      concatenate_kept (beyond rfl address) (beyond rfl other)
  | concatenateMoved position source =>
    exact (takeRegister_upholds source).bind fun other _ => grows _ _ fun address =>
      concatenate_kept (beyond rfl address) (beyond rfl other)
  | double position count =>
    exact grows _ _ fun address => double_kept (beyond rfl address) count
  | chain position count =>
    exact grows _ _ fun address => chain_kept (beyond rfl address) count
  | unwrap position => exact (register_upholds position).bind fun _ _ => .pure trivial
  | reset position =>
    exact (takeRegister_upholds position).bind fun address _ =>
      (release_upholds _).bind fun _ _ => .pure trivial
  | list position | isEmpty position | inspect position | display position =>
    exact (register_upholds position).bind fun _ _ =>
      (lookUp_upholds _).bind fun _ _ => .pure trivial
  | equal position other =>
    exact (register_upholds position).bind fun _ _ => (register_upholds other).bind fun _ _ =>
      (lookUp_upholds _).bind fun _ _ => .pure trivial
  | shared position other =>
    exact (register_upholds position).bind fun _ _ => (register_upholds other).bind fun _ _ =>
      .pure trivial
  | walk position =>
    refine (register_upholds position).bind fun address _ => ?_
    refine (retain_upholds _).bind fun _ _ => ?_
    refine .bind (modify_upholds ?_) fun _ _ => .pure trivial
    exact fun _ => rfl
  | next position =>
    exact (walkAt_upholds position).bind fun old _ => (lookUp_upholds _).bind fun found _ =>
      (setWalk_upholds position old found.2).bind fun _ _ => .pure trivial
  | rest position =>
    exact (walkAt_upholds position).bind fun old _ => (lookUp_upholds _).bind fun _ _ =>
      (setWalk_upholds position old []).bind fun _ _ => .pure trivial
  | keep item =>
    exact (make_upholds item).bind fun value _ =>
      (addValue_upholds value).bind fun _ _ => .pure trivial
  | _ => contradiction

end Steps

end Workspace

end SolidScript
