/-
This file says when a workspace stands for plain lists: its registers list what the plain ones hold,
its walks follow what is left of theirs, its values denote the plain ones, and its memory is sound
with all that the workspace holds at work. Changing one register or one walk leaves the others what
they were, since these are at work throughout. A workspace stands for some plain lists also after
those that took its steps have given up.
-/

import SolidScript.Proofs.Making
import SolidScript.Proofs.Operating

namespace SolidScript

open Value (handles)

/-- The storages of a walk's levels. -/
def Walk.storages (walk : Walk) : List Address := walk.map Level.storage

theorem Walk.handles_handles (walk : Walk) : Value.handles walk.handles = walk.storages := by
  rw [Walk.handles, Value.handles, List.filterMap_map]
  exact congrFun List.filterMap_eq_map walk

theorem Walk.mem_storages {walk : Walk} {level : Level} (member : level ∈ walk) :
    level.storage ∈ walk.storages :=
  List.mem_map_of_mem member

/-- The storage that a walk started from, unless the walk is over. -/
def Walk.origin? : Walk → Option Address
  | [] => none
  | level :: outer => some ((origin? outer).getD level.storage)

namespace Walk

theorem mem_of_origin? {walk : Walk} {address : Address} (started : walk.origin? = some address) :
    address ∈ walk.storages := by
  induction walk with
  | nil => contradiction
  | cons level outer inductionHypothesis =>
    rw [origin?] at started
    cases found : origin? outer with
    | none =>
      rw [found] at started
      exact Option.some.inj started ▸ List.mem_cons_self
    | some other =>
      rw [found] at started
      exact List.mem_cons_of_mem _ (inductionHypothesis (found.trans started))

theorem origin?_pass (walk : Walk) : origin? (walk.map Level.pass) = walk.origin? := by
  induction walk with
  | nil => rfl
  | cons level outer inductionHypothesis =>
    rw [List.map_cons, origin?, origin?, inductionHypothesis]
    rfl

theorem origin?_restart {memory : Memory} {walk left : Walk} {address : Address}
    (restarts : memory.restart? walk = some left) (started : left.origin? = some address) :
    walk.origin? = some address := by
  induction walk with
  | nil => contradiction
  | cons level outer inductionHypothesis =>
    rw [Memory.restart?] at restarts
    cases found : memory.restart? outer with
    | some further =>
      simp only [found, Option.some.injEq] at restarts
      subst restarts
      rw [origin?, inductionHypothesis found]
      rfl
    | none =>
      simp only [found] at restarts
      by_cases outdated : memory.isOutdated level = true
      · rw [if_pos outdated] at restarts
        cases restarts
        exact started
      · rw [if_neg outdated] at restarts
        cases restarts

theorem origin?_advance {memory : Memory} {walk : Walk} {outcome : Option Value × Walk}
    (advances : memory.advance walk = some outcome) {address : Address}
    (started : outcome.2.origin? = some address) : walk.origin? = some address := by
  revert started
  refine Memory.advance.partial_correctness memory
    (fun walk outcome => outcome.2.origin? = some address → walk.origin? = some address)
    ?_ walk outcome advances
  intro advance inductionHypothesis walk outcome advances started
  cases walk with
  | nil =>
    cases advances
    exact started
  | cons level outer =>
    simp only at advances
    split at advances
    · rw [origin?, inductionHypothesis _ _ advances started]
      rfl
    · have entered := inductionHypothesis _ _ advances started
      exact entered
    · cases advances
      rw [origin?_pass] at started
      exact started

/-- A walk goes on through the storage that it started from until it is over. -/
theorem origin?_next {memory : Memory} {walk : Walk} {outcome : Option Value × Walk}
    (next : memory.next walk = some outcome) {address : Address}
    (started : outcome.2.origin? = some address) : walk.origin? = some address := by
  have current := origin?_advance next started
  unfold Memory.resync at current
  cases restarts : memory.restart? walk with
  | none =>
    rw [restarts] at current
    exact current
  | some left =>
    rw [restarts] at current
    exact origin?_restart restarts current

end Walk

namespace Workspace

/-- The handles that walks and values of a workspace hold. -/
def held (workspace : Workspace) : List Address :=
  workspace.walks.flatMap Walk.storages ++ handles workspace.values

/-- All handles that a workspace holds. -/
def roots (workspace : Workspace) : List Address := workspace.registers ++ workspace.held

/-- All handles that a workspace holds but the one in a register. -/
def rootsBut (workspace : Workspace) (position : Nat) : List Address :=
  workspace.registers.eraseIdx position ++ workspace.held

end Workspace

/-! ### The relation -/

/-- A storage lists items if it is that of a vector that denotes them. -/
abbrev Lists (memory : Memory) (address : Address) (items : List Tree) : Prop :=
  Denotes memory (.vector address) (.vector items)

/-- A walk follows what is left of a plain one, and the storage it started from still lists the
whole sequence. -/
structure Continues (memory : Memory) (walk : Walk) (plain : PlainWalk) : Prop where
  follows : Follows memory walk plain.left
  origin : ∀ address, walk.origin? = some address → Lists memory address plain.sequence

/-- Words count the items of all vectors in registers and values. -/
structure Plain.Small (plain : Plain) : Prop where
  registers : ∀ items ∈ plain.registers, (Tree.vector items).small = true
  values : ∀ tree ∈ plain.values, tree.small = true

/-- A workspace stands for plain lists while further handles are at work. The counters in its memory
are right as long as the plain lists that took its steps are followed, or if all arrays have the
lengths of arrays. The walks of the plain lists are named, since they are known also where the lists
are not. A step that is silent has flattened nothing. -/
structure Represents (silent followed : Prop) (walks : List PlainWalk) (further : List Address)
    (workspace : Workspace) (plain : Plain) : Prop where
  sound : Sound (followed ∨ workspace.memory.Fits) workspace.memory (further ++ workspace.roots)
  idle : workspace.memory.Idle
  tracked : plain.walks = walks
  traced : silent → workspace.memory.Fits → workspace.memory.flattenings = []
  registers : List.Forall₂ (Lists workspace.memory) workspace.registers plain.registers
  walks : List.Forall₂ (Continues workspace.memory) workspace.walks walks
  values : List.Forall₂ (Denotes workspace.memory) workspace.values plain.values
  closures : workspace.memory.closures = plain.closures
  warnings : workspace.memory.warnings.reverse = plain.warnings
  small : followed → plain.Small

/-- A step moves the walks that it asks for items, and no other ones. Further walks may begin. -/
def Plain.Moved (action : Step) (before after : List PlainWalk) : Prop :=
  ∀ (place : Nat) (walk : PlainWalk), before[place]? = some walk → after[place]? =
    some { walk with passed := Plain.asked place walk.sequence.length walk.passed action }

namespace Plain.Moved

variable {action : Step} {walks : List PlainWalk}

theorem refl (still : ∀ place size passed, Plain.asked place size passed action = passed) :
    Moved action walks walks := by
  intro place walk found
  rw [still, found]

theorem append (still : ∀ place size passed, Plain.asked place size passed action = passed)
    (more : List PlainWalk) : Moved action walks (walks ++ more) := by
  intro place walk found
  rw [still, List.getElem?_append_left (List.getElem?_eq_some_iff.mp found).1, found]

theorem set {position : Nat} {walk : PlainWalk} (found : walks[position]? = some walk)
    {passed : Nat}
    (own : Plain.asked position walk.sequence.length walk.passed action = passed)
    (others : ∀ place, position ≠ place → ∀ size passed,
      Plain.asked place size passed action = passed) :
    Moved action walks (walks.set position { walk with passed := passed }) := by
  intro place other there
  by_cases same : position = place
  · subst same
    obtain rfl := Option.some.inj (found.symm.trans there)
    rw [own, List.getElem?_set_self (List.getElem?_eq_some_iff.mp there).1]
  · rw [others place same, List.getElem?_set_ne same, there]

end Plain.Moved

theorem represents_empty : Represents True True [] [] Workspace.empty Plain.empty where
  sound := Memory.sound_empty (Or.inl trivial)
  idle _ := rfl
  registers := .nil
  walks := .nil
  values := .nil
  closures := rfl
  warnings := rfl
  small _ := ⟨fun _ member => absurd member List.not_mem_nil,
    fun _ member => absurd member List.not_mem_nil⟩
  tracked := rfl
  traced _ _ := rfl

/-! ### Keeping lists -/

namespace Keeps

variable {atWork : List Address} {before after : Memory}

theorem lists (keeps : Keeps atWork before after) {addresses : List Address}
    {plain : List (List Tree)} (within : ∀ address ∈ addresses, address ∈ atWork)
    (each : List.Forall₂ (Lists before) addresses plain) :
    List.Forall₂ (Lists after) addresses plain :=
  forall₂_imp_of_mem each fun address member _ _ => keeps.vector (within address member)

theorem continues (keeps : Keeps atWork before after) {walk : Walk} {plain : PlainWalk}
    (within : ∀ address ∈ walk.storages, address ∈ atWork)
    (continues : Continues before walk plain) : Continues after walk plain where
  follows := keeps.follows _ _ (fun _ member => within _ (Walk.mem_storages member))
    continues.follows
  origin address started := keeps.vector (within _ (Walk.mem_of_origin? started))
    (continues.origin address started)

theorem walks (keeps : Keeps atWork before after) {walks : List Walk} {plain : List PlainWalk}
    (within : ∀ address ∈ walks.flatMap Walk.storages, address ∈ atWork)
    (each : List.Forall₂ (Continues before) walks plain) :
    List.Forall₂ (Continues after) walks plain :=
  forall₂_imp_of_mem each fun _ member _ _ =>
    keeps.continues fun address inWalk => within address (List.mem_flatMap.mpr ⟨_, member, inWalk⟩)

end Keeps

theorem Evolves.continues {before after : Memory} {warned : List Warning} {lent : List Address}
    (evolves : Evolves warned lent before after) {walk : Walk} {plain : PlainWalk}
    (continues : Continues before walk plain) : Continues after walk plain where
  follows := evolves.follows continues.follows
  origin address started := evolves.denotes (continues.origin address started)

namespace Continues

variable {memory : Memory} {walk : Walk} {plain : PlainWalk}

/-- A walk through a storage starts with the first item. -/
theorem start {address : Address} {items : List Tree} (lists : Lists memory address items) :
    Continues memory (memory.walk address) ⟨items, 0⟩ where
  follows := .of_vector lists
  origin other started := by
    cases started
    exact lists

/-- The next element denotes the next item, if there is one. -/
theorem next (continues : Continues memory walk plain) :
    ∃ value left, memory.next walk = some (value, left) ∧
      (∀ element ∈ value.toList, element.isEmbedded = false) ∧
      List.Forall₂ (Denotes memory) value.toList plain.left.head?.toList ∧
      Continues memory left { plain with passed := plain.passed + 1 } := by
  have rest : PlainWalk.left { plain with passed := plain.passed + 1 } = plain.left.tail :=
    List.tail_drop.symm
  have follows := continues.follows
  cases found : plain.left with
  | nil =>
    rw [found] at follows rest
    refine ⟨none, [], follows.next_nil, fun _ member => absurd member List.not_mem_nil, .nil, ?_,
      ?_⟩
    · rw [rest]
      exact .ended memory
    · intro address started
      contradiction
  | cons item items =>
    rw [found] at follows rest
    obtain ⟨value, left, next, direct, denotes, further⟩ := follows.next_cons
    refine ⟨some value, left, next, fun element member => ?_, .cons denotes .nil, ?_, ?_⟩
    · exact List.mem_singleton.mp member ▸ direct
    · rw [rest]
      exact further
    · exact fun address started => continues.origin address (Walk.origin?_next next started)

/-- All that is left of a walk denotes the items that are left. -/
theorem rest (continues : Continues memory walk plain) :
    ∃ elements : List Value, memory.collect #[] walk = some elements.toArray ∧
      (∀ value ∈ elements, value.isEmbedded = false) ∧
      List.Forall₂ (Denotes memory) elements plain.left ∧
      Continues memory [] { plain with passed := plain.sequence.length } := by
  obtain ⟨elements, collected, direct, each⟩ := continues.follows.collect
  refine ⟨elements, collected, direct, each, ?_, ?_⟩
  · rw [PlainWalk.left, List.drop_length]
    exact .ended memory
  · intro address started
    contradiction

end Continues

theorem Sound.of_perm {sure : Prop} {memory : Memory} {atWork others : List Address}
    (sound : Sound sure memory atWork) (perm : atWork.Perm others) : Sound sure memory others :=
  sound.of_count others fun address => perm.count_eq address

/-! ### Changes of a workspace -/

namespace Represents

variable {silent calm followed still : Prop} {walks : List PlainWalk} {workspace : Workspace}
    {plain : Plain}
  {further more : List Address} {after : Memory}

theorem exists_walk (represents : Represents silent followed walks further workspace plain)
    {position : Nat} {meant : PlainWalk} (planted : walks[position]? = some meant) :
    ∃ walk, workspace.walks[position]? = some walk ∧ Continues workspace.memory walk meant := by
  rcases forall₂_getElem? represents.walks position with
    ⟨_, absent⟩ | ⟨walk, other, found, there, continues⟩
  · exact nomatch absent.symm.trans planted
  · obtain rfl := Option.some.inj (there.symm.trans planted)
    exact ⟨walk, found, continues⟩

/-- Less may be followed. -/
theorem mono (represents : Represents silent followed walks further workspace plain)
    (implies : still → followed) : Represents silent still walks further workspace plain :=
  { represents with
    sound := represents.sound.mono (Or.imp_left implies) Or.inr
    small := fun holds => represents.small (implies holds) }

/-- A flattening may be passed over in silence. -/
theorem hush (represents : Represents silent followed walks further workspace plain)
    (implies : calm → silent) : Represents calm followed walks further workspace plain :=
  { represents with traced := fun holds => represents.traced (implies holds) }

/-- Nothing was flattened in the current step if nothing was so far. -/
theorem traced_of_silent (represents : Represents silent followed walks further workspace plain)
    (silently : calm → silent ∧ Silent workspace.memory after) (holds : calm) (fits : after.Fits) :
    after.flattenings = [] :=
  have same := (silently holds).2
  (same.flattenings fits).trans
    (represents.traced (silently holds).1 (fits.of_grown same.grown))

/-- A change of memory that leaves alone what the workspace holds. -/
theorem kept (represents : Represents silent followed walks further workspace plain)
    {closures : Nat} {warnings : List Warning} (implies : still → followed)
    (silently : calm → silent ∧ Silent workspace.memory after)
    (sound : Sound (still ∨ after.Fits) after (more ++ workspace.roots)) (idle : after.Idle)
    (keeps : Keeps workspace.roots workspace.memory after) (closed : after.closures = closures)
    (warned : after.warnings.reverse = warnings) :
    Represents calm still walks more { workspace with memory := after }
      { plain with closures := closures, warnings := warnings } where
  sound := sound
  idle := idle
  registers := keeps.lists (fun _ member => List.mem_append_left _ member) represents.registers
  walks := keeps.walks (fun _ member => List.mem_append_right _ (List.mem_append_left _ member))
    represents.walks
  values := keeps.each (fun _ member => List.mem_append_right _ (List.mem_append_right _ member))
    represents.values
  closures := closed
  warnings := warned
  small holds := ⟨(represents.small (implies holds)).registers,
    (represents.small (implies holds)).values⟩
  tracked := represents.tracked
  traced := represents.traced_of_silent silently

theorem evolved (represents : Represents silent followed walks further workspace plain)
    {warned : List Warning}
    (sound : Sound (followed ∨ workspace.memory.Fits) after (more ++ workspace.roots))
    (evolves : Evolves warned [] workspace.memory after)
    (silently : calm → silent ∧ Silent workspace.memory after) :
    Represents calm followed walks more { workspace with memory := after }
      { plain with warnings := plain.warnings ++ warned } := by
  have keeps : Keeps workspace.roots workspace.memory after :=
    (Keeps.of_evolves evolves represents.sound).of_subset fun _ => List.mem_append_right _
  refine represents.kept id silently (sound.of_evolves evolves)
    (Memory.idle_of_steady represents.idle evolves.steady) keeps
    (evolves.steady.closures.trans represents.closures) ?_
  rw [evolves.steady.warnings, List.reverse_append, List.reverse_reverse, represents.warnings]

/-- A change of memory without warnings. -/
theorem quiet (represents : Represents silent followed walks further workspace plain)
    (sound : Sound (followed ∨ workspace.memory.Fits) after (more ++ workspace.roots))
    (evolves : Evolves [] [] workspace.memory after)
    (silently : calm → silent ∧ Silent workspace.memory after) :
    Represents calm followed walks more { workspace with memory := after } plain := by
  have evolved := represents.evolved sound evolves silently
  rw [List.append_nil] at evolved
  exact evolved

/-- A register is replaced. The other ones, walks and values are at work throughout. -/
theorem registerSet (represents : Represents silent followed walks further workspace plain)
    {position : Nat} {address result : Address} {items : List Tree}
    (found : workspace.registers[position]? = some address)
    (implies : still → followed ∧ (Tree.vector items).small = true)
    (sound : Sound (still ∨ after.Fits) after (more ++ result :: workspace.rootsBut position))
    (idle : after.Idle) (lists : Lists after result items)
    (keeps : Keeps (workspace.rootsBut position) workspace.memory after)
    (steady : Calm workspace.memory after) :
    Represents silent still walks more
      { workspace with
        memory := after
        registers := workspace.registers.set position result }
      { plain with registers := plain.registers.set position items } where
  sound := by
    have perm := (set_perm_of_getElem? found result).append_right workspace.held
    exact sound.of_perm (perm.symm.append_left more)
  idle := idle
  registers := forall₂_set represents.registers position
    (fun _ member _ => keeps.vector (List.mem_append_left _ member)) lists
  walks := keeps.walks (fun _ member => List.mem_append_right _ (List.mem_append_left _ member))
    represents.walks
  values := keeps.each (fun _ member => List.mem_append_right _ (List.mem_append_right _ member))
    represents.values
  closures := steady.closures.trans represents.closures
  warnings := (congrArg List.reverse steady.warnings).trans represents.warnings
  small holds := by
    obtain ⟨followed, counted⟩ := implies holds
    refine ⟨fun other member => ?_, (represents.small followed).values⟩
    rcases List.mem_or_eq_of_mem_set member with before | rfl
    · exact (represents.small followed).registers other before
    · exact counted
  tracked := represents.tracked
  traced := represents.traced_of_silent fun holds => ⟨holds, steady.silent⟩

/-- A register is added for a handle that was at work. -/
theorem registerAdded {address : Address} {items : List Tree}
    (represents : Represents silent followed walks (address :: further) workspace plain)
    (lists : Lists workspace.memory address items)
    (counted : followed → (Tree.vector items).small = true) :
    Represents silent followed walks further
      { workspace with registers := workspace.registers ++ [address] }
      { plain with registers := plain.registers ++ [items] } where
  sound := represents.sound.of_count _ fun other => by
    simp only [Workspace.roots, Workspace.held, List.count_append, List.count_cons,
      List.count_nil]
    omega
  idle := represents.idle
  registers := List.rel_append represents.registers (.cons lists .nil)
  walks := represents.walks
  values := represents.values
  closures := represents.closures
  warnings := represents.warnings
  small holds := ⟨List.forall_mem_append.mpr ⟨(represents.small holds).registers,
    List.forall_mem_singleton.mpr (counted holds)⟩, (represents.small holds).values⟩
  tracked := represents.tracked
  traced := represents.traced

/-- A value that was at work is added to the values. -/
theorem valueAdded {value : Value} {tree : Tree}
    (represents : Represents silent followed walks (handles [value]) workspace plain)
    (denotes : Denotes workspace.memory value tree) (counted : followed → tree.small = true) :
    Represents silent followed walks [] { workspace with values := workspace.values ++ [value] }
      { plain with values := plain.values ++ [tree] } where
  sound := represents.sound.of_count _ fun other => by
    simp only [Workspace.roots, Workspace.held, handles_append, List.count_append, List.count_nil]
    omega
  idle := represents.idle
  registers := represents.registers
  walks := represents.walks
  values := List.rel_append represents.values (.cons denotes .nil)
  closures := represents.closures
  warnings := represents.warnings
  small holds := ⟨(represents.small holds).registers, List.forall_mem_append.mpr
    ⟨(represents.small holds).values, List.forall_mem_singleton.mpr (counted holds)⟩⟩
  tracked := represents.tracked
  traced := represents.traced

/-- A walk is added whose levels were at work. -/
theorem walkAdded {walk : Walk} {meant : PlainWalk}
    (represents : Represents silent followed walks walk.storages workspace plain)
    (continues : Continues workspace.memory walk meant) :
    Represents silent followed (walks ++ [meant]) []
      { workspace with walks := workspace.walks ++ [walk] }
      { plain with walks := plain.walks ++ [meant] } where
  sound := represents.sound.of_count _ fun other => by
    simp only [Workspace.roots, Workspace.held, List.flatMap_append, List.flatMap_singleton,
      List.count_append, List.count_nil]
    omega
  idle := represents.idle
  registers := represents.registers
  walks := List.rel_append represents.walks (.cons continues .nil)
  values := represents.values
  closures := represents.closures
  warnings := represents.warnings
  small holds := ⟨(represents.small holds).registers, (represents.small holds).values⟩
  tracked := congrArg (· ++ [meant]) represents.tracked
  traced := represents.traced

/-- A walk is replaced. The levels of the old one are at work instead of those of the new one. -/
theorem walkSet {old new : Walk} {meant : PlainWalk} {position : Nat}
    (represents : Represents silent followed walks new.storages workspace plain)
    (found : workspace.walks[position]? = some old)
    (continues : Continues workspace.memory new meant) :
    Represents silent followed (walks.set position meant) old.storages
      { workspace with walks := workspace.walks.set position new }
      { plain with walks := plain.walks.set position meant } where
  sound := by
    have before := ((perm_of_getElem? found).flatMap_right Walk.storages).count_eq
    have after := ((set_perm_of_getElem? found new).flatMap_right Walk.storages).count_eq
    refine represents.sound.of_count _ fun other => ?_
    have countBefore := before other
    have countAfter := after other
    simp only [Workspace.roots, Workspace.held, List.flatMap_cons, List.count_append] at *
    omega
  idle := represents.idle
  registers := represents.registers
  walks := forall₂_set represents.walks position (fun _ _ _ continues => continues) continues
  values := represents.values
  closures := represents.closures
  warnings := represents.warnings
  small holds := ⟨(represents.small holds).registers, (represents.small holds).values⟩
  tracked := congrArg (List.set · position meant) represents.tracked
  traced := represents.traced

end Represents

end SolidScript
