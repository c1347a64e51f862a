/-
This file proves that values are made as recipes say: a recipe ends in the fault that planting its
tree ends in, or the value that it makes denotes that tree, unless planting gives up. Whatever other
handles at work lead to means what it meant, although vectors are spliced into new ones on the way.
-/

import SolidScript.Proofs.Computing
import SolidScript.Proofs.Plain
import SolidScript.Proofs.Refinement

namespace SolidScript

open Value (handles)

variable {followed : Prop} {atWork : List Address} {before memory : Memory}

/-! ### Surroundings -/

/-- What a recipe may refer to is at work, and denotes the given trees and lists, which are small as
long as plain work is followed. -/
structure Surrounds (followed : Prop) (memory : Memory) (atWork : List Address)
    (around : Surroundings) (earlier : List Tree) (registers : List (List Tree)) : Prop where
  heldEarlier : ∀ handle ∈ handles around.earlier, handle ∈ atWork
  heldRegisters : ∀ address ∈ around.registers, address ∈ atWork
  smallEarlier : followed → ∀ tree ∈ earlier, tree.small = true
  smallRegisters : followed → ∀ items ∈ registers, (Tree.vector items).small = true
  earlier : List.Forall₂ (Denotes memory) around.earlier earlier
  registers : List.Forall₂ (fun address items => Denotes memory (.vector address) (.vector items))
    around.registers registers

theorem Surrounds.kept {still : Prop} {around : Surroundings} {earlier : List Tree}
    {registers : List (List Tree)}
    (surrounds : Surrounds followed before atWork around earlier registers)
    (keeps : Keeps atWork before memory) (more : List Address) (implies : still → followed) :
    Surrounds still memory (more ++ atWork) around earlier registers where
  heldEarlier handle member := List.mem_append_right _ (surrounds.heldEarlier handle member)
  heldRegisters address member := List.mem_append_right _ (surrounds.heldRegisters address member)
  earlier := keeps.each surrounds.heldEarlier surrounds.earlier
  registers := forall₂_imp_of_mem surrounds.registers fun address member _ _ denotes =>
    keeps.vector (surrounds.heldRegisters address member) denotes
  smallEarlier holds := surrounds.smallEarlier (implies holds)
  smallRegisters holds := surrounds.smallRegisters (implies holds)

/-! ### Values that were made -/

/-- Values were made that denote the given trees. Whoever had them made owns them. Functions took
the identities below `closures`. -/
structure Makes (followed : Prop) (before : Memory) (atWork : List Address) (values : List Value)
    (after : Memory) (trees : List Tree) (closures : Nat) : Prop where
  sound : Sound (followed ∨ after.Fits) after (handles values ++ atWork)
  each : List.Forall₂ (Denotes after) values trees
  idle : after.Idle
  warnings : after.warnings = before.warnings
  closures : after.closures = closures
  silent : Silent before after
  keeps : Keeps atWork before after
  small : followed → ∀ tree ∈ trees, tree.small = true

/-- If plain work is not followed, counters are right if the arrays after a change have the lengths
of arrays: they had them before. -/
theorem Sound.of_evolves {before after : Memory} {warned : List Warning}
    {lent others : List Address} (sound : Sound (followed ∨ before.Fits) after others)
    (evolves : Evolves warned lent before after) : Sound (followed ∨ after.Fits) after others :=
  sound.mono (Or.imp_right evolves.fits) Or.inr

/-- The same holds of a vector that grew by few elements. -/
theorem Memory.Grows.trusted {few still : Prop} {items : List Tree} {result : Address}
    {after : Memory} (grows : Grows (followed ∨ before.Fits) few before atWork items result after)
    (implies : still → followed ∧ few) : Sound (still ∨ after.Fits) after (result :: atWork) := by
  refine grows.sound.mono ?_ Or.inr
  rintro (holds | fits)
  · exact ⟨Or.inl (implies holds).1, Or.inl (implies holds).2⟩
  · exact ⟨Or.inr (fits.of_grown grows.steady.grown), Or.inr fits⟩

namespace Makes

variable {values : List Value} {trees : List Tree} {closures : Nat} {after : Memory}

theorem denotes {value : Value} {tree : Tree}
    (makes : Makes followed before atWork [value] after [tree] closures) :
    Denotes after value tree :=
  (List.forall₂_cons.mp makes.each).1

theorem small_single {value : Value} {tree : Tree}
    (makes : Makes followed before atWork [value] after [tree] closures) (holds : followed) :
    tree.small = true :=
  makes.small holds tree List.mem_cons_self

theorem nil (sound : Sound (followed ∨ memory.Fits) memory atWork) (idle : memory.Idle) :
    Makes followed memory atWork [] memory [] memory.closures :=
  ⟨sound, .nil, idle, rfl, rfl, .refl memory, .refl atWork memory,
    fun _ _ member => absurd member List.not_mem_nil⟩

/-- A small value that was computed was made. -/
theorem of_computes {value : Value} {tree : Tree}
    (computes : Computes (followed ∨ before.Fits) before atWork tree [] value after)
    (small : tree.small = true) (sound : Sound (followed ∨ before.Fits) before atWork)
    (idle : before.Idle) (same : after.flattenings = before.flattenings) :
    Makes followed before atWork [value] after [tree] before.closures where
  sound := computes.sound.of_evolves computes.evolves
  each := .cons computes.denotes .nil
  idle := Memory.idle_of_steady idle computes.evolves.steady
  warnings := computes.evolves.steady.warnings
  closures := computes.evolves.steady.closures
  silent := ⟨computes.evolves.steady.grown, fun _ => same⟩
  keeps := .of_evolves computes.evolves sound
  small _ := List.forall_mem_singleton.mpr small

/-- Values that were made may be put into a vector. -/
theorem gathered {few still : Prop} {last : Memory} {expected : List Tree} {result : Address}
    (makes : Makes followed before atWork values memory trees closures)
    (grows : Memory.GrowsTo (followed ∨ memory.Fits) few memory atWork expected result last)
    (implies : still → followed ∧ few ∧ (Tree.vector expected).small = true) :
    ∃ tree, Makes still before atWork [.vector result] last [tree] closures ∧
      (still → tree = .vector expected) := by
  obtain ⟨items, grows, exact'⟩ := grows
  have same : still → items = expected := fun holds =>
    exact' (Or.inl (implies holds).1) (implies holds).2.1
  refine ⟨.vector items, ⟨grows.trusted fun holds => ⟨(implies holds).1, (implies holds).2.1⟩,
    .cons grows.denotes .nil, Memory.idle_of_steady makes.idle grows.steady.toSteady,
    grows.steady.warnings.trans makes.warnings, grows.steady.closures.trans makes.closures,
    makes.silent.trans grows.steady.silent, makes.keeps.trans grows.keeps, fun holds => ?_⟩,
    fun holds => congrArg Tree.vector (same holds)⟩
  rw [same holds]
  exact List.forall_mem_singleton.mpr (implies holds).2.2

/-- The vector is followed further if it is counted. -/
theorem counted {few : Prop} {last : Memory} {expected : List Tree} {result : Address}
    (makes : Makes followed before atWork values memory trees closures)
    (grows : Memory.GrowsTo (followed ∨ memory.Fits) few memory atWork expected result last)
    (little : followed → few) :
    ∃ tree, Makes (followed ∧ (Tree.vector expected).small = true) before atWork [.vector result]
        last [tree] closures ∧
      (followed ∧ (Tree.vector expected).small = true → tree = .vector expected) :=
  makes.gathered grows fun ⟨holds, small⟩ => ⟨holds, little holds, small⟩

/-- One value is made, and then others. -/
theorem cons {still : Prop} {last : Memory} {value : Value} {tree : Tree} {final : Nat}
    (first : Makes followed before atWork [value] memory [tree] closures)
    (rest : Makes still memory (handles [value] ++ atWork) values last trees final)
    (implies : still → followed) :
    Makes still before atWork (value :: values) last (tree :: trees) final := by
  refine ⟨?_, .cons ?_ rest.each, rest.idle, rest.warnings.trans first.warnings, rest.closures,
    first.silent.trans rest.silent, ?_, fun holds =>
      List.forall_mem_cons.mpr ⟨first.small_single (implies holds), rest.small holds⟩⟩
  · refine rest.sound.of_count _ fun handle => ?_
    rw [handles_cons value values]
    simp only [List.count_append]
    omega
  · exact rest.keeps.denotes value tree (fun _ member => List.mem_append_left _ member)
      first.denotes
  · exact first.keeps.trans (rest.keeps.of_subset fun _ member => List.mem_append_right _ member)

end Makes

/-! ### Parts of recipes -/

section Parts

variable {around : Surroundings} {earlier : List Tree} {registers : List (List Tree)}
  {value : Value} {tree : Tree} {closures : Nat}

/-- A value whose tree is a vector gives its storage; any other one is refused. -/
theorem Attempt.vector_refines {τ : Type} {model : τ} (denotes : Denotes memory value tree) :
    Refines followed (Attempt.vector value) (liftM (Recipe.itemsOf tree)) memory model
      fun still address after items last => still = followed ∧
        value = .vector address ∧ tree = .vector items ∧ after = memory ∧ last = model := by
  cases denotes with
  | vector => exact .of_ok rfl rfl ⟨rfl, rfl, rfl, rfl, rfl⟩
  | _ => exact .of_error _ rfl rfl

namespace Memory

theorem newFunction_ends (sound : Sound (followed ∨ memory.Fits) memory atWork)
    (idle : memory.Idle) (content : Closure) :
    (newFunction content).Ends memory fun result after =>
      Makes followed memory atWork [result] after [.function ⟨memory.closures, content⟩]
        (memory.closures + 1) := by
  have same : ∀ range, memory.Registers range → memory.Registers range :=
    fun _ registers => registers
  refine .intro _ _ rfl ⟨sound.of_storages rfl same, .cons (.function _) .nil, idle, rfl, rfl,
    ⟨fun _ => Nat.le_refl _, fun _ => rfl⟩, ?_,
    fun _ => List.forall_mem_singleton.mpr rfl⟩
  exact .of_carries (.of_storages sound rfl same) fun _ member =>
    owners_inside (sound.owned.alive_of_mem member)

theorem copy_ends (sound : Sound (followed ∨ memory.Fits) memory atWork) (idle : memory.Idle)
    (inValue : ∀ handle ∈ handles [value], handle ∈ atWork) (denotes : Denotes memory value tree)
    (small : followed → tree.small = true) :
    (copy value).Ends memory fun result after =>
      Makes followed memory atWork [result] after [tree] memory.closures := by
  have reowned := memory.reowned_retain [value]
  have evolves := Evolves.of_reowned sound reowned
  have retained := sound.retain [value] fun handle member =>
    sound.owned.alive_of_mem (inValue handle member)
  exact .modify_bind (.pure ⟨retained.of_evolves evolves, .cons (evolves.denotes denotes) .nil,
    idle_of_steady idle evolves.steady, evolves.steady.warnings, evolves.steady.closures,
    Silent.of_reowned reowned, .of_evolves evolves sound,
    fun holds => List.forall_mem_singleton.mpr (small holds)⟩)

theorem repeat_ends {sure : Prop} (count : Nat)
    (sound : Sound sure memory (handles [value] ++ atWork)) (idle : memory.Idle)
    (denotes : Denotes memory value tree) :
    (Memory.repeat value count).Ends memory
      (GrowsTo sure (tree.parts.length < 2 ^ 64) memory atWork
        ((List.replicate count tree).flatMap Tree.parts)) := by
  have alive : ∀ handle ∈ handles (List.replicate count value), memory.owners handle ≠ 0 := by
    intro handle member
    obtain ⟨copy, inCopies, stored⟩ := List.mem_filterMap.mp member
    obtain rfl := List.eq_of_mem_replicate inCopies
    refine sound.owned.alive_of_mem (List.mem_append_left _ ?_)
    exact List.mem_filterMap.mpr ⟨copy, List.mem_cons_self, stored⟩
  have reowned := memory.reowned_retain (List.replicate count value)
  have evolves := Evolves.of_reowned sound reowned
  have each : List.Forall₂ (Denotes (memory.retain (List.replicate count value)))
      (List.replicate count value) (List.replicate count tree) :=
    List.forall₂_iff_get.mpr ⟨by simp, fun _ _ _ => by simpa using evolves.denotes denotes⟩
  refine .modify_bind ?_
  refine (newVector_ends (sound.retain _ alive) each (idle_of_steady idle evolves.steady)).bind ?_
  rintro result grown ⟨items, grows, exact'⟩
  have released := grows.release [value]
  have spared := released.sound.fitted
  refine .modify_bind (.pure ⟨items, ⟨released.sound.mono (And.imp_right (Or.imp_left ?_))
    fun fits => ⟨(spared fits).1, Or.inr fits⟩, released.denotes,
      (Calm.of_reowned reowned).trans released.steady, ?_⟩, fun holds few => ?_⟩)
  · exact fun few tree member => List.eq_of_mem_replicate member ▸ few
  · exact ((Keeps.of_evolves evolves sound).of_subset
      fun _ member => List.mem_append_right _ member).trans released.keeps
  · exact exact' holds fun tree member => List.eq_of_mem_replicate member ▸ few

theorem nest_ends (depth : Nat)
    (makes : Makes followed before atWork [value] memory [tree] closures) :
    (nest value depth).Ends memory fun result after =>
      ∃ nested, Makes followed before atWork [result] after [nested] closures ∧
        (followed → nested = Recipe.wrapped tree depth) := by
  induction depth generalizing memory value tree with
  | zero => exact .pure ⟨tree, makes, fun _ => rfl⟩
  | succ depth inductionHypothesis =>
    refine (newVector_ends makes.sound makes.each makes.idle).bind fun result grown grows => ?_
    rw [List.flatMap_singleton] at grows
    have implies : followed → followed ∧ (∀ inner ∈ [tree], inner.parts.length < 2 ^ 64) ∧
        (Tree.vector tree.parts).small = true := fun holds =>
      have small := makes.small_single holds
      ⟨holds, List.forall_mem_singleton.mpr (Tree.length_parts_lt small), Tree.small_parts small⟩
    obtain ⟨wrapped, made, same⟩ := makes.gathered grows implies
    refine (inductionHypothesis made).imp fun _ _ ⟨nested, nests, more⟩ =>
      ⟨nested, nests, fun holds => ?_⟩
    rw [more holds, same holds]
    rfl

end Memory

/-! ### Recipes -/

mutual

/-- Making a value ends as planting its tree ends. -/
theorem Recipe.make_refines (recipe : Recipe) {followed : Prop} {memory : Memory}
    {atWork : List Address} (sound : Sound (followed ∨ memory.Fits) memory atWork)
    (idle : memory.Idle) (surrounds : Surrounds followed memory atWork around earlier registers) :
    Refines followed (recipe.make around) (recipe.plant earlier registers) memory memory.closures
      fun still value after tree closures =>
        Makes still memory atWork [value] after [tree] closures ∧ (still → followed) := by
  cases recipe with
  | undefined =>
    exact .pure ⟨.of_computes (.of_scalar sound .undefined rfl) rfl sound idle rfl, id⟩
  | bool flag =>
    exact .pure ⟨.of_computes (.of_scalar sound (.bool flag) rfl) rfl sound idle rfl, id⟩
  | number x =>
    exact .pure ⟨.of_computes (.of_scalar sound (.number x) rfl) rfl sound idle rfl, id⟩
  | text content =>
    obtain ⟨result, after, found, computes⟩ := Memory.newText_ends sound content
    cases found
    exact .of_ok rfl rfl ⟨.of_computes computes rfl sound idle rfl, id⟩
  | range content =>
    obtain ⟨result, after, found, computes⟩ := Memory.newRange_ends sound content
    cases found
    exact .of_ok rfl rfl ⟨.of_computes computes rfl sound idle rfl, id⟩
  | function content =>
    obtain ⟨result, after, found, makes⟩ := Memory.newFunction_ends sound idle content
    cases found
    exact .of_ok rfl rfl ⟨makes, id⟩
  | vector items =>
    refine (Recipe.makeAll_refines items sound idle surrounds).bind
      fun still values made trees closures ⟨makes, implies⟩ => .counted ?_
    refine .ends_bind (Memory.newVector_ends makes.sound makes.each makes.idle)
      fun result after grows => ?_
    obtain ⟨tree, grown, same⟩ := makes.counted grows fun holds tree member =>
      Tree.length_parts_lt (makes.small holds tree member)
    exact (Refines.pure ⟨grown, fun holds => implies holds.1⟩).replace fun holds => by
      rw [same holds]
  | embedded inner =>
    refine (Recipe.make_refines inner sound idle surrounds).bind
      fun still value made tree closures ⟨makes, implies⟩ => ?_
    refine (Attempt.vector_refines makes.denotes).bind ?_
    rintro _ address after items last ⟨rfl, rfl, rfl, rfl, rfl⟩
    obtain ⟨elements, shows⟩ := Shows.of_vector makes.denotes
    exact .pure ⟨⟨makes.sound, .cons shows.embedded .nil, makes.idle, makes.warnings,
      makes.closures, makes.silent, makes.keeps, fun holds => List.forall_mem_singleton.mpr
        (makes.small_single holds)⟩, implies⟩
  | copies count inner =>
    refine (Recipe.make_refines inner sound idle surrounds).bind
      fun still value made tree closures ⟨makes, implies⟩ => .counted ?_
    refine .ends_bind (Memory.repeat_ends count makes.sound makes.idle makes.denotes)
      fun result after grows => ?_
    obtain ⟨tree, grown, same⟩ := makes.counted grows fun holds =>
      Tree.length_parts_lt (makes.small_single holds)
    exact (Refines.pure ⟨grown, fun holds => implies holds.1⟩).replace fun holds => by
      rw [same holds]
  | nested depth inner =>
    refine (Recipe.make_refines inner sound idle surrounds).bind
      fun still value made tree closures ⟨makes, implies⟩ => ?_
    exact .ends (Memory.nest_ends depth makes) fun _ _ ⟨wrapped, nests, same⟩ =>
      ⟨wrapped, ⟨nests, implies⟩, same⟩
  | earlier position =>
    rw [Recipe.make, Recipe.plant]
    rcases forall₂_getElem? surrounds.earlier position with
      ⟨missing, absent⟩ | ⟨value, tree, found, planted, denotes⟩
    · rw [missing, absent]
      exact .throw _
    · rw [found, planted]
      refine .ends (Memory.copy_ends sound idle (fun handle member => ?_) denotes fun holds =>
        surrounds.smallEarlier holds tree (List.mem_of_getElem? planted))
          fun _ _ makes => ⟨_, ⟨makes, id⟩, fun _ => rfl⟩
      refine surrounds.heldEarlier handle ?_
      have one := List.singleton_sublist.mpr (List.mem_of_getElem? found)
      exact (handles_sublist one).subset member
  | register position =>
    rw [Recipe.make, Recipe.plant]
    rcases forall₂_getElem? surrounds.registers position with
      ⟨missing, absent⟩ | ⟨address, items, found, planted, denotes⟩
    · rw [missing, absent]
      exact .throw _
    · rw [found, planted]
      refine .ends (Memory.copy_ends sound idle (fun handle member => ?_) denotes fun holds =>
        surrounds.smallRegisters holds items (List.mem_of_getElem? planted))
          fun _ _ makes => ⟨_, ⟨makes, id⟩, fun _ => rfl⟩
      rw [List.mem_singleton.mp member]
      exact surrounds.heldRegisters address (List.mem_of_getElem? found)

theorem Recipe.makeAll_refines (recipes : List Recipe) {followed : Prop} {memory : Memory}
    {atWork : List Address} (sound : Sound (followed ∨ memory.Fits) memory atWork)
    (idle : memory.Idle) (surrounds : Surrounds followed memory atWork around earlier registers) :
    Refines followed (Recipe.makeAll around recipes) (Recipe.plantAll earlier registers recipes)
      memory memory.closures fun still values after trees closures =>
        Makes still memory atWork values after trees closures ∧ (still → followed) := by
  cases recipes with
  | nil => exact .pure ⟨.nil sound idle, id⟩
  | cons recipe recipes =>
    refine (Recipe.make_refines recipe sound idle surrounds).bind
      fun still value made tree closures ⟨makes, implies⟩ => ?_
    have further := Recipe.makeAll_refines recipes makes.sound makes.idle
      (surrounds.kept makes.keeps (handles [value]) implies)
    rw [makes.closures] at further
    exact further.bind fun stays values after trees final ⟨rest, stayed⟩ =>
      .pure ⟨makes.cons rest stayed, fun holds => implies (stayed holds)⟩

end

end Parts

end SolidScript
