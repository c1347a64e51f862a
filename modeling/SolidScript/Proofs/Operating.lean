/-
This file proves that every operation on values comes to an end, and that it answers what it answers
on their trees, with the same warnings, as long as words count the items of all vectors in its
operands. Some operations walk through their operands, others flatten them; neither changes what any
value denotes, so it does not matter which operands share storages, or are flat already.
-/

import SolidScript.Proofs.Comparing
import SolidScript.Proofs.Multiplying
import SolidScript.Proofs.Tree.Operation
import SolidScript.Proofs.Writing

namespace SolidScript

open Value (handles)

variable {sure : Prop} {atWork : List Address} {memory : Memory}

/-! ### Sizes -/

namespace Memory

/-- Words can count the elements that a walk through the vector passes. -/
def Countable (memory : Memory) (vector : Value) : Prop :=
  ∀ address elements, vector.storage? = some address → memory.list address = some elements →
    elements.size < 2 ^ 64

namespace Countable

variable {value : Value} {tree : Tree}

/-- What words can count are the items of the tree. -/
theorem few (countable : memory.Countable value) (denotes : Denotes memory value tree) :
    tree.items.length < 2 ^ 64 := by
  cases stored : value.storage? with
  | none =>
    cases denotes with
    | vector | embedded => contradiction
    | _ => exact (by decide : 0 < 2 ^ 64)
  | some address =>
    obtain ⟨elements, shows⟩ := denotes.shows_items stored
    rw [← shows.each.length_eq]
    exact countable address elements.toArray stored (list_eq shows.inside shows.expands)

theorem of_few (few : tree.items.length < 2 ^ 64) (denotes : Denotes memory value tree) :
    memory.Countable value := by
  intro address elements stored lists
  obtain ⟨shown, shows⟩ := denotes.shows_items stored
  cases lists.symm.trans (list_eq shows.inside shows.expands)
  exact shows.each.length_eq.trans_lt few

theorem evolved {warned : List Warning} {lent : List Address} {after : Memory}
    (countable : memory.Countable value) (denotes : Denotes memory value tree)
    (evolves : Evolves warned lent memory after) : after.Countable value :=
  .of_few (countable.few denotes) (evolves.denotes denotes)

end Countable

end Memory

namespace Value

variable {value a b : Value} {tree x y : Tree}

/-! ### Quotients -/

theorem divide_builds (sound : Sound sure memory atWork) (first : Denotes memory a x)
    (second : Denotes memory b y) :
    (a.divide b).Ends memory (Builds sure memory atWork (x.divide y)) := by
  have undefined : (pure .undefined : Action Value).Ends memory
      (Builds sure memory atWork .undefined) := .pure (.of_scalar sound .undefined rfl)
  cases a with
  | number =>
    cases b with
    | number =>
      cases first
      cases second
      exact .pure (.of_scalar sound (.number _) rfl)
    | vector =>
      cases first
      obtain ⟨items, rfl, _⟩ := second.follows
      exact Elementwise.changes _ _ memory atWork _ sound second
    | _ =>
      cases first
      cases second
      exact undefined
  | vector =>
    obtain ⟨items, rfl, _⟩ := first.follows
    cases b with
    | number =>
      cases second
      exact Elementwise.changes _ _ memory atWork _ sound first
    | _ =>
      cases second
      exact undefined
  | _ =>
    cases first
    exact undefined

theorem modulo_builds (sound : Sound sure memory atWork) (first : Denotes memory a x)
    (second : Denotes memory b y) :
    (a.modulo b).Ends memory (Builds sure memory atWork (x.modulo y)) := by
  cases first with
  | number x =>
    cases second with
    | number y => exact .pure (.of_scalar sound (.number _) rfl)
    | _ => exact .pure (.of_scalar sound .undefined rfl)
  | _ => exact .pure (.of_scalar sound .undefined rfl)

/-! ### Access by position -/

/-- A value was found, or computed. It denotes the expected tree, and is no placeholder, if one can
be sure and the operands are small. -/
def Obtains (sure small : Prop) (before : Memory) (atWork : List Address)
    (expected : Tree × List Warning) (result : Value) (after : Memory) : Prop :=
  ∃ tree warned, Sound sure after (handles [result] ++ atWork) ∧ Denotes after result tree ∧
    Evolves warned [] before after ∧
      (sure → small → result.isEmbedded = false ∧ (tree, warned) = expected)

theorem Obtains.of_yields {small : Prop} {expected : Tree × List Warning} {result : Value}
    {after : Memory} (yields : Yields sure small memory atWork expected result after) :
    Obtains sure small memory atWork expected result after := by
  obtain ⟨tree, warned, computes, exact'⟩ := yields
  exact ⟨tree, warned, computes.sound, computes.denotes, computes.evolves,
    fun holds little => ⟨computes.direct, exact' holds little⟩⟩

theorem Obtains.of_computes {small : Prop} {tree : Tree} {warned : List Warning} {result : Value}
    {after : Memory} (computes : Computes sure memory atWork tree warned result after) :
    Obtains sure small memory atWork (tree, warned) result after :=
  .of_yields computes.yields

theorem Obtains.of_implies {small smaller : Prop} {expected : Tree × List Warning} {result : Value}
    {after : Memory} (obtains : Obtains sure small memory atWork expected result after)
    (implies : smaller → small) : Obtains sure smaller memory atWork expected result after := by
  obtain ⟨tree, warned, afterSound, denotes, evolves, exact'⟩ := obtains
  exact ⟨tree, warned, afterSound, denotes, evolves, fun holds little => exact' holds
    (implies little)⟩

/-- The element at a position of few denotes the item there, and is no placeholder. -/
theorem element_obtains {address : Address} {elements : List Value} {items : List Tree}
    (sound : Sound sure memory atWork) (member : address ∈ atWork)
    (shows : Shows memory address elements items) (position : Nat) :
    (Memory.element address position).Ends memory
      (Obtains sure (items.length < 2 ^ 64) memory atWork
        (items[position]?.getD .undefined, [])) := by
  refine (Memory.element_ends sound member position).imp ?_
  rintro found after ⟨afterSound, evolves, values, trees, stores, rfl⟩
  refine ⟨_, [], afterSound, Memory.denotes_elementOf stores.each position, evolves, ?_⟩
  intro holds few
  have alive := afterSound.owned.alive_of_mem (List.mem_append_right _ member)
  obtain ⟨rfl, rfl⟩ := stores.eq_of_shows afterSound alive holds (evolves.shows shows) few
  exact ⟨Memory.direct_elementOf shows.expands.direct position, rfl⟩

theorem elementAt_ends (sound : Sound sure memory atWork)
    (inValue : ∀ handle ∈ handles [value], handle ∈ atWork) (denotes : Denotes memory value tree)
    (position : Nat) :
    (value.elementAt position).Ends memory
      (Obtains sure (memory.Countable value) memory atWork (tree.elementAt position, [])) := by
  cases denotes with
  | text content =>
    rw [elementAt, Tree.elementAt]
    cases pieceAt? content.content position with
    | none => exact .pure (.of_computes (.of_scalar sound .undefined rfl))
    | some piece => exact (Memory.newText_ends sound piece).imp fun _ _ => .of_computes
  | vector inside expands each =>
    exact (element_obtains sound (inValue _ List.mem_cons_self) ⟨inside, expands, each⟩
      position).imp fun _ _ obtains => obtains.of_implies fun countable =>
        countable.few (.vector inside expands each)
  | embedded inside expands each =>
    exact (element_obtains sound (inValue _ List.mem_cons_self) ⟨inside, expands, each⟩
      position).imp fun _ _ obtains => obtains.of_implies fun countable =>
        countable.few (.embedded inside expands each)
  | range =>
    rcases position with _ | _ | _ | position
    · exact .pure (.of_computes (.of_scalar sound (.number _) rfl))
    · exact .pure (.of_computes (.of_scalar sound (.number _) rfl))
    · exact .pure (.of_computes (.of_scalar sound (.number _) rfl))
    · exact .pure (.of_computes (.of_scalar sound .undefined rfl))
  | _ => exact .pure (.of_computes (.of_scalar sound .undefined rfl))

theorem index_ends (sound : Sound sure memory atWork)
    (inValue : ∀ handle ∈ handles [a], handle ∈ atWork) (first : Denotes memory a x)
    (second : Denotes memory b y) :
    (a.index b).Ends memory (Obtains sure (x.small = true) memory atWork (x.index y, [])) := by
  cases second with
  | number position =>
    exact (elementAt_ends sound inValue first _).imp fun _ _ obtains =>
      obtains.of_implies fun small => .of_few (Tree.length_items_lt small) first
  | _ => exact .pure (.of_computes (.of_scalar sound .undefined rfl))

/-! ### Components -/

/-- What is found on all elements of a small vector is what is found on its items. -/
theorem readingElements_ends {α : Type} {work : List Value → Option α} {meant : Tree → Option α}
    (same : ∀ memory elements items, List.Forall₂ (Denotes memory) elements items →
      work elements = meant (.vector items))
    (none : ∀ tree : Tree, tree.kind ≠ .vector → meant tree = none)
    (sound : Sound sure memory atWork) (inValue : ∀ handle ∈ handles [value], handle ∈ atWork)
    (denotes : Denotes memory value tree) :
    (value.readingElements work).Ends memory fun result after =>
      Sound sure after atWork ∧ Evolves [] [] memory after ∧
        (sure → tree.small = true → result = meant tree) := by
  cases denotes with
  | @vector address elements items inside expands each =>
    have member := inValue address List.mem_cons_self
    refine Memory.reading_ends [] (fun _ => []) (fun result _ => sure →
      (Tree.vector items).small = true → result = meant (.vector items)) sound
      (sound.owned.alive_of_mem member) (fun _ _ _ _ same => same)
      fun lent lentSound opened flat => ?_
    have alive := lentSound.owned.alive_of_mem member
    obtain ⟨trees, stores⟩ := Memory.Stores.of_flat lentSound alive flat
    refine .pure ⟨lentSound, .refl lentSound, fun holds small => ?_⟩
    obtain ⟨-, rfl⟩ := stores.eq_of_shows lentSound alive holds
      (opened.shows ⟨inside, expands, each⟩) (Tree.small_vector_iff.mp small).1
    exact same lent _ _ stores.each
  | _ => exact .pure ⟨sound, .refl sound, fun _ _ => (none _ (by simp [Tree.kind])).symm⟩

theorem pair?_ends {component : Value → Option Float} {meant : Tree → Option Float}
    (same : ∀ memory value tree, Denotes memory value tree → component value = meant tree)
    (sound : Sound sure memory atWork) (inValue : ∀ handle ∈ handles [value], handle ∈ atWork)
    (denotes : Denotes memory value tree) :
    (value.pair? component).Ends memory fun result after =>
      Sound sure after atWork ∧ Evolves [] [] memory after ∧
        (sure → tree.small = true → result = tree.pair? meant) := by
  refine readingElements_ends (fun memory elements items each => ?_) ?_ sound inValue denotes
  · match each with
    | .nil | .cons _ .nil | .cons _ (.cons _ (.cons _ _)) => rfl
    | .cons first (.cons second .nil) =>
      rw [Tree.pair?, ← same _ _ _ first, ← same _ _ _ second]
  · intro tree other
    cases tree with
    | vector => contradiction
    | _ => rfl

theorem triple?_ends (sound : Sound sure memory atWork)
    (inValue : ∀ handle ∈ handles [value], handle ∈ atWork) (denotes : Denotes memory value tree) :
    value.triple?.Ends memory fun result after =>
      Sound sure after atWork ∧ Evolves [] [] memory after ∧
        (sure → tree.small = true → result = tree.triple?) := by
  refine readingElements_ends (fun memory elements items each => ?_) ?_ sound inValue denotes
  · match each with
    | .nil | .cons _ .nil | .cons _ (.cons _ .nil) | .cons _ (.cons _ (.cons _ (.cons _ _))) => rfl
    | .cons first (.cons second (.cons third .nil)) =>
      rw [Tree.triple?, ← number?_eq first, ← number?_eq second, ← number?_eq third]
  · intro tree other
    cases tree with
    | vector => contradiction
    | _ => rfl

theorem tripleOr?_ends (sound : Sound sure memory atWork)
    (inValue : ∀ handle ∈ handles [value], handle ∈ atWork) (denotes : Denotes memory value tree)
    (third : Float) :
    (value.tripleOr? third).Ends memory fun result after =>
      Sound sure after atWork ∧ Evolves [] [] memory after ∧
        (sure → tree.small = true → result = tree.tripleOr? third) := by
  refine (pair?_ends (fun _ _ _ => number?_eq) sound inValue denotes).bind ?_
  rintro found paired ⟨pairedSound, evolves, exact'⟩
  cases found with
  | some components =>
    refine .pure ⟨pairedSound, evolves, fun holds small => ?_⟩
    rw [Tree.tripleOr?, ← exact' holds small]
  | none =>
    refine (triple?_ends pairedSound inValue (evolves.denotes denotes)).imp
      fun result after ⟨afterSound, further, last⟩ =>
        ⟨afterSound, evolves.trans further, fun holds small => ?_⟩
    rw [Tree.tripleOr?, ← exact' holds small]
    exact last holds small

end Value

/-! ### Operators -/

section Operators

variable {a b : Value} {x y : Tree}

/-- What is looked up in memory as a flag is computed. -/
theorem comparison_builds {look : Memory → Option Bool} {flag : Bool}
    (sound : Sound sure memory atWork) (found : look memory = some flag) :
    (BinaryOperator.comparison look).Ends memory (Builds sure memory atWork (.bool flag)) :=
  .read_bind found (.pure (.of_scalar sound (.bool flag) rfl))

/-- Two values are found equal or not, just as their trees are if these are small. -/
theorem Value.equals_found (sound : Sound sure memory atWork)
    (inA : ∀ handle ∈ handles [a], handle ∈ atWork) (inB : ∀ handle ∈ handles [b], handle ∈ atWork)
    (first : Denotes memory a x) (second : Denotes memory b y) :
    ∃ flag, a.equals memory b = some flag ∧
      (sure → x.small = true ∧ y.small = true → flag = x.equals y) := by
  obtain ⟨flag, found⟩ := Value.equals_ends first second
  refine ⟨flag, found, fun holds ⟨smallA, smallB⟩ => ?_⟩
  have alive : ∀ handle ∈ atWork, memory.owners handle ≠ 0 :=
    fun _ => sound.owned.alive_of_mem
  exact Option.some.inj (found.symm.trans (Value.equals_eq (sound.counts holds)
    (fun handle member => alive handle (inA handle member))
    (fun handle member => alive handle (inB handle member)) first second smallA smallB))

/-- Binary operators other than the product compute on small values what they compute on trees, and
flatten nothing. -/
theorem BinaryOperator.evaluate_builds {operator : BinaryOperator} (other : operator ≠ .multiply)
    (sound : Sound sure memory atWork) (inA : ∀ handle ∈ handles [a], handle ∈ atWork)
    (inB : ∀ handle ∈ handles [b], handle ∈ atWork) (first : Denotes memory a x)
    (second : Denotes memory b y) :
    ∃ tree, (operator.evaluate a b).Ends memory (Builds sure memory atWork tree) ∧
      (sure → x.small = true ∧ y.small = true → tree = (Tree.binary operator x y).1) := by
  obtain ⟨flag, equal, exact'⟩ := Value.equals_found sound inA inB first second
  have relates := fun relation => Value.relate_eq relation first second
  cases operator with
  | add =>
    exact ⟨_, Elementwise.combines _ _ memory atWork a b y sound first second, fun _ _ => rfl⟩
  | subtract =>
    exact ⟨_, Elementwise.combines _ _ memory atWork a b y sound first second, fun _ _ => rfl⟩
  | multiply => contradiction
  | divide => exact ⟨_, Value.divide_builds sound first second, fun _ _ => rfl⟩
  | modulo => exact ⟨_, Value.modulo_builds sound first second, fun _ _ => rfl⟩
  | equal =>
    exact ⟨_, comparison_builds sound equal,
      fun holds small => congrArg Tree.bool (exact' holds small)⟩
  | notEqual =>
    have differ : (a.equals memory b).map (!·) = some (!flag) := by rw [equal]; rfl
    exact ⟨_, comparison_builds sound differ,
      fun holds small => congrArg (fun flag => Tree.bool (!flag)) (exact' holds small)⟩
  | less | lessOrEqual | greater | greaterOrEqual =>
    exact ⟨_, comparison_builds sound (relates _), fun _ _ => rfl⟩

/-- Binary operators compute on small values what they compute on trees. -/
theorem BinaryOperator.evaluate_ends (operator : BinaryOperator) (sound : Sound sure memory atWork)
    (inA : ∀ handle ∈ handles [a], handle ∈ atWork) (inB : ∀ handle ∈ handles [b], handle ∈ atWork)
    (first : Denotes memory a x) (second : Denotes memory b y) :
    (operator.evaluate a b).Ends memory
      (Yields sure (x.small = true ∧ y.small = true) memory atWork (Tree.binary operator x y)) := by
  by_cases product : operator = .multiply
  · subst product
    exact Value.times_ends sound inA inB first second
  · obtain ⟨tree, builds, exact'⟩ := evaluate_builds product sound inA inB first second
    have silent : (Tree.binary operator x y).2 = [] := by
      cases operator with
      | multiply => contradiction
      | _ => rfl
    refine builds.imp fun _ _ builds => ⟨tree, [], builds.toComputes, fun holds small => ?_⟩
    rw [exact' holds small, ← silent]

theorem UnaryOperator.evaluate_builds (operator : UnaryOperator) (sound : Sound sure memory atWork)
    (inA : ∀ handle ∈ handles [a], handle ∈ atWork) (first : Denotes memory a x) :
    ∃ tree, (operator.evaluate a).Ends memory (Builds sure memory atWork tree) ∧
      (sure → x.small = true → tree = Tree.unary operator x) := by
  cases operator with
  | negate => exact ⟨_, Elementwise.changes _ _ memory atWork a sound first, fun _ _ => rfl⟩
  | not =>
    refine ⟨.bool (!a.truth memory), .get_bind (.pure (.of_scalar sound (.bool _) rfl)),
      fun holds small => ?_⟩
    rw [Value.truth_eq (sound.counts holds) (fun handle member =>
      sound.owned.alive_of_mem (inA handle member)) first small]
    rfl

theorem comparisons_found (sound : Sound sure memory atWork)
    (inA : ∀ handle ∈ handles [a], handle ∈ atWork) (inB : ∀ handle ∈ handles [b], handle ∈ atWork)
    (first : Denotes memory a x) (second : Denotes memory b y) :
    ∃ flags, Operation.comparisons a b memory = some flags ∧
      (sure → x.small = true ∧ y.small = true → flags = Tree.comparisons x y) := by
  obtain ⟨flag, equal, exact'⟩ := Value.equals_found sound inA inB first second
  rw [Operation.comparisons, equal]
  simp only [Value.relate_eq _ first second]
  refine ⟨_, rfl, fun holds small => ?_⟩
  rw [exact' holds small]
  rfl

end Operators

/-! ### Operations -/

/-- An answer on values is the one on trees, with the values that the trees stand for. No value is a
placeholder, if that is clear. -/
inductive Answers (clear : Prop) (memory : Memory) : Answer Value → Answer Tree → Prop
  | nothing : Answers clear memory .nothing .nothing
  | flag (flag : Bool) : Answers clear memory (.flag flag) (.flag flag)
  | flags (flags : List Bool) : Answers clear memory (.flags flags) (.flags flags)
  | size (size : Nat) (isEmpty : Bool) :
      Answers clear memory (.size size isEmpty) (.size size isEmpty)
  | components (components : Option (List Float)) :
      Answers clear memory (.components components) (.components components)
  | text (text : String) : Answers clear memory (.text text) (.text text)
  | value {value : Value} {tree : Tree} (direct : clear → value.isEmbedded = false)
      (denotes : Denotes memory value tree) : Answers clear memory (.value value) (.value tree)
  | values {values : List Value} {trees : List Tree}
      (direct : clear → ∀ value ∈ values, value.isEmbedded = false)
      (each : List.Forall₂ (Denotes memory) values trees) :
      Answers clear memory (.values values) (.values trees)

theorem Answers.mono {clear clearer : Prop} {answer : Answer Value} {meant : Answer Tree}
    (answers : Answers clear memory answer meant) (implies : clearer → clear) :
    Answers clearer memory answer meant := by
  cases answers with
  | value direct denotes => exact .value (fun holds => direct (implies holds)) denotes
  | values direct each => exact .values (fun holds => direct (implies holds)) each
  | nothing => exact .nothing
  | flag flag => exact .flag flag
  | flags flags => exact .flags flags
  | size size isEmpty => exact .size size isEmpty
  | components components => exact .components components
  | text text => exact .text text

/-- The handles in a value that an operation answers. They belong to whoever asked. -/
def Answer.handles : Answer Value → List Address
  | .value result => Value.handles [result]
  | _ => []

/-- An operation was performed: it answers what is expected, with the expected warnings. -/
structure Performed (sure clear : Prop) (before : Memory) (atWork : List Address)
    (expected : Answer Tree × List Warning) (answer : Answer Value) (after : Memory) : Prop where
  sound : Sound sure after (answer.handles ++ atWork)
  answers : Answers clear after answer expected.1
  evolves : Evolves expected.2 [] before after

/-- An operation was performed. It answers what is expected, with the expected warnings, if one can
be sure and the operands are small. -/
def Performs (sure small : Prop) (before : Memory) (atWork : List Address)
    (expected : Answer Tree × List Warning) (answer : Answer Value) (after : Memory) : Prop :=
  ∃ found, Performed sure (sure ∧ small) before atWork found answer after ∧
    (sure → small → found = expected)

namespace Performs

variable {small : Prop} {expected : Answer Tree × List Warning}

/-- A value that was obtained is answered. -/
theorem of_obtains {action : Action Value} {tree : Tree} {warned : List Warning}
    (ends : action.Ends memory (Value.Obtains sure small memory atWork (tree, warned))) :
    (Answer.value <$> action : Action (Answer Value)).Ends memory
      (Performs sure small memory atWork (.value tree, warned)) := by
  refine .map (ends.imp fun result after ⟨found, reported, sound, denotes, evolves, exact'⟩ =>
    ⟨(.value found, reported), ⟨sound, .value (fun holds => (exact' holds.1 holds.2).1) denotes,
      evolves⟩, fun holds little => ?_⟩)
  cases (exact' holds little).2
  rfl

/-- A value that was yielded is answered. -/
theorem of_yields {action : Action Value} {tree : Tree} {warned : List Warning}
    (ends : action.Ends memory (Yields sure small memory atWork (tree, warned))) :
    (Answer.value <$> action : Action (Answer Value)).Ends memory
      (Performs sure small memory atWork (.value tree, warned)) :=
  of_obtains (ends.imp fun _ _ => Value.Obtains.of_yields)

/-- Anything that is no value is answered as it was found. -/
theorem of_found {α : Type} {action : Action α} {warned : List Warning} {answer : α → Answer Value}
    {meant : α → Answer Tree} (noValue : ∀ found, (answer found).handles = [])
    (answers : ∀ clear memory found, Answers clear memory (answer found) (meant found))
    (ends : action.Ends memory fun found after =>
      Sound sure after atWork ∧ Evolves warned [] memory after ∧
        (sure → small → (meant found, warned) = expected)) :
    (answer <$> action : Action (Answer Value)).Ends memory
      (Performs sure small memory atWork expected) := by
  refine .map (ends.imp fun found after ⟨sound, evolves, exact'⟩ =>
    ⟨(meant found, warned), ⟨?_, answers _ after found, evolves⟩, exact'⟩)
  rw [noValue found]
  exact sound

/-- What is looked up leaves memory as it is. -/
theorem of_look {α : Type} {look : Memory → Option α} {found : α} {answer : α → Answer Value}
    {meant : α → Answer Tree} (noValue : ∀ found, (answer found).handles = [])
    (answers : ∀ clear memory found, Answers clear memory (answer found) (meant found))
    (sound : Sound sure memory atWork) (looked : look memory = some found)
    (exact' : sure → small → (meant found, []) = expected) :
    (answer <$> Action.read look : Action (Answer Value)).Ends memory
      (Performs sure small memory atWork expected) :=
  of_found noValue answers (.read looked ⟨sound, .refl sound, exact'⟩)

/-- Components that are found are answered. -/
theorem of_components {action : Action (Option (List Float))} {meant : Option (List Float)}
    (ends : action.Ends memory fun found after => Sound sure after atWork ∧
      Evolves [] [] memory after ∧ (sure → small → found = meant)) :
    (Answer.components <$> action : Action (Answer Value)).Ends memory
      (Performs sure small memory atWork (.components meant, [])) :=
  of_found (fun _ => rfl) (fun _ _ => .components) (ends.imp
    fun _ _ ⟨sound, evolves, exact'⟩ => ⟨sound, evolves, fun holds little => by
      rw [exact' holds little]⟩)

/-- A text that is looked up is answered. -/
theorem of_text {look : Memory → Option String} {text : String} (sound : Sound sure memory atWork)
    (found : look memory = some text) :
    (Answer.text <$> Action.read look : Action (Answer Value)).Ends memory
      (Performs sure small memory atWork (.text text, [])) :=
  of_look (fun _ => rfl) (fun _ _ => .text) sound found fun _ _ => rfl

theorem of_small {smaller : Prop} {answer : Answer Value} {after : Memory}
    (performs : Performs sure small memory atWork expected answer after)
    (implies : smaller → small) :
    Performs sure smaller memory atWork expected answer after := by
  obtain ⟨found, ⟨sound, answers, evolves⟩, exact'⟩ := performs
  exact ⟨found, ⟨sound, answers.mono (And.imp_right implies), evolves⟩,
    fun holds little => exact' holds (implies little)⟩

end Performs

theorem Operation.operands_map {α β : Type} (operation : Operation α) (image : α → β) :
    (operation.map image).operands = operation.operands.map image := by
  cases operation <;> rfl

/-- The operands of an operation are small. -/
def Operation.Small (operation : Operation Tree) : Prop :=
  ∀ tree ∈ operation.operands, tree.small = true

/-- Every operation on values that are at work answers what it answers on their trees, if these are
small. The operands are given as pairs of values and trees. -/
theorem Operation.perform_ends (operation : Operation (Value × Tree))
    (sound : Sound sure memory atWork)
    (held : ∀ pair ∈ operation.operands, ∀ handle ∈ handles [pair.1], handle ∈ atWork)
    (denotes : ∀ pair ∈ operation.operands, Denotes memory pair.1 pair.2) :
    (operation.map Prod.fst).perform.Ends memory
      (Performs sure (operation.map Prod.snd).Small memory atWork
        (operation.map Prod.snd).evaluate) := by
  have single : ∀ {tree : Tree}, (∀ operand ∈ [tree], operand.small = true) → tree.small = true :=
    fun small => small _ List.mem_cons_self
  have double : ∀ {x y : Tree}, (∀ operand ∈ [x, y], operand.small = true) →
      x.small = true ∧ y.small = true :=
    fun small => ⟨small _ List.mem_cons_self, small _ (List.mem_cons_of_mem _ List.mem_cons_self)⟩
  cases operation with
  | binary operator a b =>
    have first := denotes a List.mem_cons_self
    have second := denotes b (List.mem_cons_of_mem _ List.mem_cons_self)
    exact (Performs.of_yields (operator.evaluate_ends sound (held a List.mem_cons_self)
      (held b (List.mem_cons_of_mem _ List.mem_cons_self)) first second)).imp
        fun _ _ performs => performs.of_small double
  | unary operator a =>
    obtain ⟨tree, builds, exact'⟩ := operator.evaluate_builds sound (held a List.mem_cons_self)
      (denotes a List.mem_cons_self)
    refine Performs.of_yields (builds.imp fun _ _ builds =>
      ⟨tree, [], builds.toComputes, fun holds small => ?_⟩)
    rw [exact' holds (single small)]
    rfl
  | compare a b =>
    have first := denotes a List.mem_cons_self
    have second := denotes b (List.mem_cons_of_mem _ List.mem_cons_self)
    obtain ⟨flags, found, exact'⟩ := comparisons_found sound (held a List.mem_cons_self)
      (held b (List.mem_cons_of_mem _ List.mem_cons_self)) first second
    refine Performs.of_look (fun _ => rfl) (fun _ _ => .flags) sound found fun holds small => ?_
    rw [exact' holds (double small)]
    rfl
  | truth a =>
    refine Performs.of_look (fun _ => rfl) (fun _ _ => .flag) sound rfl fun holds small => ?_
    exact congrArg (fun flag => (Answer.flag flag, [])) (Value.truth_eq (sound.counts holds)
      (fun handle member => sound.owned.alive_of_mem (held a List.mem_cons_self handle member))
      (denotes a List.mem_cons_self) (single small))
  | index a position =>
    have first := denotes a List.mem_cons_self
    have second := denotes position (List.mem_cons_of_mem _ List.mem_cons_self)
    exact (Performs.of_obtains (Value.index_ends sound (held a List.mem_cons_self) first
      second)).imp fun _ _ performs => performs.of_small fun small => (double small).1
  | indexAt a position =>
    have first := denotes a List.mem_cons_self
    exact (Performs.of_obtains (Value.elementAt_ends sound (held a List.mem_cons_self) first
      _)).imp fun _ _ performs => performs.of_small fun small =>
        .of_few (Tree.length_items_lt (single small)) first
  | pair a finite =>
    refine (Performs.of_components (Value.pair?_ends (fun _ value tree one => ?_) sound
      (held a List.mem_cons_self) (denotes a List.mem_cons_self))).imp
        fun _ _ performs => performs.of_small single
    cases finite with
    | false => exact number?_eq one
    | true => exact congrArg (Option.filter Float.isFinite) (number?_eq one)
  | triple a =>
    exact (Performs.of_components (Value.triple?_ends sound (held a List.mem_cons_self)
      (denotes a List.mem_cons_self))).imp fun _ _ performs => performs.of_small single
  | tripleOr a third =>
    exact (Performs.of_components (Value.tripleOr?_ends sound (held a List.mem_cons_self)
      (denotes a List.mem_cons_self) third)).imp fun _ _ performs => performs.of_small single
  | characters a =>
    refine Performs.of_found (fun _ => rfl) (fun _ _ => .text) ((Value.characters_ends sound
      (denotes a List.mem_cons_self)).imp
        fun _ _ ⟨text, afterSound, evolves, _⟩ => ⟨afterSound, evolves, fun _ _ => ?_⟩)
    rw [text]
    rfl
  | «show» a => exact Performs.of_text sound (Value.shown_eq (denotes a List.mem_cons_self))
  | echo a => exact Performs.of_text sound (Value.echoed_eq (denotes a List.mem_cons_self))
  | write a => exact Performs.of_text sound (Value.written_eq (denotes a List.mem_cons_self))
  | inspect a => exact Performs.of_text sound (Value.inspected_eq (denotes a List.mem_cons_self))

end SolidScript
