/-
This file says what stored elements and values stand for in a memory. Stored elements expand to the
elements of a vector, by putting the elements of other storages in the place of placeholders; a
value denotes the tree of its elements, each of which denotes a tree in turn. Both are derivations
of finite height, so a storage that has one holds no cycle, and both have one outcome.
-/

import SolidScript.Proofs.Lists
import SolidScript.Proofs.Storage
import SolidScript.Proofs.Tree

namespace SolidScript

open Value (handles)

/-! ### Handles -/

@[simp]
theorem handles_nil : handles [] = [] := rfl

@[simp]
theorem handles_vector (address : Address) (values : List Value) :
    handles (.vector address :: values) = address :: handles values := rfl

@[simp]
theorem handles_embedded (address : Address) (values : List Value) :
    handles (.embedded address :: values) = address :: handles values := rfl

@[simp]
theorem handles_append (first second : List Value) :
    handles (first ++ second) = handles first ++ handles second :=
  List.filterMap_append

theorem handles_cons (value : Value) (values : List Value) :
    handles (value :: values) = handles [value] ++ handles values :=
  handles_append [value] values

theorem mem_handles {values : List Value} {address : Address} :
    address ∈ handles values ↔ .vector address ∈ values ∨ .embedded address ∈ values := by
  rw [handles, List.mem_filterMap]
  constructor
  · rintro ⟨value, member, found⟩
    cases value with
    | vector other => exact Or.inl (Option.some.inj found ▸ member)
    | embedded other => exact Or.inr (Option.some.inj found ▸ member)
    | _ => contradiction
  · rintro (member | member)
    · exact ⟨_, member, rfl⟩
    · exact ⟨_, member, rfl⟩

theorem handles_sublist {first second : List Value} (sublist : first.Sublist second) :
    (handles first).Sublist (handles second) :=
  sublist.filterMap _

/-! ### Expansion -/

/-- The elements that stored elements stand for. -/
inductive Expands (memory : Memory) : List Value → List Value → Prop
  | nil : Expands memory [] []
  | plain {value : Value} {stored elements : List Value} (direct : value.isEmbedded = false)
      (rest : Expands memory stored elements) : Expands memory (value :: stored) (value :: elements)
  | splice {address : Address} {stored inner elements : List Value}
      (inside : address < memory.storages.size)
      (hidden : Expands memory (memory.contents address) inner)
      (rest : Expands memory stored elements) :
      Expands memory (.embedded address :: stored) (inner ++ elements)

namespace Expands

variable {memory : Memory}

/-- No element is a placeholder. -/
theorem direct {stored elements : List Value} (expands : Expands memory stored elements) :
    ∀ value ∈ elements, value.isEmbedded = false := by
  induction expands with
  | nil => exact fun _ member => absurd member List.not_mem_nil
  | plain direct _ inductionHypothesis =>
    intro value member
    rcases List.mem_cons.mp member with rfl | later
    · exact direct
    · exact inductionHypothesis value later
  | splice _ _ _ innerHypothesis restHypothesis =>
    intro value member
    rcases List.mem_append.mp member with within | later
    · exact innerHypothesis value within
    · exact restHypothesis value later

/-- Elements without placeholders stand for themselves. -/
theorem of_direct (memory : Memory) (elements : List Value)
    (direct : ∀ value ∈ elements, value.isEmbedded = false) :
    Expands memory elements elements := by
  induction elements with
  | nil => exact nil
  | cons value elements inductionHypothesis =>
    exact plain (direct value List.mem_cons_self)
      (inductionHypothesis fun other member => direct other (List.mem_cons_of_mem _ member))

/-- What is stored itself is among the elements. -/
theorem mem_of_direct {stored elements : List Value} (expands : Expands memory stored elements)
    {value : Value} (member : value ∈ stored) (direct : value.isEmbedded = false) :
    value ∈ elements := by
  induction expands with
  | nil => exact absurd member List.not_mem_nil
  | plain _ _ inductionHypothesis =>
    rcases List.mem_cons.mp member with rfl | later
    · exact List.mem_cons_self
    · exact List.mem_cons_of_mem _ (inductionHypothesis later)
  | splice _ _ _ _ restHypothesis =>
    rcases List.mem_cons.mp member with rfl | later
    · contradiction
    · exact List.mem_append_right _ (restHypothesis later)

/-- Stored elements stand for one list of elements. -/
theorem unique {stored first second : List Value} (one : Expands memory stored first)
    (two : Expands memory stored second) : first = second := by
  induction one generalizing second with
  | nil =>
    cases two
    rfl
  | plain direct _ inductionHypothesis =>
    cases two with
    | plain _ rest => rw [inductionHypothesis rest]
    | splice => contradiction
  | splice _ _ _ innerHypothesis restHypothesis =>
    cases two with
    | plain direct => contradiction
    | splice _ hidden rest => rw [innerHypothesis hidden, restHypothesis rest]

theorem append {first second elements others : List Value} (one : Expands memory first elements)
    (two : Expands memory second others) :
    Expands memory (first ++ second) (elements ++ others) := by
  induction one with
  | nil => exact two
  | plain direct _ inductionHypothesis => exact plain direct inductionHypothesis
  | splice inside hidden _ _ restHypothesis =>
    rw [List.append_assoc]
    exact splice inside hidden restHypothesis

/-- Whatever holds of all handles that are stored, and passes from a storage to the handles in it,
holds of all handles among the elements. -/
theorem handles_of {stored elements : List Value} (expands : Expands memory stored elements)
    {kept : Address → Prop} (closed : ∀ address, kept address →
      ∀ handle ∈ handles (memory.contents address), kept handle)
    (start : ∀ handle ∈ handles stored, kept handle) :
    ∀ handle ∈ handles elements, kept handle := by
  induction expands with
  | nil => exact start
  | @plain value stored elements _ _ inductionHypothesis =>
    rw [handles_cons] at start ⊢
    intro handle member
    rcases List.mem_append.mp member with first | later
    · exact start handle (List.mem_append_left _ first)
    · exact inductionHypothesis
        (fun other stored => start other (List.mem_append_right _ stored)) handle later
  | splice _ _ _ innerHypothesis restHypothesis =>
    rw [handles_append]
    intro handle member
    rcases List.mem_append.mp member with within | later
    · exact innerHypothesis (closed _ (start _ List.mem_cons_self)) handle within
    · exact restHypothesis
        (fun other stored => start other (List.mem_cons_of_mem _ stored)) handle later

end Expands

/-! ### Meaning -/

/-- Ranges of one identity are one range. -/
def Memory.Registers (memory : Memory) (range : Shared Range) : Prop :=
  memory.ranges[range.identity]? = some range.content

/-- The tree that a value denotes. How a storage counts its elements does not matter. A range must
be the one of its identity. -/
inductive Denotes (memory : Memory) : Value → Tree → Prop
  | undefined : Denotes memory .undefined .undefined
  | bool (flag : Bool) : Denotes memory (.bool flag) (.bool flag)
  | number (x : Float) : Denotes memory (.number x) (.number x)
  | text (text : Shared String) : Denotes memory (.text text) (.text text.content)
  | range {range : Shared Range} (registers : memory.Registers range) :
      Denotes memory (.range range) (.range range.content)
  | function (closure : Shared Closure) : Denotes memory (.function closure) (.function closure)
  | vector {address : Address} {elements : List Value} {items : List Tree}
      (inside : address < memory.storages.size)
      (expands : Expands memory (memory.contents address) elements)
      (each : List.Forall₂ (Denotes memory) elements items) :
      Denotes memory (.vector address) (.vector items)
  | embedded {address : Address} {elements : List Value} {items : List Tree}
      (inside : address < memory.storages.size)
      (expands : Expands memory (memory.contents address) elements)
      (each : List.Forall₂ (Denotes memory) elements items) :
      Denotes memory (.embedded address) (.embedded items)

/-- The elements of a storage, and the trees that they denote. -/
structure Shows (memory : Memory) (address : Address) (elements : List Value)
    (items : List Tree) : Prop where
  inside : address < memory.storages.size
  expands : Expands memory (memory.contents address) elements
  each : List.Forall₂ (Denotes memory) elements items

/-- The storage that a value refers to shows the items of its tree. -/
theorem Denotes.shows_items {memory : Memory} {value : Value} {tree : Tree}
    (denotes : Denotes memory value tree) {address : Address}
    (stored : value.storage? = some address) :
    ∃ elements, Shows memory address elements tree.items := by
  cases denotes with
  | vector inside expands each =>
    cases stored
    exact ⟨_, inside, expands, each⟩
  | embedded inside expands each =>
    cases stored
    exact ⟨_, inside, expands, each⟩
  | _ => contradiction

theorem denotes_vector_iff {memory : Memory} {address : Address} {tree : Tree} :
    Denotes memory (.vector address) tree ↔
      ∃ elements items, tree = .vector items ∧ Shows memory address elements items := by
  constructor
  · intro denotes
    cases denotes with
    | vector inside expands each =>
      exact ⟨_, _, rfl, inside, expands, each⟩
  · rintro ⟨elements, items, rfl, inside, expands, each⟩
    exact .vector inside expands each

theorem denotes_embedded_iff {memory : Memory} {address : Address} {tree : Tree} :
    Denotes memory (.embedded address) tree ↔
      ∃ elements items, tree = .embedded items ∧ Shows memory address elements items := by
  constructor
  · intro denotes
    cases denotes with
    | embedded inside expands each =>
      exact ⟨_, _, rfl, inside, expands, each⟩
  · rintro ⟨elements, items, rfl, inside, expands, each⟩
    exact .embedded inside expands each

namespace Shows

variable {memory : Memory} {address : Address} {elements : List Value} {items : List Tree}

theorem vector (shows : Shows memory address elements items) :
    Denotes memory (.vector address) (.vector items) :=
  denotes_vector_iff.mpr ⟨elements, items, rfl, shows⟩

theorem embedded (shows : Shows memory address elements items) :
    Denotes memory (.embedded address) (.embedded items) :=
  denotes_embedded_iff.mpr ⟨elements, items, rfl, shows⟩

theorem of_vector (denotes : Denotes memory (.vector address) (.vector items)) :
    ∃ elements, Shows memory address elements items := by
  obtain ⟨elements, _, same, shows⟩ := denotes_vector_iff.mp denotes
  cases same
  exact ⟨elements, shows⟩

end Shows

/-! ### Lists of values -/

/-- Values denote one list of trees. -/
theorem forall₂_right_unique_of_mem {memory : Memory} {values : List Value}
    {first second : List Tree} (one : List.Forall₂ (Denotes memory) values first)
    (two : List.Forall₂ (Denotes memory) values second)
    (unique : ∀ item ∈ first, ∀ value other, Denotes memory value item →
      Denotes memory value other → item = other) : first = second := by
  induction one generalizing second with
  | nil =>
    cases two
    rfl
  | cons head _ inductionHypothesis =>
    cases two with
    | cons otherHead otherRest =>
      rw [unique _ List.mem_cons_self _ _ head otherHead,
        inductionHypothesis otherRest
          fun item member => unique item (List.mem_cons_of_mem _ member)]

namespace Shows

/-- A storage shows one list of elements and of trees, if each element denotes one tree. -/
theorem unique_of_mem {memory : Memory} {address : Address} {elements others : List Value}
    {items trees : List Tree} (one : Shows memory address elements items)
    (two : Shows memory address others trees)
    (unique : ∀ item ∈ items, ∀ value other, Denotes memory value item →
      Denotes memory value other → item = other) : items = trees := by
  have same := one.expands.unique two.expands
  subst same
  exact forall₂_right_unique_of_mem one.each two.each unique

end Shows

namespace Denotes

variable {memory : Memory}

/-- A value denotes one tree. -/
theorem unique {value : Value} {first second : Tree} (one : Denotes memory value first)
    (two : Denotes memory value second) : first = second := by
  induction first using Tree.induct generalizing value second with
  | undefined | bool | number | function =>
    cases one
    cases two
    rfl
  | text | range =>
    cases one
    cases two
    rfl
  | vector items inductionHypothesis =>
    cases one with
    | vector inside expands each =>
      obtain ⟨_, trees, rfl, shows⟩ := denotes_vector_iff.mp two
      rw [Shows.unique_of_mem ⟨inside, expands, each⟩ shows
        fun item member _ _ => inductionHypothesis item member]
  | embedded items inductionHypothesis =>
    cases one with
    | embedded inside expands each =>
      obtain ⟨_, trees, rfl, shows⟩ := denotes_embedded_iff.mp two
      rw [Shows.unique_of_mem ⟨inside, expands, each⟩ shows
        fun item member _ _ => inductionHypothesis item member]

end Denotes

end SolidScript
