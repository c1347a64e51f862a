/-
This file holds what is needed of lists whose members stand in a relation pair by pair, of lists
that are numbered or zipped, and of lists in which one member is changed.
-/

import Mathlib.Data.List.Forall2
import Mathlib.Data.List.Perm.Basic

namespace SolidScript

/-! ### Pairs of lists -/

/-- What holds of the items holds of the pairs. -/
theorem forall₂_imp_of_mem {α β : Type} {first second : α → β → Prop} {values : List α}
    {items : List β} (each : List.Forall₂ first values items)
    (step : ∀ value ∈ values, ∀ item ∈ items, first value item → second value item) :
    List.Forall₂ second values items := by
  induction each with
  | nil => exact .nil
  | cons head _ inductionHypothesis =>
    refine .cons (step _ List.mem_cons_self _ List.mem_cons_self head)
      (inductionHypothesis fun value inValues item inItems => ?_)
    exact step value (List.mem_cons_of_mem _ inValues) item (List.mem_cons_of_mem _ inItems)

theorem exists_mem_of_forall₂ {α β : Type} {relation : α → β → Prop} {values : List α}
    {items : List β} (each : List.Forall₂ relation values items) {value : α}
    (member : value ∈ values) : ∃ item ∈ items, relation value item := by
  induction each with
  | nil => exact absurd member List.not_mem_nil
  | cons head _ inductionHypothesis =>
    rcases List.mem_cons.mp member with rfl | later
    · exact ⟨_, List.mem_cons_self, head⟩
    · obtain ⟨item, inItems, related⟩ := inductionHypothesis later
      exact ⟨item, List.mem_cons_of_mem _ inItems, related⟩

theorem exists_of_forall₂_of_mem {α β : Type} {relation : α → β → Prop} {values : List α}
    {items : List β} (each : List.Forall₂ relation values items) {value : α}
    (member : value ∈ values) : ∃ item, relation value item := by
  obtain ⟨item, _, related⟩ := exists_mem_of_forall₂ each member
  exact ⟨item, related⟩

theorem exists_forall₂_of_forall_mem {α β : Type} {relation : α → β → Prop} {values : List α}
    (each : ∀ value ∈ values, ∃ item, relation value item) :
    ∃ items, List.Forall₂ relation values items := by
  induction values with
  | nil => exact ⟨[], .nil⟩
  | cons value values inductionHypothesis =>
    obtain ⟨item, head⟩ := each value List.mem_cons_self
    obtain ⟨items, rest⟩ := inductionHypothesis
      fun other member => each other (List.mem_cons_of_mem _ member)
    exact ⟨item :: items, .cons head rest⟩

theorem forall₂_ofFn {α β : Type} {relation : α → β → Prop} {n : Nat} {values : Fin n → α}
    {items : Fin n → β} (each : ∀ i, relation (values i) (items i)) :
    List.Forall₂ relation (List.ofFn values) (List.ofFn items) := by
  induction n with
  | zero => exact .nil
  | succ n inductionHypothesis =>
    rw [List.ofFn_succ, List.ofFn_succ]
    exact .cons (each 0) (inductionHypothesis fun i => each i.succ)

/-- At each place both lists have members that stand in the relation, or neither has one. -/
theorem forall₂_getElem? {α β : Type} {relation : α → β → Prop} {values : List α} {items : List β}
    (each : List.Forall₂ relation values items) (position : Nat) :
    (values[position]? = none ∧ items[position]? = none) ∨
      ∃ value item, values[position]? = some value ∧ items[position]? = some item ∧
        relation value item := by
  induction each generalizing position with
  | nil => exact Or.inl ⟨rfl, rfl⟩
  | cons head _ inductionHypothesis =>
    cases position with
    | zero => exact Or.inr ⟨_, _, rfl, rfl, head⟩
    | succ position => exact inductionHypothesis position

/-! ### Numbered and zipped lists -/

theorem forall_mem_zipIdx {α : Type} {list : List α} {start : Nat} (holds : α → Prop) :
    (∀ pair ∈ list.zipIdx start, holds pair.1) ↔ ∀ member ∈ list, holds member := by
  rw [← List.forall_mem_map, List.zipIdx_map_fst]

theorem forall_mem_zip {α β : Type} {first : List α} {second : List β}
    (length : first.length = second.length) (left : α → Prop) (right : β → Prop) :
    (∀ pair ∈ first.zip second, left pair.1 ∧ right pair.2) ↔
      (∀ member ∈ first, left member) ∧ ∀ member ∈ second, right member := by
  have firsts : (∀ pair ∈ first.zip second, left pair.1) ↔ ∀ member ∈ first, left member := by
    rw [← List.forall_mem_map, List.map_fst_zip (Nat.le_of_eq length)]
  have seconds : (∀ pair ∈ first.zip second, right pair.2) ↔ ∀ member ∈ second, right member := by
    rw [← List.forall_mem_map, List.map_snd_zip (Nat.le_of_eq length.symm)]
  rw [← firsts, ← seconds, ← forall₂_and]

/-! ### Lists with one member changed -/

section Lists

variable {α β : Type} {list : List α} {position : Nat} {member : α}

theorem perm_of_getElem? (found : list[position]? = some member) :
    list.Perm (member :: list.eraseIdx position) := by
  obtain ⟨inside, rfl⟩ := List.getElem?_eq_some_iff.mp found
  exact (List.getElem_cons_eraseIdx_perm inside).symm

theorem set_perm_of_getElem? (found : list[position]? = some member) (other : α) :
    (list.set position other).Perm (other :: list.eraseIdx position) :=
  List.set_perm_cons_eraseIdx (List.getElem?_eq_some_iff.mp found).1 other

/-- A relation holds of two lists in which one pair was changed if it holds of the new pair and goes
on to hold of the others. -/
theorem forall₂_set {first second : α → β → Prop} {plain : List β} {other : α} {meant : β}
    (each : List.Forall₂ first list plain) (position : Nat)
    (step : ∀ member ∈ list.eraseIdx position, ∀ item, first member item → second member item)
    (new : second other meant) :
    List.Forall₂ second (list.set position other) (plain.set position meant) := by
  induction each generalizing position with
  | nil => exact .nil
  | cons head rest inductionHypothesis =>
    cases position with
    | zero =>
      exact .cons new
        (forall₂_imp_of_mem rest fun member inRest item _ => step member inRest item)
    | succ position =>
      refine .cons (step _ List.mem_cons_self _ head) (inductionHypothesis position ?_)
      exact fun member inRest => step member (List.mem_cons_of_mem _ inRest)

end Lists

end SolidScript
