/-
This file states which changes of memory carry meanings over. A set of storages that holds every
storage its members refer to is carried when each of them either keeps its stored elements or was
flattened, which puts its elements in the place of its placeholders. Whatever refers to carried
storages only expands and denotes afterwards as it did before.
-/

import SolidScript.Proofs.Meaning

namespace SolidScript

open Value (handles)

/-- What became of a storage: its stored elements are the same, or it was flattened. -/
inductive Relaid (before after : Memory) (address : Address) : Prop
  | same (contents : after.contents address = before.contents address)
      (excess : after.excess address = before.excess address)
  | flattened (spliced : before.excess address ≠ 0) (flat : after.excess address = 0)
      (expands : Expands before (before.contents address) (after.contents address))

/-- A set of storages that refer to one another only. -/
structure Enclosed (memory : Memory) (kept : Address → Prop) : Prop where
  inside : ∀ address, kept address → address < memory.storages.size
  closed : ∀ address, kept address → ∀ handle ∈ handles (memory.contents address), kept handle

/-- The storages of a set are carried over, and so are the ranges. -/
structure Carries (kept : Address → Prop) (before after : Memory) : Prop where
  enclosed : Enclosed before kept
  registers : ∀ range, before.Registers range → after.Registers range
  length : before.storages.size ≤ after.storages.size
  relaid : ∀ address, kept address → Relaid before after address

namespace Carries

variable {kept : Address → Prop} {before middle after : Memory}

/-! ### Forward -/

theorem expands (carries : Carries kept before after) {stored elements : List Value}
    (expansion : Expands before stored elements) (start : ∀ handle ∈ handles stored, kept handle) :
    Expands after stored elements := by
  induction expansion with
  | nil => exact .nil
  | plain direct _ inductionHypothesis =>
    rw [handles_cons] at start
    exact .plain direct
      (inductionHypothesis fun handle member => start handle (List.mem_append_right _ member))
  | @splice address stored inner elements inside hidden _ innerHypothesis restHypothesis =>
    have keptAddress : kept address := start address List.mem_cons_self
    refine .splice (Nat.lt_of_lt_of_le inside carries.length) ?_
      (restHypothesis fun handle member => start handle (List.mem_cons_of_mem _ member))
    cases carries.relaid address keptAddress with
    | same contents _ =>
      rw [contents]
      exact innerHypothesis (carries.enclosed.closed address keptAddress)
    | flattened _ _ flat =>
      have stands := hidden.unique flat
      rw [← stands]
      exact .of_direct after inner hidden.direct

/-- The elements of a carried storage are found in it afterwards, the way it is laid out then. -/
theorem contents_expand (carries : Carries kept before after) {address : Address}
    {elements : List Value} (keptAddress : kept address)
    (expansion : Expands before (before.contents address) elements) :
    Expands after (after.contents address) elements := by
  cases carries.relaid address keptAddress with
  | same contents _ =>
    rw [contents]
    exact carries.expands expansion (carries.enclosed.closed address keptAddress)
  | flattened _ _ flat =>
    rw [← expansion.unique flat]
    exact .of_direct after elements expansion.direct

theorem elements_kept (carries : Carries kept before after) {address : Address}
    {elements : List Value} (keptAddress : kept address)
    (expansion : Expands before (before.contents address) elements) :
    ∀ handle ∈ handles elements, kept handle :=
  expansion.handles_of carries.enclosed.closed (carries.enclosed.closed address keptAddress)

/-- A storage shows what it showed, if its elements denote what they denoted. -/
theorem shows_of_each (carries : Carries kept before after) {address : Address}
    {elements : List Value} {items : List Tree} (keptAddress : kept address)
    (shown : Shows before address elements items)
    (each : List.Forall₂ (Denotes after) elements items) : Shows after address elements items where
  inside := Nat.lt_of_lt_of_le shown.inside carries.length
  expands := carries.contents_expand keptAddress shown.expands
  each := each

theorem each_of_mem (carries : Carries kept before after) {address : Address}
    {elements : List Value} {items : List Tree} (keptAddress : kept address)
    (shown : Shows before address elements items)
    (carried : ∀ item ∈ items, ∀ value, Denotes before value item →
      (∀ handle ∈ handles [value], kept handle) → Denotes after value item) :
    Shows after address elements items := by
  refine carries.shows_of_each keptAddress shown (forall₂_imp_of_mem shown.each ?_)
  intro value inElements item inItems denotes
  refine carried item inItems value denotes fun handle member => ?_
  refine carries.elements_kept keptAddress shown.expands handle ?_
  exact (handles_sublist (List.singleton_sublist.mpr inElements)).subset member

theorem denotes (carries : Carries kept before after) {value : Value} {tree : Tree}
    (meaning : Denotes before value tree) (start : ∀ handle ∈ handles [value], kept handle) :
    Denotes after value tree := by
  induction tree using Tree.induct generalizing value with
  | undefined =>
    cases meaning
    exact .undefined
  | bool flag =>
    cases meaning
    exact .bool flag
  | number x =>
    cases meaning
    exact .number x
  | text =>
    cases meaning
    exact .text _
  | range =>
    cases meaning with
    | range registers => exact .range (carries.registers _ registers)
  | function =>
    cases meaning
    exact .function _
  | vector items inductionHypothesis =>
    cases meaning with
    | vector inside expands each =>
      refine (carries.each_of_mem (start _ List.mem_cons_self) ⟨inside, expands, each⟩
        fun item member value => inductionHypothesis item member).vector
  | embedded items inductionHypothesis =>
    cases meaning with
    | embedded inside expands each =>
      refine (carries.each_of_mem (start _ List.mem_cons_self) ⟨inside, expands, each⟩
        fun item member value => inductionHypothesis item member).embedded

theorem each (carries : Carries kept before after) {values : List Value} {items : List Tree}
    (each : List.Forall₂ (Denotes before) values items)
    (start : ∀ handle ∈ handles values, kept handle) :
    List.Forall₂ (Denotes after) values items := by
  refine forall₂_imp_of_mem each fun value member item _ denotes => ?_
  refine carries.denotes denotes fun handle inValue => start handle ?_
  exact (handles_sublist (List.singleton_sublist.mpr member)).subset inValue

theorem shows (carries : Carries kept before after) {address : Address} {elements : List Value}
    {items : List Tree} (shown : Shows before address elements items) (keptAddress : kept address) :
    Shows after address elements items :=
  carries.each_of_mem keptAddress shown fun _ _ _ => carries.denotes

/-- A carried storage that is flat stays flat. -/
theorem flat (carries : Carries kept before after) (address : Address) (keptAddress : kept address)
    (flat : before.excess address = 0) : after.excess address = 0 := by
  cases carries.relaid address keptAddress with
  | same _ excess => exact excess.trans flat
  | flattened spliced => exact absurd flat spliced

/-! ### Backward, and in sequence -/

/-- What carried elements expand to afterwards, they expanded to before. -/
theorem expands_back (carries : Carries kept before after) {stored elements : List Value}
    (expansion : Expands after stored elements) (start : ∀ handle ∈ handles stored, kept handle) :
    Expands before stored elements := by
  induction expansion with
  | nil => exact .nil
  | plain direct _ inductionHypothesis =>
    rw [handles_cons] at start
    exact .plain direct
      (inductionHypothesis fun handle member => start handle (List.mem_append_right _ member))
  | @splice address stored inner elements _ hidden _ innerHypothesis restHypothesis =>
    have keptAddress : kept address := start address List.mem_cons_self
    refine .splice (carries.enclosed.inside address keptAddress) ?_
      (restHypothesis fun handle member => start handle (List.mem_cons_of_mem _ member))
    cases carries.relaid address keptAddress with
    | same contents _ =>
      rw [contents] at innerHypothesis
      exact innerHypothesis (carries.enclosed.closed address keptAddress)
    | flattened _ _ flat =>
      rw [hidden.unique (.of_direct after _ flat.direct)]
      exact flat

theorem trans {other : Address → Prop} (one : Carries kept before middle)
    (two : Carries other middle after) (included : ∀ address, kept address → other address) :
    Carries kept before after where
  enclosed := one.enclosed
  registers range registered := two.registers range (one.registers range registered)
  length := Nat.le_trans one.length two.length
  relaid address keptAddress := by
    cases one.relaid address keptAddress with
    | same contents excess =>
      cases two.relaid address (included address keptAddress) with
      | same later laterExcess => exact .same (later.trans contents) (laterExcess.trans excess)
      | flattened spliced flat expansion =>
        rw [excess] at spliced
        rw [contents] at expansion
        exact .flattened spliced flat
          (one.expands_back expansion (one.enclosed.closed address keptAddress))
    | flattened spliced flat expansion =>
      cases two.relaid address (included address keptAddress) with
      | same later laterExcess =>
        refine .flattened spliced (laterExcess.trans flat) ?_
        rw [later]
        exact expansion
      | flattened laterSpliced => exact absurd flat laterSpliced

/-- A smaller set of storages is carried too, if they refer to one another only. -/
theorem mono (carries : Carries kept before after) {fewer : Address → Prop}
    (enclosed : Enclosed before fewer) (included : ∀ address, fewer address → kept address) :
    Carries fewer before after where
  enclosed := enclosed
  registers := carries.registers
  length := carries.length
  relaid address member := carries.relaid address (included address member)

/-- Carried storages still refer to one another only. -/
theorem enclosed_after (carries : Carries kept before after) : Enclosed after kept where
  inside address keptAddress :=
    Nat.lt_of_lt_of_le (carries.enclosed.inside address keptAddress) carries.length
  closed address keptAddress := by
    cases carries.relaid address keptAddress with
    | same contents _ =>
      rw [contents]
      exact carries.enclosed.closed address keptAddress
    | flattened _ _ flat => exact carries.elements_kept keptAddress flat

theorem refl (enclosed : Enclosed before kept) : Carries kept before before where
  enclosed := enclosed
  registers _ registered := registered
  length := Nat.le_refl _
  relaid _ _ := .same rfl rfl

/-- A change of owners carries everything. -/
theorem of_reowned (enclosed : Enclosed before kept) (reowned : Memory.Reowned before after) :
    Carries kept before after where
  enclosed := enclosed
  registers range registered := by
    rw [Memory.Registers, reowned.ranges]
    exact registered
  length := Nat.le_of_eq reowned.length.symm
  relaid address _ := .same (reowned.contents address) (reowned.excess address)

end Carries

end SolidScript
