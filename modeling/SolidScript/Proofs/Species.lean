/-
This file proves that the comparisons are a total order on values of one species: numbers, texts,
ranges, the undefined value, and vectors whose elements are all of one species, to any depth. Ties
of the order are then equality, one level after the other, so that a tie of two items lets the lists
that hold them decide by the rest.
-/

import SolidScript.Proofs.Coherence

namespace SolidScript

/-- Values that are all in one order. -/
inductive Species where
  /-- Flags, and doubles that are numbers. -/
  | numbers
  | texts
  /-- Ranges of any components, also of those that are no numbers. -/
  | ranges
  | undefined
  /-- Vectors whose elements are all of one species. -/
  | vectors (elements : Species)
deriving DecidableEq, Repr

namespace Species

/-- Whether a value is of a species. The elements of a vector are those that a walk passes. -/
def Contains (memory : Memory) : Species → Value → Prop
  | numbers, .bool _ => True
  | numbers, .number x => x.isNaN = false
  | texts, .text _ => True
  | ranges, .range _ => True
  | undefined, .undefined => True
  | vectors species, .vector address =>
    ∃ elements, memory.list address = some elements ∧
      ∀ element ∈ elements, species.Contains memory element
  | _, _ => False

/-- Whether a tree is of a species. -/
def Has : Species → Tree → Prop
  | numbers, .bool _ => True
  | numbers, .number x => x.isNaN = false
  | texts, .text _ => True
  | ranges, .range _ => True
  | undefined, .undefined => True
  | vectors species, .vector items => ∀ item ∈ items, species.Has item
  | _, _ => False

/-- The tree of a value is of the species of the value. -/
theorem Contains.has {memory : Memory} {species : Species} {value : Value} {tree : Tree}
    (contains : species.Contains memory value) (denotes : Denotes memory value tree) :
    species.Has tree := by
  induction species generalizing value tree with
  | vectors species inductionHypothesis =>
    cases value with
    | vector address =>
      obtain ⟨elements, lists, each⟩ := contains
      obtain ⟨shown, items, rfl, shows⟩ := denotes_vector_iff.mp denotes
      obtain rfl := Option.some.inj (lists.symm.trans (Memory.list_eq shows.inside shows.expands))
      intro item member
      obtain ⟨position, found⟩ := List.mem_iff_getElem?.mp member
      rcases forall₂_getElem? shows.each position with
        ⟨_, missing⟩ | ⟨element, other, inElements, inItems, denotesItem⟩
      · exact absurd (missing.symm.trans found) (by simp)
      · obtain rfl := Option.some.inj (inItems.symm.trans found)
        refine inductionHypothesis (each element (List.mem_toArray.mpr ?_)) denotesItem
        exact List.mem_of_getElem? inElements
    | _ => contradiction
  | _ =>
    cases value with
    | vector | embedded => contradiction
    | _ =>
      cases denotes
      exact contains

variable {species : Species} {a b c : Tree}

/-! ### Scalars of one species -/

theorem isNaN_flagNumber (flag : Bool) : (flagNumber flag).isNaN = false := by
  cases flag <;> decide

/-- Scalars of one species are in order, and are not compared by items. -/
theorem Has.order (first : species.Has a) (second : species.Has b)
    (scalar : ∀ elements, species ≠ vectors elements) :
    (∃ order, a.scalarOrder b = some order) ∧ ¬ Tree.Alike a b ∧ a.kind ≠ .function := by
  have ranks : ∀ {x y : Float}, x.isNaN = false → y.isNaN = false →
      ∃ order, floatOrder x y = some order := by
    intro x y numberX numberY
    rw [floatOrder_eq, rank?_of_number numberX, rank?_of_number numberY]
    exact ⟨_, rfl⟩
  have apart : ¬ Tree.Alike a b ∧ a.kind ≠ .function := by
    refine ⟨?_, ?_⟩
    · rintro ⟨_, vector | embedded⟩ <;> cases species <;> cases a <;>
        first | contradiction | exact scalar _ rfl
    · cases species <;> cases a <;> first | contradiction | exact Kind.noConfusion
  refine ⟨?_, apart⟩
  cases species with
  | numbers =>
    cases a with
    | bool a =>
      cases b with
      | bool b => exact ⟨_, rfl⟩
      | number y => exact ranks (isNaN_flagNumber a) second
      | _ => contradiction
    | number x =>
      cases b with
      | bool b => exact ranks first (isNaN_flagNumber b)
      | number y => exact ranks first second
      | _ => contradiction
    | _ => contradiction
  | ranges =>
    cases a with
    | range a =>
      cases b with
      | range b => exact ⟨_, a.order_eq b⟩
      | _ => contradiction
    | _ => contradiction
  | vectors species => exact absurd rfl (scalar species)
  | _ => cases a <;> cases b <;> first | exact ⟨_, rfl⟩ | contradiction

/-! ### One order -/

/-- Trees in one order: those that are in neither order are equal, and the order is transitive. -/
structure InOrder (kin : Tree → Prop) : Prop where
  total : ∀ {a b}, kin a → kin b → a.less b = false → b.less a = false → a.equals b = true
  trans : ∀ {a b c}, kin a → kin b → kin c → a.less b = true → b.less c = true → a.less c = true

variable {kin : Tree → Prop} {xs ys zs : List Tree}

/-- Lists that are in neither order have equal items, place by place. -/
theorem InOrder.allEqual (inOrder : InOrder kin) (kinX : ∀ x ∈ xs, kin x) (kinY : ∀ y ∈ ys, kin y)
    (before : Tree.precedes xs ys = false) (behind : Tree.precedes ys xs = false) :
    Tree.allEqual xs ys = true := by
  induction xs generalizing ys with
  | nil =>
    cases ys with
    | nil => rfl
    | cons y ys =>
      rw [Tree.precedes_nil] at before
      contradiction
  | cons x xs inductionHypothesis =>
    cases ys with
    | nil =>
      rw [Tree.precedes_nil] at behind
      contradiction
    | cons y ys =>
      obtain ⟨headX, tailX⟩ := List.forall_mem_cons.mp kinX
      obtain ⟨headY, tailY⟩ := List.forall_mem_cons.mp kinY
      rw [Tree.precedes_cons] at before behind
      cases less : x.less y with
      | true =>
        rw [less] at before
        contradiction
      | false =>
        cases greater : y.less x with
        | true =>
          rw [greater] at behind
          contradiction
        | false =>
          rw [less, greater] at before behind
          rw [Tree.allEqual, inOrder.total headX headY less greater,
            inductionHypothesis tailX tailY before behind]
          rfl

/-- Where the first items of two of three lists tie, they are equal, so one takes the place of the
other beside the third. -/
theorem InOrder.precedes (inOrder : InOrder kin) (kinX : ∀ x ∈ xs, kin x) (kinY : ∀ y ∈ ys, kin y)
    (kinZ : ∀ z ∈ zs, kin z) (first : Tree.precedes xs ys = true)
    (second : Tree.precedes ys zs = true) : Tree.precedes xs zs = true := by
  induction xs generalizing ys zs with
  | nil =>
    cases zs with
    | nil =>
      cases ys with
      | nil => exact second
      | cons y ys =>
        rw [Tree.precedes_cons_nil] at second
        contradiction
    | cons z zs => rw [Tree.precedes_nil]; rfl
  | cons x xs inductionHypothesis =>
    match ys, zs with
    | [], _ =>
      rw [Tree.precedes_cons_nil] at first
      contradiction
    | y :: ys, [] =>
      rw [Tree.precedes_cons_nil] at second
      contradiction
    | y :: ys, z :: zs =>
      obtain ⟨headX, tailX⟩ := List.forall_mem_cons.mp kinX
      obtain ⟨headY, tailY⟩ := List.forall_mem_cons.mp kinY
      obtain ⟨headZ, tailZ⟩ := List.forall_mem_cons.mp kinZ
      rw [Tree.precedes_cons] at first second ⊢
      cases less : x.less y with
      | true =>
        have smaller : x.less z = true := by
          cases rising : y.less z with
          | true => exact inOrder.trans headX headY headZ less rising
          | false =>
            cases falling : z.less y with
            | true =>
              rw [rising, falling] at second
              contradiction
            | false =>
              have tie := inOrder.total headY headZ rising falling
              exact (Tree.less_congr tie x).2.symm.trans less
        rw [smaller, if_pos rfl]
      | false =>
        cases greater : y.less x with
        | true =>
          rw [less, greater] at first
          contradiction
        | false =>
          rw [less, greater] at first
          obtain ⟨left, right⟩ := Tree.less_congr (inOrder.total headX headY less greater) z
          rw [left, right]
          cases rising : y.less z with
          | true => rfl
          | false =>
            cases falling : z.less y with
            | true =>
              rw [rising, falling] at second
              contradiction
            | false =>
              rw [rising, falling] at second
              exact inductionHypothesis tailX tailY tailZ first second

/-- Vectors of trees in one order are in one order. -/
theorem InOrder.vectors (inOrder : InOrder species.Has) : InOrder (vectors species).Has where
  total := by
    intro a b first second before behind
    cases a with
    | vector xs =>
      cases b with
      | vector ys =>
        rw [Tree.less] at before behind
        rw [Tree.equals]
        exact inOrder.allEqual first second before behind
      | _ => contradiction
    | _ => contradiction
  trans := by
    intro a b c first second third before behind
    cases a with
    | vector xs =>
      cases b with
      | vector ys =>
        cases c with
        | vector zs =>
          rw [Tree.less] at before behind ⊢
          exact inOrder.precedes first second third before behind
        | _ => contradiction
      | _ => contradiction
    | _ => contradiction

/-- Scalars of one species are in one order. -/
theorem inOrder_scalars (scalar : ∀ elements, species ≠ vectors elements) :
    InOrder species.Has where
  total := by
    intro a b first second before behind
    obtain ⟨⟨order, ordered⟩, apart, notFunction⟩ := first.order second scalar
    rw [Tree.less_of_not_alike apart, ordered] at before
    rw [Tree.less_of_not_alike fun swapped => apart swapped.symm, Tree.scalarOrder_swap a b,
      ordered] at behind
    rw [Tree.equals_of_not_alike apart,
      Tree.scalarEquals_eq fun functions => notFunction functions.1, ordered]
    cases order <;> first | rfl | contradiction
  trans := by
    intro a b c first second third before behind
    obtain ⟨_, apart, _⟩ := first.order second scalar
    obtain ⟨_, apart', _⟩ := second.order third scalar
    obtain ⟨_, apart'', _⟩ := first.order third scalar
    rw [Tree.less_of_not_alike apart, Relation.holds, beq_iff_eq] at before
    rw [Tree.less_of_not_alike apart', Relation.holds, beq_iff_eq] at behind
    rw [Tree.less_of_not_alike apart'', Tree.scalarOrder_trans before behind]
    rfl

/-- The trees of every species are in one order. -/
theorem inOrder (species : Species) : InOrder species.Has := by
  induction species with
  | vectors species inductionHypothesis => exact inductionHypothesis.vectors
  | _ => exact inOrder_scalars fun elements => Species.noConfusion

/-- Of two trees of one species one is less, or they are equal, and only one of this is so. -/
theorem Has.trichotomy (first : species.Has a) (second : species.Has b) :
    (a.less b = true ∧ a.equals b = false ∧ b.less a = false) ∨
      (a.less b = false ∧ a.equals b = true ∧ b.less a = false) ∨
      (a.less b = false ∧ a.equals b = false ∧ b.less a = true) := by
  cases equal : a.equals b with
  | true =>
    obtain ⟨before, behind⟩ := Tree.less_of_equals equal
    exact Or.inr (Or.inl ⟨before, rfl, behind⟩)
  | false =>
    cases less : a.less b with
    | true => exact Or.inl ⟨rfl, rfl, Tree.less_asymm less⟩
    | false =>
      cases greater : b.less a with
      | true => exact Or.inr (Or.inr ⟨rfl, rfl, rfl⟩)
      | false =>
        rw [species.inOrder.total first second less greater] at equal
        contradiction

/-- The relations that are not strict are what the strict ones leave. -/
theorem Has.orEqual (first : species.Has a) (second : species.Has b) :
    a.relate .lessOrEqual b = !b.less a ∧ a.relate .greaterOrEqual b = !a.less b := by
  by_cases scalar : ∀ elements, species ≠ vectors elements
  · obtain ⟨⟨order, ordered⟩, apart, _⟩ := first.order second scalar
    rw [Tree.relate_of_not_alike _ apart, Tree.relate_of_not_alike _ apart,
      Tree.less_of_not_alike apart, Tree.less_of_not_alike fun swapped => apart swapped.symm,
      Tree.scalarOrder_swap a b, ordered]
    cases order <;> exact ⟨rfl, rfl⟩
  · obtain ⟨elements, rfl⟩ := not_forall_not.mp scalar
    cases a with
    | vector xs =>
      cases b with
      | vector ys =>
        rw [Tree.less, Tree.less]
        exact ⟨rfl, rfl⟩
      | _ => contradiction
    | _ => contradiction

end Species

namespace Value

/-- Of two values one is less, or they are equal, and the relations that are not strict say just
that. -/
structure Compared (memory : Memory) (a b : Value) : Prop where
  /-- Exactly one holds of less, equal and greater. -/
  trichotomy :
    (Holds memory .less a b ∧ ¬ Holds memory .equal a b ∧ ¬ Holds memory .less b a) ∨
      (¬ Holds memory .less a b ∧ Holds memory .equal a b ∧ ¬ Holds memory .less b a) ∨
      (¬ Holds memory .less a b ∧ ¬ Holds memory .equal a b ∧ Holds memory .less b a)
  lessOrEqual : Holds memory .lessOrEqual a b ↔ Holds memory .less a b ∨ Holds memory .equal a b
  greaterOrEqual :
    Holds memory .greaterOrEqual a b ↔ Holds memory .less b a ∨ Holds memory .equal a b

/-- What the comparisons of values of one species keep to: they are an order, and a total one where
words can count the items of all vectors in the values, so that equality takes part. -/
structure Ordered (memory : Memory) (a b c : Value) : Prop where
  asymmetric : Holds memory .less a b → ¬ Holds memory .less b a
  transitive : Holds memory .less a b → Holds memory .less b c → Holds memory .less a c
  compared : Workspace.Small memory a → Workspace.Small memory b → Compared memory a b

variable {memory : Memory} {species : Species} {a b c : Value} {x y z : Tree}

theorem holds_less (first : Denotes memory a x) (second : Denotes memory b y) :
    Holds memory .less a b ↔ x.less y = true := by
  rw [← Tree.relate_less]
  exact holds_relation .less first second

/-- Where equality is that of trees, values of one species are totally ordered. -/
theorem compared_of_denotes (first : Denotes memory a x) (second : Denotes memory b y)
    (hasX : species.Has x) (hasY : species.Has y)
    (equals : a.equals memory b = some (x.equals y)) : Compared memory a b := by
  obtain ⟨lessOrEqual, greaterOrEqual⟩ := hasX.orEqual hasY
  have below : Holds memory .lessOrEqual a b ↔ (!y.less x) = true :=
    lessOrEqual ▸ holds_relation .lessOrEqual first second
  have above : Holds memory .greaterOrEqual a b ↔ (!x.less y) = true :=
    greaterOrEqual ▸ holds_relation .greaterOrEqual first second
  have before := holds_less first second
  have behind := holds_less second first
  have equal := holds_equal equals
  refine ⟨?_, ?_, ?_⟩
  · rw [before, behind, equal]
    rcases hasX.trichotomy hasY with ⟨less, unequal, greater⟩ | ⟨less, same, greater⟩ |
      ⟨less, unequal, greater⟩
    · exact Or.inl (by simp [less, unequal, greater])
    · exact Or.inr (Or.inl (by simp [less, same, greater]))
    · exact Or.inr (Or.inr (by simp [less, unequal, greater]))
  · rw [below, before, equal]
    rcases hasX.trichotomy hasY with ⟨less, unequal, greater⟩ | ⟨less, same, greater⟩ |
      ⟨less, unequal, greater⟩ <;> simp [*]
  · rw [above, behind, equal]
    rcases hasX.trichotomy hasY with ⟨less, unequal, greater⟩ | ⟨less, same, greater⟩ |
      ⟨less, unequal, greater⟩ <;> simp [*]

end Value

namespace Workspace

/-- In every workspace that is reached, the comparisons are an order on what the workspace leads to
of one species. -/
theorem comparisons_ordered {workspace : Workspace} (reached : workspace.Reached)
    (fits : workspace.memory.Fits) (species : Species) {a b c : Value}
    (first : workspace.Reaches a) (second : workspace.Reaches b) (third : workspace.Reaches c)
    (containsFirst : species.Contains workspace.memory a)
    (containsSecond : species.Contains workspace.memory b)
    (containsThird : species.Contains workspace.memory c) :
    Value.Ordered workspace.memory a b c := by
  obtain ⟨followed, plain, represents⟩ := reached.represents
  obtain ⟨⟨x, denotesFirst⟩, aliveFirst⟩ := first.denotes represents
  obtain ⟨⟨y, denotesSecond⟩, aliveSecond⟩ := second.denotes represents
  obtain ⟨⟨z, denotesThird⟩, _⟩ := third.denotes represents
  have hasX := containsFirst.has denotesFirst
  have hasY := containsSecond.has denotesSecond
  have hasZ := containsThird.has denotesThird
  have counts := (reached.sound fits).counts trivial
  refine ⟨fun less greater => ?_, ?_, fun smallFirst smallSecond => ?_⟩
  · have before := (Value.holds_less denotesFirst denotesSecond).mp less
    have behind := (Value.holds_less denotesSecond denotesFirst).mp greater
    rw [Tree.less_asymm before] at behind
    contradiction
  · rw [Value.holds_less denotesFirst denotesSecond, Value.holds_less denotesSecond denotesThird,
      Value.holds_less denotesFirst denotesThird]
    exact species.inOrder.trans hasX hasY hasZ
  · exact Value.compared_of_denotes denotesFirst denotesSecond hasX hasY
      (Value.equals_eq counts aliveFirst aliveSecond denotesFirst denotesSecond
        (smallFirst x denotesFirst) (smallSecond y denotesSecond))

/-- Vectors of numbers: one with a placeholder, one that starts with a flag, and an empty one. -/
theorem comparisons_ordered_layouts :
    ∃ workspace : Workspace, workspace.Reached ∧
      workspace.memory.contents 0 = [.number 1, .embedded 1] ∧
      workspace.Reaches (.vector 0) ∧ workspace.Reaches (.vector 2) ∧
      workspace.Reaches (.vector 3) ∧
      (Species.vectors .numbers).Contains workspace.memory (.vector 0) ∧
      (Species.vectors .numbers).Contains workspace.memory (.vector 2) ∧
      (Species.vectors .numbers).Contains workspace.memory (.vector 3) ∧
      Small workspace.memory (.vector 0) ∧ Small workspace.memory (.vector 2) ∧
      Value.Ordered workspace.memory (.vector 0) (.vector 2) (.vector 3) := by
  have reached : ∃ reports workspace,
      run [.create, .append 0 (.number 1),
        .append 0 (.embedded (.vector [.number 2, .number 3])),
        .fill [.bool true, .number 2], .create] empty =
          some (.ok (reports, workspace)) ∧ workspace.registers = [0, 2, 3] ∧
        workspace.memory.storages.size = 4 ∧
        workspace.memory.contents 0 = [.number 1, .embedded 1] ∧
        workspace.memory.contents 1 = [.number 2, .number 3] ∧
        workspace.memory.contents 2 = [.bool true, .number 2] ∧
        workspace.memory.contents 3 = [] ∧ workspace.memory.Fits :=
    ⟨_, _, rfl, rfl, rfl, rfl, rfl, rfl, rfl, rfl⟩
  obtain ⟨reports, workspace, ran, registers, count, stored, hidden, flat, none, fits⟩ := reached
  have reaches : ∀ address ∈ [0, 2, 3], workspace.Reaches (.vector address) :=
    fun address member => .register (registers ▸ member)
  have numbers : ∀ {address elements}, address < 4 →
      Expands workspace.memory (workspace.memory.contents address) elements →
      (∀ element ∈ elements, Species.numbers.Contains workspace.memory element) →
      (Species.vectors .numbers).Contains workspace.memory (.vector address) :=
    fun inside expands each => ⟨_, Memory.list_eq (count ▸ inside) expands,
      fun element member => each element (List.mem_toArray.mp member)⟩
  have placeholder : Expands workspace.memory (workspace.memory.contents 0)
      [.number 1, .number 2, .number 3] := by
    have inner : Expands workspace.memory (workspace.memory.contents 1)
        [.number 2, .number 3] := by
      rw [hidden]
      exact .plain rfl (.plain rfl .nil)
    rw [stored]
    exact .plain rfl (.splice (count ▸ by decide) inner .nil)
  have flag : Expands workspace.memory (workspace.memory.contents 2) [.bool true, .number 2] := by
    rw [flat]
    exact .plain rfl (.plain rfl .nil)
  have empty : Expands workspace.memory (workspace.memory.contents 3) [] := by
    rw [none]
    exact .nil
  have first := numbers (by decide) placeholder fun element member => by
    simp only [List.mem_cons, List.not_mem_nil, or_false] at member
    rcases member with rfl | rfl | rfl <;> exact rfl
  have second := numbers (by decide) flag fun element member => by
    simp only [List.mem_cons, List.not_mem_nil, or_false] at member
    rcases member with rfl | rfl
    · exact trivial
    · exact rfl
  have third := numbers (by decide) empty fun element member => absurd member List.not_mem_nil
  have represents := represents_of_plain ran rfl
  exact ⟨workspace, ⟨_, _, ran⟩, stored, reaches 0 (by decide), reaches 2 (by decide),
    reaches 3 (by decide), first, second, third, (reaches 0 (by decide)).small represents,
    (reaches 2 (by decide)).small represents,
    comparisons_ordered ⟨_, _, ran⟩ fits (.vectors .numbers) (reaches 0 (by decide))
      (reaches 2 (by decide)) (reaches 3 (by decide)) first second third⟩

/-- The empty vector and a vector of `2 ^ 64` numbers are of one species, but the one is both less
than the other and equal to it. -/
theorem comparisons_not_ordered :
    ∃ workspace : Workspace, workspace.Reached ∧ workspace.memory.Fits ∧
      workspace.Reaches (.vector 64) ∧ workspace.Reaches (.vector 63) ∧
      (Species.vectors .numbers).Contains workspace.memory (.vector 64) ∧
      (Species.vectors .numbers).Contains workspace.memory (.vector 63) ∧
      Value.Holds workspace.memory .less (.vector 64) (.vector 63) ∧
      Value.Holds workspace.memory .equal (.vector 64) (.vector 63) := by
  obtain ⟨workspace, reached, outgrown⟩ := exists_outgrown
  have contains : ∀ address < 67,
      (Species.vectors .numbers).Contains workspace.memory (.vector address) := by
    intro address inside
    obtain ⟨elements, items, shows, numbers, _⟩ := outgrown.shows reached inside
    refine ⟨_, Memory.list_eq shows.inside shows.expands, fun element member => ?_⟩
    obtain ⟨y, rfl, isNumber⟩ := numbers element (List.mem_toArray.mp member)
    exact isNumber
  exact ⟨workspace, reached, outgrown.fits, .register (outgrown.mem_registers (by decide)),
    .register (outgrown.mem_registers (by decide)), contains 64 (by decide),
    contains 63 (by decide), outgrown.less_empty reached,
    (Value.holds_equal (outgrown.equals_empty reached (Or.inl rfl))).mpr rfl⟩

end Workspace

end SolidScript
