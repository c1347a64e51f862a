/-
This file proves that the six comparisons fit together, on all values. The order can be swapped, it
never holds both ways, it excludes equality, and values that are equal stand in the same order with
everything.

Lists are compared by the strict order of their items in both directions and never by equality, so
the laws of lists rest on the laws of their items: no item is less than another one both ways, and
equal items can take the place of each other. Both go by induction over the nesting, with a second
induction over the two lists that a pair of trees holds.
-/

import SolidScript.Proofs.Comparing
import SolidScript.Proofs.Ranks
import SolidScript.Proofs.Runs

namespace SolidScript

namespace Tree

/-! ### Scalars -/

theorem scalarOrder_swap (a b : Tree) : b.scalarOrder a = (a.scalarOrder b).map Ordering.swap := by
  rw [scalarOrder_eq_places, scalarOrder_eq_places]
  cases a.place? with
  | none => cases b.place? <;> rfl
  | some first =>
    cases b.place? with
    | none => rfl
    | some second => exact first.order_swap second

theorem scalarOrder_congr {a b : Tree} (tie : a.scalarOrder b = some .eq) (c : Tree) :
    a.scalarOrder c = b.scalarOrder c := by
  rw [scalarOrder_eq_places] at tie
  rw [scalarOrder_eq_places, scalarOrder_eq_places]
  obtain ⟨first, placed, tie⟩ := Option.bind_eq_some_iff.mp tie
  obtain ⟨second, other, tie⟩ := Option.bind_eq_some_iff.mp tie
  rw [placed, other]
  cases c.place? with
  | none => rfl
  | some third => exact Place.order_congr tie third

theorem scalarOrder_trans {a b c : Tree} (first : a.scalarOrder b = some .lt)
    (second : b.scalarOrder c = some .lt) : a.scalarOrder c = some .lt := by
  rw [scalarOrder_eq_places] at first second
  obtain ⟨left, placedLeft, first⟩ := Option.bind_eq_some_iff.mp first
  obtain ⟨middle, placedMiddle, first⟩ := Option.bind_eq_some_iff.mp first
  obtain ⟨middle', placedMiddle', second⟩ := Option.bind_eq_some_iff.mp second
  obtain ⟨right, placedRight, second⟩ := Option.bind_eq_some_iff.mp second
  obtain rfl := Option.some.inj (placedMiddle.symm.trans placedMiddle')
  rw [scalarOrder_eq_places, placedLeft, placedRight]
  exact Place.order_trans first second

/-- Scalars are equal if their order says so, but functions are equal by identity and in no
order. -/
theorem scalarEquals_eq {a b : Tree} (ordered : ¬ (a.kind = .function ∧ b.kind = .function)) :
    a.scalarEquals b = (a.scalarOrder b == some .eq) := by
  cases a with
  | bool a =>
    cases b with
    | bool b => cases a <;> cases b <;> rfl
    | number y => exact beq_eq_floatOrder ..
    | _ => rfl
  | number x =>
    cases b with
    | bool b => exact beq_eq_floatOrder ..
    | number y => exact beq_eq_floatOrder ..
    | _ => rfl
  | text a =>
    cases b with
    | text b =>
      show (a == b) = (some (compare a b) == some .eq)
      rw [Bool.eq_iff_iff, beq_iff_eq, beq_iff_eq, Option.some.injEq,
        Std.LawfulEqCmp.compare_eq_iff_eq]
    | _ => rfl
  | function =>
    cases b with
    | function => exact absurd ⟨rfl, rfl⟩ ordered
    | _ => rfl
  | _ => cases b <;> rfl

/-- Equal scalars are in the same order with every tree. -/
theorem scalarOrder_of_scalarEquals {a b : Tree} (equal : a.scalarEquals b = true) (c : Tree) :
    a.scalarOrder c = b.scalarOrder c := by
  by_cases functions : a.kind = .function ∧ b.kind = .function
  · obtain ⟨first, second⟩ := functions
    cases a <;> cases b <;> first | rfl | contradiction
  · rw [scalarEquals_eq functions, beq_iff_eq] at equal
    exact scalarOrder_congr equal c

/-! ### Pairs of lists -/

/-- To prove something of all trees, prove it of a tree from its items. -/
theorem induct_items {motive : Tree → Prop}
    (each : ∀ tree, (∀ item ∈ tree.items, motive item) → motive tree) (tree : Tree) :
    motive tree := by
  induction tree using Tree.induct with
  | vector items inductionHypothesis => exact each (vector items) inductionHypothesis
  | embedded items inductionHypothesis => exact each (embedded items) inductionHypothesis
  | _ => exact each _ fun item member => absurd member List.not_mem_nil

/-- Both trees are vectors, or both are embedded ones. Only such trees are compared by items. -/
def Alike (a b : Tree) : Prop := a.kind = b.kind ∧ (a.kind = .vector ∨ a.kind = .embedded)

variable {a b c : Tree}

theorem Alike.symm (alike : Alike a b) : Alike b a := ⟨alike.1.symm, alike.1 ▸ alike.2⟩

theorem Alike.congr (alike : Alike a b) (c : Tree) : Alike a c ↔ Alike b c := by
  unfold Alike
  rw [alike.1]

theorem Alike.cases (alike : Alike a b) :
    (a = vector a.items ∧ b = vector b.items) ∨ (a = embedded a.items ∧ b = embedded b.items) := by
  obtain ⟨same, list⟩ := alike
  cases a with
  | vector =>
    cases b with
    | vector => exact Or.inl ⟨rfl, rfl⟩
    | _ => contradiction
  | embedded =>
    cases b with
    | embedded => exact Or.inr ⟨rfl, rfl⟩
    | _ => contradiction
  | _ => rcases list with vector | embedded <;> contradiction

theorem not_alike {motive : Prop} (apart : ¬ Alike a b)
    (both : (∀ xs ys, a = vector xs → b = vector ys → False) →
      (∀ xs ys, a = embedded xs → b = embedded ys → False) → motive) : motive := by
  refine both ?_ ?_
  · rintro xs ys rfl rfl
    exact apart ⟨rfl, Or.inl rfl⟩
  · rintro xs ys rfl rfl
    exact apart ⟨rfl, Or.inr rfl⟩

theorem equals_of_alike (alike : Alike a b) : a.equals b = allEqual a.items b.items := by
  rcases alike.cases with ⟨first, second⟩ | ⟨first, second⟩ <;>
    rw [first, second, equals] <;> rfl

theorem equals_of_not_alike (apart : ¬ Alike a b) : a.equals b = a.scalarEquals b :=
  not_alike apart fun vectors embedded => by rw [equals] <;> assumption

theorem less_of_alike (alike : Alike a b) : a.less b = precedes a.items b.items := by
  rcases alike.cases with ⟨first, second⟩ | ⟨first, second⟩ <;>
    rw [first, second, less] <;> rfl

theorem less_of_not_alike (apart : ¬ Alike a b) :
    a.less b = Relation.less.holds (a.scalarOrder b) :=
  not_alike apart fun vectors embedded => by rw [less] <;> assumption

theorem relate_of_alike (relation : Relation) (alike : Alike a b) :
    a.relate relation b = relateAll relation a.items b.items := by
  rcases alike.cases with ⟨first, second⟩ | ⟨first, second⟩ <;>
    rw [first, second, relate] <;> rfl

theorem relate_of_not_alike (relation : Relation) (apart : ¬ Alike a b) :
    a.relate relation b = relation.holds (a.scalarOrder b) :=
  not_alike apart fun vectors embedded => by rw [relate] <;> assumption

/-- Trees that are compared by items have no order of their own. -/
theorem scalarOrder_of_alike (alike : Alike a b) (c : Tree) : a.scalarOrder c = none := by
  rcases alike.cases with ⟨first, _⟩ | ⟨first, _⟩ <;> rw [first] <;> rfl

theorem not_alike_of_scalarEquals (equal : a.scalarEquals b = true) (c : Tree) : ¬ Alike a c := by
  rintro ⟨_, vector | embedded⟩ <;> cases a <;> contradiction

/-! ### Order of lists -/

theorem precedes_nil (ys : List Tree) : precedes [] ys = !ys.isEmpty := by
  rw [precedes]
  · rfl
  · intros
    contradiction

theorem precedes_cons_nil (x : Tree) (xs : List Tree) : precedes (x :: xs) [] = false := by
  rw [precedes]
  · rfl
  · intros
    contradiction

theorem precedes_cons (x y : Tree) (xs ys : List Tree) : precedes (x :: xs) (y :: ys) =
    if x.less y then true else if y.less x then false else precedes xs ys := by
  rw [precedes]

/-- Lists whose items are in one order only are in one order only. -/
theorem precedes_asymm {xs ys : List Tree}
    (items : ∀ x ∈ xs, ∀ y, x.less y = true → y.less x = false) (before : precedes xs ys = true) :
    precedes ys xs = false := by
  induction xs generalizing ys with
  | nil =>
    cases ys with
    | nil =>
      rw [precedes_nil] at before
      contradiction
    | cons y ys => exact precedes_cons_nil y ys
  | cons x xs inductionHypothesis =>
    cases ys with
    | nil =>
      rw [precedes_cons_nil] at before
      contradiction
    | cons y ys =>
      have pair := items x List.mem_cons_self y
      have rest := @inductionHypothesis ys
        fun x member => items x (List.mem_cons_of_mem _ member)
      rw [precedes_cons] at before ⊢
      cases forward : x.less y with
      | true => rw [pair forward, if_neg Bool.false_ne_true, if_pos rfl]
      | false =>
        rw [forward, if_neg Bool.false_ne_true] at before
        rw [if_neg Bool.false_ne_true]
        cases backward : y.less x with
        | true =>
          rw [backward, if_pos rfl] at before
          contradiction
        | false =>
          rw [backward, if_neg Bool.false_ne_true] at before
          exact rest before

/-- A list can take the place of one with equal items. -/
theorem precedes_congr {xs ys : List Tree}
    (items : ∀ x ∈ xs, ∀ y, x.equals y = true → ∀ z, x.less z = y.less z ∧ z.less x = z.less y)
    (equal : allEqual xs ys = true) (zs : List Tree) :
    precedes xs zs = precedes ys zs ∧ precedes zs xs = precedes zs ys := by
  induction xs generalizing ys zs with
  | nil =>
    cases ys with
    | nil => exact ⟨rfl, rfl⟩
    | cons => contradiction
  | cons x xs inductionHypothesis =>
    cases ys with
    | nil => contradiction
    | cons y ys =>
      obtain ⟨pair, rest⟩ := Bool.and_eq_true_iff.mp equal
      cases zs with
      | nil =>
        rw [precedes_cons_nil, precedes_cons_nil, precedes_nil, precedes_nil]
        exact ⟨rfl, rfl⟩
      | cons z zs =>
        obtain ⟨left, right⟩ := items x List.mem_cons_self y pair z
        obtain ⟨before, behind⟩ := inductionHypothesis
          (fun x member => items x (List.mem_cons_of_mem _ member)) rest zs
        simp only [precedes_cons, left, right, before, behind]
        exact ⟨trivial, trivial⟩

/-! ### Laws of the order -/

/-- No tree is less than another one both ways. -/
theorem less_asymm (less : a.less b = true) : b.less a = false := by
  induction a using induct_items generalizing b with
  | each a inductionHypothesis =>
    by_cases alike : Alike a b
    · rw [less_of_alike alike] at less
      rw [less_of_alike alike.symm]
      exact precedes_asymm (fun x member y => inductionHypothesis x member) less
    · rw [less_of_not_alike alike] at less
      rw [less_of_not_alike fun swapped => alike swapped.symm, scalarOrder_swap, beq_iff_eq.mp less]
      rfl

theorem less_irrefl (a : Tree) : a.less a = false := by
  cases less : a.less a with
  | true => exact absurd (less_asymm less) (less ▸ Bool.noConfusion)
  | false => rfl

/-- Equal trees are compared by items with the same trees, and are in the same order with all
others. -/
theorem alike_congr (equal : a.equals b = true) (c : Tree) :
    (Alike a c ↔ Alike b c) ∧ a.scalarOrder c = b.scalarOrder c := by
  by_cases alike : Alike a b
  · refine ⟨alike.congr c, ?_⟩
    rw [scalarOrder_of_alike alike, scalarOrder_of_alike alike.symm]
  · rw [equals_of_not_alike alike] at equal
    have scalars : ¬ Alike b c := by
      rintro ⟨_, vector | embedded⟩ <;> cases b <;> cases a <;> contradiction
    exact ⟨iff_of_false (not_alike_of_scalarEquals equal c) scalars,
      scalarOrder_of_scalarEquals equal c⟩

theorem alike_of_equals (equal : a.equals b = true) (alike : Alike a c) : Alike a b := by
  by_contra apart
  rw [equals_of_not_alike apart] at equal
  exact not_alike_of_scalarEquals equal c alike

/-- A tree can take the place of an equal one on both sides of the order. -/
theorem less_congr (equal : a.equals b = true) (c : Tree) :
    a.less c = b.less c ∧ c.less a = c.less b := by
  induction a using induct_items generalizing b c with
  | each a inductionHypothesis =>
    obtain ⟨same, order⟩ := alike_congr equal c
    by_cases alike : Alike a c
    · rw [equals_of_alike (alike_of_equals equal alike)] at equal
      obtain ⟨before, behind⟩ := precedes_congr
        (fun x member y equal z => inductionHypothesis x member equal z) equal c.items
      have other := same.mp alike
      rw [less_of_alike alike, less_of_alike other, less_of_alike alike.symm,
        less_of_alike other.symm]
      exact ⟨before, behind⟩
    · have other : ¬ Alike b c := fun found => alike (same.mpr found)
      rw [less_of_not_alike alike, less_of_not_alike other,
        less_of_not_alike fun swapped => alike swapped.symm,
        less_of_not_alike fun swapped => other swapped.symm, scalarOrder_swap a, scalarOrder_swap b,
        order]
      exact ⟨rfl, rfl⟩

/-- Equal trees are in neither strict order. -/
theorem less_of_equals (equal : a.equals b = true) : a.less b = false ∧ b.less a = false :=
  ⟨(less_congr equal b).1.trans (less_irrefl b), (less_congr equal b).2.trans (less_irrefl b)⟩

/-! ### Laws of the relations -/

theorem relate_less (a b : Tree) : a.relate .less b = a.less b := by
  by_cases alike : Alike a b
  · rw [relate_of_alike _ alike, less_of_alike alike]
    rfl
  · rw [relate_of_not_alike _ alike, less_of_not_alike alike]

theorem relate_greater (a b : Tree) : a.relate .greater b = b.relate .less a := by
  by_cases alike : Alike a b
  · rw [relate_of_alike _ alike, relate_of_alike _ alike.symm]
    rfl
  · rw [relate_of_not_alike _ alike, relate_of_not_alike _ fun swapped => alike swapped.symm,
      scalarOrder_swap a b]
    rcases a.scalarOrder b with _ | _ | _ | _ <;> rfl

theorem relate_greaterOrEqual (a b : Tree) :
    a.relate .greaterOrEqual b = b.relate .lessOrEqual a := by
  by_cases alike : Alike a b
  · rw [relate_of_alike _ alike, relate_of_alike _ alike.symm]
    rfl
  · rw [relate_of_not_alike _ alike, relate_of_not_alike _ fun swapped => alike swapped.symm,
      scalarOrder_swap a b]
    rcases a.scalarOrder b with _ | _ | _ | _ <;> rfl

theorem lessOrEqual_of_less (less : a.less b = true) : a.relate .lessOrEqual b = true := by
  have swapped := less_asymm less
  by_cases alike : Alike a b
  · rw [less_of_alike alike.symm] at swapped
    rw [relate_of_alike _ alike, relateAll, swapped]
    rfl
  · rw [less_of_not_alike alike] at less
    rw [relate_of_not_alike _ alike, beq_iff_eq.mp less]
    rfl

theorem orEqual_of_equals (ordered : ¬ (a.kind = .function ∧ b.kind = .function))
    (equal : a.equals b = true) :
    a.relate .lessOrEqual b = true ∧ a.relate .greaterOrEqual b = true := by
  by_cases alike : Alike a b
  · obtain ⟨before, behind⟩ := less_of_equals equal
    rw [less_of_alike alike] at before
    rw [less_of_alike alike.symm] at behind
    rw [relate_of_alike _ alike, relate_of_alike _ alike, relateAll, relateAll, before, behind]
    exact ⟨rfl, rfl⟩
  · rw [equals_of_not_alike alike, scalarEquals_eq ordered] at equal
    rw [relate_of_not_alike _ alike, relate_of_not_alike _ alike, beq_iff_eq.mp equal]
    exact ⟨rfl, rfl⟩

/-- A tree can take the place of an equal one on both sides of all relations. -/
theorem relate_congr (relation : Relation) (equal : a.equals b = true) (c : Tree) :
    a.relate relation c = b.relate relation c ∧ c.relate relation a = c.relate relation b := by
  obtain ⟨same, order⟩ := alike_congr equal c
  by_cases alike : Alike a c
  · have other := same.mp alike
    obtain ⟨before, behind⟩ := less_congr equal c
    rw [less_of_alike alike, less_of_alike other] at before
    rw [less_of_alike alike.symm, less_of_alike other.symm] at behind
    rw [relate_of_alike _ alike, relate_of_alike _ other, relate_of_alike _ alike.symm,
      relate_of_alike _ other.symm]
    cases relation <;> simp only [relateAll, before, behind, and_self]
  · have other : ¬ Alike b c := fun found => alike (same.mpr found)
    rw [relate_of_not_alike _ alike, relate_of_not_alike _ other,
      relate_of_not_alike _ fun swapped => alike swapped.symm,
      relate_of_not_alike _ fun swapped => other swapped.symm, scalarOrder_swap a,
      scalarOrder_swap b, order]
    exact ⟨rfl, rfl⟩

end Tree

/-! ### Laws of the operators -/

/-- The operator that asks for a relation. -/
def Relation.operator : Relation → BinaryOperator
  | less => .less
  | lessOrEqual => .lessOrEqual
  | greater => .greater
  | greaterOrEqual => .greaterOrEqual

theorem Denotes.kind_eq {memory : Memory} {value : Value} {tree : Tree}
    (denotes : Denotes memory value tree) : value.kind = tree.kind := by
  cases denotes <;> rfl

namespace Value

/-- A comparison holds of two values: the operator gives a true flag and changes nothing. -/
def Holds (memory : Memory) (operator : BinaryOperator) (a b : Value) : Prop :=
  operator.evaluate a b memory = some (.bool true, memory)

/-- What the comparisons of any two values keep to. -/
structure Related (memory : Memory) (a b : Value) : Prop where
  decided : ∀ operator : BinaryOperator, operator.isComparison = true →
    ∃ flag, operator.evaluate a b memory = some (.bool flag, memory)
  notEqual : Holds memory .notEqual a b ↔ ¬ Holds memory .equal a b
  greater : Holds memory .greater a b ↔ Holds memory .less b a
  greaterOrEqual : Holds memory .greaterOrEqual a b ↔ Holds memory .lessOrEqual b a
  less : Holds memory .less a b → Holds memory .lessOrEqual a b ∧ ¬ Holds memory .less b a

/-- What equality and the order of two values have to do with each other, also where the values are
compared with a third one. -/
structure Agreeing (memory : Memory) (a b c : Value) : Prop where
  less : Holds memory .less a b → ¬ Holds memory .equal a b
  equal : Holds memory .equal a b → ¬ Holds memory .less a b ∧ ¬ Holds memory .less b a
  orEqual : Holds memory .equal a b → ¬ (a.kind = .function ∧ b.kind = .function) →
    Holds memory .lessOrEqual a b ∧ Holds memory .greaterOrEqual a b
  congruent : Holds memory .equal a b → ∀ relation : Relation,
    (Holds memory relation.operator a c ↔ Holds memory relation.operator b c) ∧
      (Holds memory relation.operator c a ↔ Holds memory relation.operator c b)

/-- The comparisons of two values are coherent. Equality asks for sizes first, so it takes part only
as long as words can count the items of all vectors in the values that are equal. -/
structure Coherent (memory : Memory) (a b c : Value) : Prop extends Related memory a b where
  agreeing : Workspace.Small memory a → Workspace.Small memory b → Agreeing memory a b c

variable {memory : Memory} {a b c : Value} {x y z : Tree}

theorem comparison_eq {look : Memory → Option Bool} {flag : Bool}
    (found : look memory = some flag) :
    BinaryOperator.comparison look memory = some (.bool flag, memory) := by
  simp only [BinaryOperator.comparison, Action.read, StateT.bind, bind, found, Option.bind_some]
  rfl

theorem comparison_iff {look : Memory → Option Bool} {flag : Bool}
    (found : look memory = some flag) :
    BinaryOperator.comparison look memory = some (.bool true, memory) ↔ flag = true := by
  rw [comparison_eq found]
  constructor
  · intro same
    exact Value.bool.inj (Prod.mk.inj (Option.some.inj same)).1
  · rintro rfl
    rfl

theorem holds_equal {flag : Bool} (equal : a.equals memory b = some flag) :
    Holds memory .equal a b ↔ flag = true :=
  comparison_iff equal

theorem holds_notEqual {flag : Bool} (equal : a.equals memory b = some flag) :
    Holds memory .notEqual a b ↔ ¬ flag = true := by
  have different : (a.equals memory b).map (!·) = some (!flag) := by
    rw [equal]
    rfl
  rw [Bool.not_eq_true, ← Bool.not_eq_true']
  exact comparison_iff different

theorem holds_relation (relation : Relation) (first : Denotes memory a x)
    (second : Denotes memory b y) :
    Holds memory relation.operator a b ↔ x.relate relation y = true := by
  have related := relate_eq relation first second
  cases relation <;> exact comparison_iff related

/-- An empty vector equals every vector of its size, as there is no pair to compare. -/
theorem equals_of_empty {a b : Address} (empty : Denotes memory (.vector a) (.vector []))
    (sizes : memory.size a = memory.size b) :
    (Value.vector a).equals memory (.vector b) = some true := by
  obtain ⟨items, same, follows⟩ := empty.follows
  cases same
  rw [equals, if_pos sizes, Walk.agree, follows.next_nil]
  rfl

/-- All values that denote trees are related so. -/
theorem related_of_denotes (first : Denotes memory a x) (second : Denotes memory b y) :
    Related memory a b where
  decided := by
    intro operator comparison
    obtain ⟨flag, equal⟩ := equals_ends first second
    have related := fun relation => relate_eq relation first second
    cases operator with
    | equal => exact ⟨_, comparison_eq equal⟩
    | notEqual => exact ⟨!flag, comparison_eq (by rw [equal]; rfl)⟩
    | less | lessOrEqual | greater | greaterOrEqual => exact ⟨_, comparison_eq (related _)⟩
    | _ => contradiction
  notEqual := by
    obtain ⟨flag, equal⟩ := equals_ends first second
    rw [holds_notEqual equal, holds_equal equal]
  greater := by
    have forward := holds_relation .greater first second
    rw [Tree.relate_greater] at forward
    exact forward.trans (holds_relation .less second first).symm
  greaterOrEqual := by
    have forward := holds_relation .greaterOrEqual first second
    rw [Tree.relate_greaterOrEqual] at forward
    exact forward.trans (holds_relation .lessOrEqual second first).symm
  less := by
    intro less
    have before := (holds_relation .less first second).mp less
    rw [Tree.relate_less] at before
    refine ⟨(holds_relation .lessOrEqual first second).mpr (Tree.lessOrEqual_of_less before),
      fun behind => ?_⟩
    have behind := (holds_relation .less second first).mp behind
    rw [Tree.relate_less, Tree.less_asymm before] at behind
    contradiction

/-- Where equality is that of trees, it agrees with their order. -/
theorem agreeing_of_denotes (first : Denotes memory a x) (second : Denotes memory b y)
    (third : Denotes memory c z) (equals : a.equals memory b = some (x.equals y)) :
    Agreeing memory a b c where
  less := by
    intro less equal
    have before := (holds_relation .less first second).mp less
    rw [Tree.relate_less, (Tree.less_of_equals ((holds_equal equals).mp equal)).1] at before
    contradiction
  equal := by
    intro equal
    obtain ⟨before, behind⟩ := Tree.less_of_equals ((holds_equal equals).mp equal)
    refine ⟨fun less => ?_, fun less => ?_⟩
    · have less := (holds_relation .less first second).mp less
      rw [Tree.relate_less, before] at less
      contradiction
    · have less := (holds_relation .less second first).mp less
      rw [Tree.relate_less, behind] at less
      contradiction
  orEqual := by
    intro equal ordered
    rw [first.kind_eq, second.kind_eq] at ordered
    obtain ⟨lessOrEqual, greaterOrEqual⟩ :=
      Tree.orEqual_of_equals ordered ((holds_equal equals).mp equal)
    exact ⟨(holds_relation .lessOrEqual first second).mpr lessOrEqual,
      (holds_relation .greaterOrEqual first second).mpr greaterOrEqual⟩
  congruent := by
    intro equal relation
    obtain ⟨left, right⟩ := Tree.relate_congr relation ((holds_equal equals).mp equal) z
    rw [holds_relation relation first third, holds_relation relation second third,
      holds_relation relation third first, holds_relation relation third second, left, right]
    exact ⟨Iff.rfl, Iff.rfl⟩

end Value

namespace Workspace

/-- The empty vector equals the two vectors of `2 ^ 64` elements. -/
theorem Outgrown.equals_empty {workspace : Workspace} (outgrown : workspace.Outgrown)
    (reached : workspace.Reached) {address : Address} (large : address = 63 ∨ address = 67) :
    (Value.vector 64).equals workspace.memory (.vector address) = some true := by
  obtain ⟨doubled, empty, _, other⟩ := outgrown.sizes
  refine Value.equals_of_empty (outgrown.denotes_empty reached) ?_
  rcases large with rfl | rfl
  · exact empty.trans doubled.symm
  · exact empty.trans other.symm

/-- The empty vector is less than a vector of `2 ^ 64` elements. -/
theorem Outgrown.less_empty {workspace : Workspace} (outgrown : workspace.Outgrown)
    (reached : workspace.Reached) :
    Value.Holds workspace.memory .less (.vector 64) (.vector 63) := by
  obtain ⟨x, xs, denotes, _⟩ := outgrown.denotes reached (Or.inl rfl)
  refine (Value.holds_relation .less (outgrown.denotes_empty reached) denotes).mpr ?_
  rw [Tree.relate_less, Tree.less, Tree.precedes_nil]
  rfl

/-- In every workspace that is reached, comparisons of whatever the workspace leads to are
coherent. -/
theorem comparisons_coherent {workspace : Workspace} (reached : workspace.Reached)
    (fits : workspace.memory.Fits) {a b c : Value} (first : workspace.Reaches a)
    (second : workspace.Reaches b) (third : workspace.Reaches c) :
    Value.Coherent workspace.memory a b c := by
  obtain ⟨followed, plain, represents⟩ := reached.represents
  obtain ⟨⟨x, denotesFirst⟩, aliveFirst⟩ := first.denotes represents
  obtain ⟨⟨y, denotesSecond⟩, aliveSecond⟩ := second.denotes represents
  obtain ⟨⟨z, denotesThird⟩, _⟩ := third.denotes represents
  have counts := (reached.sound fits).counts trivial
  refine ⟨Value.related_of_denotes denotesFirst denotesSecond, fun smallFirst smallSecond => ?_⟩
  exact Value.agreeing_of_denotes denotesFirst denotesSecond denotesThird
    (Value.equals_eq counts aliveFirst aliveSecond denotesFirst denotesSecond
      (smallFirst x denotesFirst) (smallSecond y denotesSecond))

/-- A vector with a placeholder, a flat one that starts with a flag, and a flag alone. -/
theorem comparisons_coherent_layouts :
    ∃ workspace : Workspace, workspace.Reached ∧
      workspace.memory.contents 0 = [.number 1, .embedded 1] ∧
      workspace.memory.contents 2 = [.bool true, .number 2, .number 3] ∧
      workspace.Reaches (.vector 0) ∧ workspace.Reaches (.vector 2) ∧
      workspace.Reaches (.bool true) ∧ Small workspace.memory (.vector 0) ∧
      Small workspace.memory (.vector 2) ∧
      Value.Coherent workspace.memory (.vector 0) (.vector 2) (.bool true) := by
  have reached : ∃ reports workspace,
      run [.create, .append 0 (.number 1),
        .append 0 (.embedded (.vector [.number 2, .number 3])),
        .fill [.bool true, .number 2, .number 3], .keep (.bool true)] empty =
          some (.ok (reports, workspace)) ∧ workspace.registers = [0, 2] ∧
        workspace.values = [.bool true] ∧
        workspace.memory.contents 0 = [.number 1, .embedded 1] ∧
        workspace.memory.contents 2 = [.bool true, .number 2, .number 3] ∧
        workspace.memory.Fits :=
    ⟨_, _, rfl, rfl, rfl, rfl, rfl, rfl⟩
  obtain ⟨reports, workspace, ran, registers, values, placeholder, flat, fits⟩ := reached
  have first : workspace.Reaches (.vector 0) := .register (registers ▸ List.mem_cons_self)
  have second : workspace.Reaches (.vector 2) :=
    .register (registers ▸ List.mem_cons_of_mem _ List.mem_cons_self)
  have third : workspace.Reaches (.bool true) := .value (values ▸ List.mem_cons_self)
  have represents := represents_of_plain ran rfl
  exact ⟨workspace, ⟨_, _, ran⟩, placeholder, flat, first, second, third, first.small represents,
    second.small represents, comparisons_coherent ⟨_, _, ran⟩ fits first second third⟩

/-- The empty vector is less than a vector of `2 ^ 64` elements, and equal to it. -/
theorem comparisons_incoherent :
    ∃ workspace : Workspace, workspace.Reached ∧ workspace.memory.Fits ∧
      workspace.Reaches (.vector 64) ∧ workspace.Reaches (.vector 63) ∧
      Value.Holds workspace.memory .less (.vector 64) (.vector 63) ∧
      Value.Holds workspace.memory .equal (.vector 64) (.vector 63) := by
  obtain ⟨workspace, reached, outgrown⟩ := exists_outgrown
  exact ⟨workspace, reached, outgrown.fits, .register (outgrown.mem_registers (by decide)),
    .register (outgrown.mem_registers (by decide)), outgrown.less_empty reached,
    (Value.holds_equal (outgrown.equals_empty reached (Or.inl rfl))).mpr rfl⟩

end Workspace

end SolidScript
