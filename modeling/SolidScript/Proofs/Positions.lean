/-
This file proves what equality tells of cursors. It compares ranges and the values to come, and no
positions, so cursors at two positions are equal where a step is too small to change the value. As
the values of a range are in order, that is all: equal cursors differ in how often one value is
still to be repeated, and behind it they give the same.
-/

import SolidScript.Proofs.Sequences

namespace SolidScript

/-! ### Equal cursors -/

/-- Doubles that are equal, or of which neither is a number. -/
def SameValue (x y : Float) : Prop := (x == y) = true ∨ x.isNaN = true ∧ y.isNaN = true

theorem sameValue_iff {x y : Float} : SameValue x y ↔ extended x = extended y := by
  rw [SameValue, beq_iff_extended, isNaN_iff_extended, isNaN_iff_extended]
  constructor
  · rintro (⟨same, -⟩ | ⟨first, second⟩)
    · exact same
    · rw [first, second]
  · intro same
    by_cases none : extended x = none
    · exact .inr ⟨none, same ▸ none⟩
    · exact .inl ⟨same, none⟩

/-- Equal ranges give the same values from one position on. -/
theorem Range.forall₂_values {range other : Range} (same : range.equals other = true)
    {position count : ℕ} (within : position + count ≤ range.yield) :
    List.Forall₂ SameValue ((List.range' position count).map range.valueOf)
      ((List.range' position count).map other.valueOf) := by
  rw [List.forall₂_map_left_iff, List.forall₂_map_right_iff, List.forall₂_same]
  intro place member
  have bounds := List.mem_range'_1.mp member
  exact sameValue_iff.mpr (valueOf_congr same (by omega))

namespace Cursor

/-- The values still to come. -/
def rest (cursor : Cursor) : List Float := (cursor.take cursor.remaining).1

/-- No value is still to come twice. -/
def Distinct (cursor : Cursor) : Prop := cursor.rest.Pairwise fun x y => (x == y) = false

/-- The cursor gives the next value of the other one so often, and then what the other one gives. -/
def Trails (cursor other : Cursor) : Prop :=
  ∃ repeated rest, cursor.rest = repeated ++ rest ∧
    (∀ value ∈ repeated, (value == other.value) = true) ∧ List.Forall₂ SameValue rest other.rest

end Cursor

namespace Stands

variable {a b : Cursor} {left right : Passage} (first : Stands a left) (second : Stands b right)

include first

theorem rest_eq : a.rest = (List.range' left.passed left.left).map left.range.valueOf := by
  rw [Cursor.rest, first.remaining_eq, first.take_eq, Nat.min_self]

theorem ended_or_going : (left.passed = left.range.yield ∧ a.isExhausted = true) ∨
    (left.passed < left.range.yield ∧ a.isExhausted = false) := by
  rcases Nat.lt_or_eq_of_le first.within with going | ended
  · exact .inr ⟨going, Bool.eq_false_iff.mpr (mt first.isExhausted_iff.mp going.ne)⟩
  · exact .inl ⟨ended, first.isExhausted_iff.mpr ended⟩

include second

/-- What equality looks at. -/
theorem equals_iff : a.equals b = true ↔ left.range.equals right.range = true ∧
    ((left.passed = left.range.yield ∧ right.passed = right.range.yield) ∨
      (left.passed < left.range.yield ∧ right.passed < right.range.yield ∧
        (left.range.valueOf left.passed == right.range.valueOf right.passed) = true)) := by
  rw [Cursor.equals, first.range, second.range, first.value, second.value, Bool.and_eq_true,
    and_comm]
  refine and_congr_right fun _ => ?_
  rcases first.ended_or_going with ⟨ended, found⟩ | ⟨going, found⟩ <;>
    rcases second.ended_or_going with ⟨ended', found'⟩ | ⟨going', found'⟩ <;>
    rw [found, found']
  · exact iff_of_true rfl (.inl ⟨ended, ended'⟩)
  · exact iff_of_false Bool.false_ne_true (by omega)
  · exact iff_of_false Bool.false_ne_true (by omega)
  · simp only [going, going', going.ne, true_and, false_and, false_or]

/-- Where equal cursors stand at two positions the range has one value at both. -/
theorem repeats (equal : a.equals b = true) (apart : left.passed ≠ right.passed) :
    right.passed < left.range.yield ∧
      (left.range.valueOf left.passed == left.range.valueOf right.passed) = true := by
  obtain ⟨ranges, places⟩ := (first.equals_iff second).mp equal
  have yields := Range.yield_congr ranges
  obtain ⟨_, going, same⟩ := places.resolve_left (by omega)
  rw [← yields] at going
  rw [beq_iff_extended, ← Range.valueOf_congr ranges going] at same
  exact ⟨going, beq_iff_extended.mpr same⟩

/-- Of two equal cursors one may have some values in front of those of the other one, which are then
all equal to the other one's next value. -/
theorem trails (equal : a.equals b = true) (more : b.remaining ≤ a.remaining) : a.Trails b := by
  have ranges := ((first.equals_iff second).mp equal).1
  have yields := Range.yield_congr ranges
  have within := first.within
  have within' := second.within
  rw [first.remaining_eq, second.remaining_eq, Passage.left, Passage.left] at more
  obtain ⟨between, behind⟩ := Nat.exists_eq_add_of_le (show left.passed ≤ right.passed by omega)
  have split : List.range' left.passed left.left =
      List.range' left.passed between ++ List.range' right.passed right.left := by
    rw [behind, List.range'_append_1, Passage.left, Passage.left]
    congr 1
    omega
  refine ⟨(List.range' left.passed between).map left.range.valueOf,
    (List.range' right.passed right.left).map left.range.valueOf, ?_, ?_, ?_⟩
  · rw [first.rest_eq, split, List.map_append]
  · intro value member
    obtain ⟨place, inside, rfl⟩ := List.mem_map.mp member
    have bounds := List.mem_range'_1.mp inside
    obtain ⟨going, same⟩ := first.repeats second equal (by omega)
    have last := Range.valueOf_between bounds.1 (by omega) going same
    rw [beq_iff_extended] at same last
    rw [second.value, beq_iff_extended, ← Range.valueOf_congr ranges going, ← same.1, last.1]
    exact ⟨rfl, last.1 ▸ last.2⟩
  · rw [second.rest_eq]
    exact Range.forall₂_values ranges (by rw [Passage.left]; omega)

/-- Equal cursors that will not repeat a value stand at one position. -/
theorem together (equal : a.equals b = true) (more : b.remaining ≤ a.remaining)
    (distinct : a.Distinct) : left.passed = right.passed := by
  have yields := Range.yield_congr ((first.equals_iff second).mp equal).1
  have within := first.within
  have within' := second.within
  rw [first.remaining_eq, second.remaining_eq, Passage.left, Passage.left] at more
  by_contra apart
  obtain ⟨going, same⟩ := first.repeats second equal apart
  rw [Cursor.Distinct, first.rest_eq, List.pairwise_map, List.pairwise_iff_getElem,
    Passage.left] at distinct
  have differ := distinct 0 (right.passed - left.passed) (by rw [List.length_range']; omega)
    (by rw [List.length_range']; omega) (by omega)
  rw [List.getElem_range', List.getElem_range', Nat.mul_zero, Nat.one_mul, Nat.add_zero,
    Nat.add_sub_of_le (by omega), same] at differ
  contradiction

/-- Cursors of equal ranges at one position have the same before them. -/
theorem forall₂_rest (ranges : left.range.equals right.range = true)
    (place : left.passed = right.passed) : List.Forall₂ SameValue a.rest b.rest := by
  have within := first.within
  have yields := Range.yield_congr ranges
  rw [first.rest_eq, second.rest_eq, Passage.left, Passage.left, ← yields, ← place]
  exact Range.forall₂_values ranges (by omega)

/-- The order of the cursors does not matter. -/
theorem equals_comm : b.equals a = a.equals b := by
  have ranges : right.range.equals left.range = left.range.equals right.range :=
    Range.equals_comm _ _
  have values : (right.range.valueOf right.passed == left.range.valueOf left.passed) =
      (left.range.valueOf left.passed == right.range.valueOf right.passed) := beq_swap _ _
  rw [Bool.eq_iff_iff, first.equals_iff second, second.equals_iff first, ranges, values]
  tauto

end Stands

namespace Stands

variable {a : Cursor} {passage : Passage} (stands : Stands a passage)

include stands

/-- Where no step is lost no value comes twice. -/
theorem distinct (keeps : a.range.KeepsSteps) : a.Distinct := by
  rw [stands.range] at keeps
  have limit := passage.range.count_lt
  have few := passage.range.yield_le_count
  rw [Cursor.Distinct, stands.rest_eq, List.pairwise_map]
  refine List.Pairwise.imp_of_mem ?_ List.pairwise_lt_range'
  intro low high inLow inHigh less
  have bounds := List.mem_range'_1.mp inLow
  have bounds' := List.mem_range'_1.mp inHigh
  rw [Passage.left] at bounds bounds'
  have nonzero : amount passage.range.step ≠ 0 := by
    refine amount_ne_zero keeps.step (Bool.eq_false_iff.mpr fun zero => ?_)
    rw [Range.yield, if_pos zero] at bounds
    omega
  exact keeps.valueOf_apart nonzero less (by omega)

theorem isNaN_rest (bounded : a.range.first.isInf = false) :
    ∀ value ∈ a.rest, value.isNaN = false := by
  rw [stands.rest_eq]
  intro value member
  obtain ⟨place, inside, rfl⟩ := List.mem_map.mp member
  have bounds := List.mem_range'_1.mp inside
  rw [Passage.left] at bounds
  have few := passage.range.yield_le_count
  have number := (Range.isNumber_of_count (by omega : passage.range.count ≠ 0)).1
  rw [stands.range] at bounded
  exact Range.isNaN_valueOf (isFinite_iff.mpr ⟨number, bounded⟩) (by omega)

/-- A cursor equals its copies unless what it gives next is no number. -/
theorem equals_self_iff : a.equals a = true ↔ a.isExhausted = true ∨ a.value.isNaN = false := by
  rw [stands.equals_iff stands, stands.isExhausted_iff, stands.value, beq_iff_extended,
    ← Bool.not_eq_true, isNaN_iff_extended, Range.equals_iff, Range.order_self]
  constructor
  · rintro ⟨-, ⟨ended, -⟩ | ⟨-, -, -, number⟩⟩
    · exact .inl ended
    · exact .inr number
  · intro fits
    refine ⟨rfl, ?_⟩
    rcases stands.ended_or_going with ⟨ended, -⟩ | ⟨going, -⟩
    · exact .inl ⟨ended, ended⟩
    · exact .inr ⟨going, going, rfl, fits.resolve_left going.ne⟩

/-- The next value is one of those still to come. -/
theorem value_mem (going : a.isExhausted = false) : a.value ∈ a.rest := by
  have within := stands.within
  have left : passage.passed ≠ passage.range.yield :=
    mt stands.isExhausted_iff.mpr (Bool.eq_false_iff.mp going)
  rw [stands.rest_eq, stands.value]
  exact List.mem_map_of_mem (List.mem_range'_1.mpr ⟨le_rfl, by rw [Passage.left]; omega⟩)

end Stands

/-! ### What equality tells -/

/-- What equality tells of two cursors, and of one of them and its copies. -/
structure EqualityTells (a b : Cursor) : Prop where
  symmetric : b.equals a = a.equals b
  trails : a.equals b = true → b.remaining ≤ a.remaining → a.Trails b
  together : a.equals b = true → a.Distinct → b.Distinct →
    a.remaining = b.remaining ∧ List.Forall₂ SameValue a.rest b.rest
  distinct : a.range.KeepsSteps → a.Distinct
  /-- Where no step is lost equality tells the position. -/
  positions : a.equals b = true → a.range.KeepsSteps →
    a.remaining = b.remaining ∧ List.Forall₂ (fun x y => (x == y) = true) a.rest b.rest
  numbers : a.range.first.isInf = false → ∀ value ∈ a.rest, value.isNaN = false
  copied_iff : a.equals a = true ↔ a.isExhausted = true ∨ a.value.isNaN = false
  copied : a.range.first.isInf = false → a.equals a = true

namespace Stands

variable {a b : Cursor} {left right : Passage} (first : Stands a left) (second : Stands b right)

include first

theorem equals_copy (bounded : a.range.first.isInf = false) : a.equals a = true := by
  rw [first.equals_self_iff]
  cases ended : a.isExhausted with
  | true => exact .inl rfl
  | false => exact .inr (first.isNaN_rest bounded _ (first.value_mem ended))

include second

theorem same_position (equal : a.equals b = true) (distinctA : a.Distinct)
    (distinctB : b.Distinct) :
    a.remaining = b.remaining ∧ List.Forall₂ SameValue a.rest b.rest := by
  have place : left.passed = right.passed := by
    rcases le_total b.remaining a.remaining with more | more
    · exact first.together second equal more distinctA
    · exact (second.together first ((first.equals_comm second).trans equal) more distinctB).symm
  have ranges := ((first.equals_iff second).mp equal).1
  refine ⟨?_, first.forall₂_rest second ranges place⟩
  rw [first.remaining_eq, second.remaining_eq, Passage.left, Passage.left, place,
    Range.yield_congr ranges]

/-- Where no step is lost equal cursors stand at one position. -/
theorem same_position_of_keepsSteps (equal : a.equals b = true) (keeps : a.range.KeepsSteps) :
    a.remaining = b.remaining ∧ List.Forall₂ (fun x y => (x == y) = true) a.rest b.rest := by
  have ranges := ((first.equals_iff second).mp equal).1
  have distinct : b.Distinct := by
    by_cases none : left.range.count = 0
    · have few := left.range.yield_le_count
      have yields := Range.yield_congr ranges
      rw [Cursor.Distinct, second.rest_eq, Passage.left, show right.range.yield = 0 by omega,
        Nat.zero_sub]
      exact .nil
    · refine second.distinct ?_
      rw [second.range]
      rw [first.range] at keeps
      exact keeps.congr ranges none
  obtain ⟨left, same⟩ := first.same_position second equal (first.distinct keeps) distinct
  refine ⟨left, ?_⟩
  have numbers := first.isNaN_rest (isFinite_iff.mp keeps.first).2
  refine ((List.forall₂_and_left _ _).mpr ⟨numbers, same⟩).imp ?_
  rintro x y ⟨number, equal | ⟨other, -⟩⟩
  · exact equal
  · rw [number] at other
    contradiction

theorem equalityTells : EqualityTells a b where
  symmetric := first.equals_comm second
  trails := first.trails second
  together := first.same_position second
  distinct := first.distinct
  positions := first.same_position_of_keepsSteps second
  numbers := first.isNaN_rest
  copied_iff := first.equals_self_iff
  copied := first.equals_copy

end Stands

/-- Whatever steps have led to them, equal cursors give the same but for repetitions of the value
that comes next, and none is repeated where steps are not lost. -/
theorem equalityTells_of_run (steps : List CursorStep) (answers : List (Option Float))
    (cursors : List Cursor)
    (run : CursorStep.run CursorStep.perform [] steps = some (answers, cursors)) :
    ∀ a ∈ cursors, ∀ b ∈ cursors, EqualityTells a b := by
  have inStep : InStep (CursorStep.run CursorStep.perform [] steps)
      (CursorStep.run Passage.perform [] steps) := run_inStep .nil steps
  rw [run] at inStep
  generalize CursorStep.run Passage.perform [] steps = meant at inStep
  cases inStep with
  | some stand =>
    intro a memberA b memberB
    obtain ⟨_, first⟩ := exists_of_forall₂_of_mem stand.2 memberA
    obtain ⟨_, second⟩ := exists_of_forall₂_of_mem stand.2 memberB
    exact first.equalityTells second

/-- One cursor moves away from its copy; another one is moved twice before it is copied. -/
theorem run_copies (range other : Range) :
    CursorStep.run CursorStep.perform []
        [.start range, .copy 0, .next 0, .start other, .next 2, .next 2, .copy 2] =
      some ([none, none, (Cursor.ofRange range).next.1, none, (Cursor.ofRange other).next.1,
          (Cursor.ofRange other).next.2.next.1, none],
        [(Cursor.ofRange range).next.2, .ofRange range, (Cursor.ofRange other).next.2.next.2,
          (Cursor.ofRange other).next.2.next.2]) := rfl

/-- The first step is lost, so the first value comes twice. -/
theorem equalityTells_of_run_lost :
    let a := Cursor.ofRange ⟨9007199254740992, 1, 9007199254740994⟩
    a.Trails a.next.2 ∧ a.remaining = 3 ∧ a.next.2.remaining = 2 := by
  have tells := equalityTells_of_run _ _ _
    (run_copies ⟨9007199254740992, 1, 9007199254740994⟩ ⟨0, 1, 0⟩)
    _ (.tail _ (.head _)) _ (.head _)
  exact ⟨tells.trails (by decide +kernel) (by decide +kernel), by decide +kernel, by decide +kernel⟩

/-- Cursors that are equal have different numbers of values left where a step is lost. A cursor is
no longer equal to its copies where steps add up to an infinity that is opposite to the first
value. -/
theorem equality_misses_position :
    ∃ steps answers a b c,
      CursorStep.run CursorStep.perform [] steps = some (answers, [a, b, c, c]) ∧
        (a.range.hasNaN = false ∧ b.range.hasNaN = false ∧ c.range.hasNaN = false) ∧
          (a.equals b = true ∧ a.remaining = 2 ∧ b.remaining = 3) ∧ c.equals c = false :=
  ⟨_, _, _, _, _, run_copies ⟨9007199254740992, 1, 9007199254740994⟩ ⟨-1 / 0, 1e308, 0⟩,
    by decide +kernel, by decide +kernel, by decide +kernel⟩

end SolidScript
