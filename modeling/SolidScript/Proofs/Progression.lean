/-
This file proves what cursors give. A cursor keeps its state, the count of the values it gave, the
value to come and the number of all values; each of them is told by one number, the number of values
it has passed. So any run of steps on any number of cursors gives what their positions in the
sequences of their ranges give, no count of 32 bits ever wraps, and the values of a range are the
first value and whole multiples of the step behind it.
-/

import SolidScript.Proofs.Lists
import SolidScript.Proofs.Number.Counting
import SolidScript.Range.Cursor

namespace SolidScript

/-! ### The sequence of a range -/

namespace Range

/-- The number of values that a cursor of the range gives. -/
def yield (range : Range) : Nat := if range.step == 0 then 0 else range.count

/-- The value at a position: the first one, or so many steps behind the first. -/
def valueOf (range : Range) : Nat → Float
  | 0 => range.first
  | position + 1 => range.first + range.step * (UInt32.ofNat (position + 1)).toFloat

/-- The value at a position, if the sequence is that long. -/
def value? (range : Range) (position : Nat) : Option Float :=
  if position < range.yield then some (range.valueOf position) else none

theorem count_lt (range : Range) : range.count < 2 ^ 32 := by
  have ofSteps : ∀ steps, countOfSteps steps < 2 ^ 32 := fun steps =>
    Nat.lt_of_le_of_lt (Nat.min_le_right ..) (by decide)
  rw [count]
  split
  · decide
  split
  · decide
  split
  · decide
  split
  · decide
  unfold countOfQuotient
  split
  · exact ofSteps _
  · decide
  · exact ofSteps _

theorem yield_le_count (range : Range) : range.yield ≤ range.count := by
  rw [yield]
  split
  · exact Nat.zero_le _
  · exact Nat.le_refl _

/-- Only a range with step zero has fewer values to give than it counts. -/
theorem yield_eq_count {range : Range} {position : Nat} (inside : position < range.yield) :
    range.yield = range.count := by
  rw [yield] at inside ⊢
  split
  next zero =>
    rw [if_pos zero] at inside
    contradiction
  next => rfl

end Range

/-- A way through the sequence of a range, with so many values behind it. -/
structure Passage where
  range : Range
  passed : Nat

namespace Passage

def left (passage : Passage) : Nat := passage.range.yield - passage.passed

def progress (passage : Passage) : Progress :=
  if passage.passed = passage.range.yield then .exhausted
  else if passage.passed = 0 then .fresh
  else .running

/-- The value after `count` more, and the way behind it or at the end. -/
def skip (passage : Passage) (count : Nat) : Option Float × Passage :=
  (passage.range.value? (passage.passed + count),
    { passage with passed := min (passage.passed + count + 1) passage.range.yield })

def next (passage : Passage) : Option Float × Passage := passage.skip 0

def perform (passages : List Passage) : CursorStep → Option (Option Float × List Passage)
  | .start range => some (none, passages ++ [⟨range, 0⟩])
  | .copy position => do
    let passage ← passages[position]?
    return (none, passages ++ [passage])
  | .next position => do
    let passage ← passages[position]?
    let (value, moved) := passage.next
    return (value, passages.set position moved)
  | .skip position count => do
    let passage ← passages[position]?
    let (value, moved) := passage.skip count
    return (value, passages.set position moved)

end Passage

namespace Passage

theorem skip_ended {passage : Passage} (ended : passage.passed = passage.range.yield)
    (count : Nat) : passage.skip count = (none, passage) := by
  rw [skip, Range.value?, if_neg (by omega), Nat.min_eq_right (by omega), ← ended]

theorem next_going {passage : Passage} (going : passage.passed < passage.range.yield) :
    passage.next =
      (some (passage.range.valueOf passage.passed), ⟨passage.range, passage.passed + 1⟩) := by
  rw [next, skip, Nat.add_zero, Range.value?, if_pos going, Nat.min_eq_left going]

theorem skip_succ {passage : Passage} (within : passage.passed ≤ passage.range.yield)
    (count : Nat) : passage.skip (count + 1) = passage.next.2.skip count := by
  rcases Nat.lt_or_eq_of_le within with going | ended
  · have same : passage.passed + (count + 1) = passage.passed + 1 + count := by omega
    rw [next_going going, skip, same]
    rfl
  · rw [next, skip_ended ended, skip_ended ended, skip_ended ended]

end Passage

/-- What steps give in turn, and what is left behind them. -/
def CursorStep.run {State : Type}
    (perform : List State → CursorStep → Option (Option Float × List State))
    (states : List State) : List CursorStep → Option (List (Option Float) × List State)
  | [] => some ([], states)
  | step :: steps => do
    let (answer, states) ← perform states step
    let (answers, states) ← run perform states steps
    return (answer :: answers, states)

/-! ### Where a cursor stands -/

/-- All that the cursor keeps is told by the number of values it has passed. -/
structure Stands (cursor : Cursor) (passage : Passage) : Prop where
  range : cursor.range = passage.range
  total : cursor.total.toNat = passage.range.count
  given : cursor.given.toNat = passage.passed
  within : passage.passed ≤ passage.range.yield
  value : cursor.value = passage.range.valueOf passage.passed
  progress : cursor.progress = passage.progress

namespace Stands

variable {cursor : Cursor} {passage : Passage}

theorem isExhausted_iff (stands : Stands cursor passage) :
    cursor.isExhausted = true ↔ passage.passed = passage.range.yield := by
  rw [Cursor.isExhausted, decide_eq_true_iff, stands.progress, Passage.progress]
  split
  next ended => exact iff_of_true rfl ended
  next going =>
    refine iff_of_false ?_ going
    split <;> exact fun equal => Progress.noConfusion equal

/-- A cursor is exhausted as soon as it has passed the whole sequence. -/
theorem settled {cursor : Cursor} {passage : Passage} (range : cursor.range = passage.range)
    (total : cursor.total.toNat = passage.range.count)
    (given : cursor.given.toNat = passage.passed)
    (within : passage.passed ≤ passage.range.yield)
    (value : cursor.value = passage.range.valueOf passage.passed)
    (progress : cursor.progress = if passage.passed = 0 then .fresh else .running) :
    Stands cursor.settled passage := by
  have ended : (cursor.range.step == 0 || decide (cursor.total ≤ cursor.given)) = true ↔
      passage.passed = passage.range.yield := by
    rw [Bool.or_eq_true, decide_eq_true_iff, UInt32.le_iff_toNat_le, total, given, range]
    constructor
    · rintro (zero | whole)
      · rw [Range.yield, if_pos zero] at within ⊢
        exact Nat.le_zero.mp within
      · exact Nat.le_antisymm within (Nat.le_trans passage.range.yield_le_count whole)
    · intro whole
      by_cases zero : (passage.range.step == 0) = true
      · exact .inl zero
      · rw [Range.yield, if_neg zero] at whole
        exact .inr (Nat.le_of_eq whole.symm)
  rw [Cursor.settled]
  by_cases whole : passage.passed = passage.range.yield
  · rw [if_pos (ended.mpr whole)]
    exact ⟨range, total, given, within, value, (if_pos whole).symm⟩
  · rw [if_neg (mt ended.mp whole)]
    exact ⟨range, total, given, within, value, progress.trans (if_neg whole).symm⟩

theorem ofRange (range : Range) : Stands (.ofRange range) ⟨range, 0⟩ :=
  settled rfl (UInt32.toNat_ofNat_of_lt' range.count_lt) rfl (Nat.zero_le _) rfl rfl

theorem lt_yield (stands : Stands cursor passage)
    (going : passage.passed ≠ passage.range.yield) : passage.passed < passage.range.yield :=
  Nat.lt_of_le_of_ne stands.within going

/-- The count of the values given is never above the number of all. -/
theorem given_le (stands : Stands cursor passage) : cursor.given ≤ cursor.total := by
  rw [UInt32.le_iff_toNat_le, stands.given, stands.total]
  exact Nat.le_trans stands.within passage.range.yield_le_count

/-- As long as values are left, the count of those given has room for one more. -/
theorem toNat_given_add (stands : Stands cursor passage)
    (going : passage.passed ≠ passage.range.yield) :
    (cursor.given + 1).toNat = passage.passed + 1 := by
  have below := stands.lt_yield going
  have counted := passage.range.yield_le_count
  have limited := passage.range.count_lt
  rw [UInt32.toNat_add, stands.given, UInt32.toNat_one]
  exact Nat.mod_eq_of_lt (by omega)

theorem remaining_eq (stands : Stands cursor passage) : cursor.remaining = passage.left := by
  rw [Cursor.remaining, Passage.left]
  by_cases ended : passage.passed = passage.range.yield
  · rw [if_pos (stands.isExhausted_iff.mpr ended), ended, Nat.sub_self]
  · rw [if_neg (mt stands.isExhausted_iff.mp ended),
      UInt32.toNat_sub_of_le _ _ stands.given_le, stands.total, stands.given,
      Range.yield_eq_count (stands.lt_yield ended)]

theorem length?_eq (stands : Stands cursor passage) : cursor.length? = some passage.left := by
  show (if cursor.remaining = cursor.remaining then some cursor.remaining else none) = _
  rw [if_pos rfl, stands.remaining_eq]

/-! ### One step -/

/-- An exhausted cursor gives nothing and stays where it is. -/
theorem skip_ended (stands : Stands cursor passage)
    (ended : passage.passed = passage.range.yield) (count : Nat) :
    cursor.skip count = (none, cursor) := by
  have exhausted := stands.isExhausted_iff.mpr ended
  cases count with
  | zero => exact if_pos exhausted
  | succ count => exact if_pos exhausted

/-- A cursor and its passage give the same and move on alike. -/
theorem next (stands : Stands cursor passage) :
    cursor.next.1 = passage.next.1 ∧ Stands cursor.next.2 passage.next.2 := by
  by_cases ended : passage.passed = passage.range.yield
  · rw [show cursor.next = (none, cursor) from stands.skip_ended ended 0,
      show passage.next = (none, passage) from Passage.skip_ended ended 0]
    exact ⟨rfl, stands⟩
  · have given := stands.toNat_given_add ended
    rw [Cursor.next, if_neg (mt stands.isExhausted_iff.mp ended),
      Passage.next_going (stands.lt_yield ended)]
    refine ⟨congrArg some stands.value, settled stands.range stands.total given
      (stands.lt_yield ended) ?_ (if_neg (Nat.succ_ne_zero _)).symm⟩
    show Cursor.valueAt cursor.range (cursor.given + 1) = passage.range.valueOf (passage.passed + 1)
    rw [Cursor.valueAt, Range.valueOf, stands.range, ← given, UInt32.ofNat_toNat]

theorem skip_succ (stands : Stands cursor passage) (count : Nat) :
    cursor.skip (count + 1) = cursor.next.2.skip count := by
  by_cases ended : passage.passed = passage.range.yield
  · rw [stands.skip_ended ended, show cursor.next = (none, cursor) from stands.skip_ended ended 0,
      stands.skip_ended ended]
  · exact if_neg (mt stands.isExhausted_iff.mp ended)

/-- Passing over values is asking for each of them. -/
theorem skip (stands : Stands cursor passage) (count : Nat) :
    (cursor.skip count).1 = (passage.skip count).1 ∧
      Stands (cursor.skip count).2 (passage.skip count).2 := by
  induction count generalizing cursor passage with
  | zero => exact stands.next
  | succ count inductionHypothesis =>
    rw [stands.skip_succ, Passage.skip_succ stands.within]
    exact inductionHypothesis stands.next.2

/-- The next values are those of the sequence from the passage on. -/
theorem take_eq (stands : Stands cursor passage) (limit : Nat) :
    (cursor.take limit).1 =
      (List.range' passage.passed (min limit passage.left)).map passage.range.valueOf := by
  induction limit generalizing cursor passage with
  | zero => rw [Nat.zero_min]; rfl
  | succ limit inductionHypothesis =>
    by_cases ended : passage.passed = passage.range.yield
    · rw [Cursor.take, show cursor.next = (none, cursor) from stands.skip_ended ended 0,
        Passage.left, ended, Nat.sub_self, Nat.min_zero]
      rfl
    · have going := stands.lt_yield ended
      have moved := stands.next
      rw [Passage.next_going going] at moved
      have left : min (limit + 1) passage.left =
          min limit (Passage.left ⟨passage.range, passage.passed + 1⟩) + 1 := by
        simp only [Passage.left]
        omega
      rw [left, List.range'_succ, List.map_cons, ← inductionHypothesis moved.2, Cursor.take]
      generalize cursor.next = found at moved
      obtain ⟨value, after⟩ := found
      obtain ⟨rfl, -⟩ := moved
      rfl

end Stands

/-- The values of a range are those of its sequence. -/
theorem Range.values_eq (range : Range) :
    range.values = (List.range range.yield).map range.valueOf := by
  have stands := Stands.ofRange range
  rw [Range.values, stands.remaining_eq, stands.take_eq, Nat.min_self, List.range_eq_range']
  rfl

/-- A range with step zero may count a value, but gives none. -/
example : (Range.mk 1 0 1).count = 1 ∧ (Range.mk 1 0 1).values.length = 0 := by decide +kernel

/-! ### Runs -/

/-- Both runs fail, or they give the same and leave cursors that stand where the passages do. -/
def InStep {Answer : Type} :
    Option (Answer × List Cursor) → Option (Answer × List Passage) → Prop :=
  Option.Rel fun found meant => found.1 = meant.1 ∧ List.Forall₂ Stands found.2 meant.2

section Runs

variable {cursors : List Cursor} {passages : List Passage}

/-- A cursor that is moved stays in step with its passage, and the others do not move. -/
theorem move_inStep {move : Cursor → Option Float × Cursor}
    {goOn : Passage → Option Float × Passage}
    (alike : ∀ {cursor passage}, Stands cursor passage →
      (move cursor).1 = (goOn passage).1 ∧ Stands (move cursor).2 (goOn passage).2)
    (stand : List.Forall₂ Stands cursors passages) (position : Nat) :
    InStep
      (cursors[position]?.bind fun cursor =>
        some ((move cursor).1, cursors.set position (move cursor).2))
      (passages[position]?.bind fun passage =>
        some ((goOn passage).1, passages.set position (goOn passage).2)) := by
  rcases forall₂_getElem? stand position with
    ⟨noCursor, noPassage⟩ | ⟨cursor, passage, found, meant, stands⟩
  · rw [noCursor, noPassage]
    exact .none
  · rw [found, meant]
    obtain ⟨answer, moved⟩ := alike stands
    exact .some ⟨answer, forall₂_set stand position (fun _ _ _ stays => stays) moved⟩

theorem perform_inStep (stand : List.Forall₂ Stands cursors passages) (step : CursorStep) :
    InStep (step.perform cursors) (Passage.perform passages step) := by
  cases step with
  | start range => exact .some ⟨rfl, List.rel_append stand (.cons (.ofRange range) .nil)⟩
  | copy position =>
    simp only [CursorStep.perform, Passage.perform]
    rcases forall₂_getElem? stand position with
      ⟨noCursor, noPassage⟩ | ⟨cursor, passage, found, meant, stands⟩
    · rw [noCursor, noPassage]
      exact .none
    · rw [found, meant]
      exact .some ⟨rfl, List.rel_append stand (.cons stands .nil)⟩
  | next position => exact move_inStep Stands.next stand position
  | skip position count => exact move_inStep (fun stands => stands.skip count) stand position

theorem run_inStep (stand : List.Forall₂ Stands cursors passages) (steps : List CursorStep) :
    InStep (CursorStep.run CursorStep.perform cursors steps)
      (CursorStep.run Passage.perform passages steps) := by
  induction steps generalizing cursors passages with
  | nil => exact .some ⟨rfl, stand⟩
  | cons step steps inductionHypothesis =>
    have first := perform_inStep stand step
    rw [CursorStep.run, CursorStep.run]
    generalize step.perform cursors = found at first
    generalize Passage.perform passages step = meant at first
    cases first with
    | none => exact .none
    | @some one other after =>
      obtain ⟨answer, cursors⟩ := one
      obtain ⟨_, passages⟩ := other
      obtain ⟨rfl, stand⟩ := after
      have later := inductionHypothesis stand
      show InStep
        ((CursorStep.run CursorStep.perform cursors steps).bind fun rest =>
          some (answer :: rest.1, rest.2))
        ((CursorStep.run Passage.perform passages steps).bind fun rest =>
          some (answer :: rest.1, rest.2))
      generalize CursorStep.run CursorStep.perform cursors steps = found at later
      generalize CursorStep.run Passage.perform passages steps = meant at later
      cases later with
      | none => exact .none
      | some after => exact .some ⟨congrArg (answer :: ·) after.1, after.2⟩

end Runs

/-! ### What can be seen of a cursor -/

/-- Every view of the cursor tells the same number of values passed, and no count of 32 bits goes
beyond its bounds. -/
structure Observed (cursor : Cursor) (passage : Passage) : Prop where
  range : cursor.range = passage.range
  within : passage.passed ≤ passage.range.yield
  progress : cursor.progress = passage.progress
  remaining : cursor.remaining = passage.left
  sizeHint : cursor.sizeHint = (passage.left, some passage.left)
  length : cursor.length? = some passage.left
  next : cursor.next.1 = passage.range.value? passage.passed
  nothing_iff : cursor.next.1 = none ↔ cursor.progress = .exhausted
  stays : cursor.progress = .exhausted →
    cursor.next = (none, cursor) ∧ ∀ count, cursor.skip count = (none, cursor)
  /-- Passing over values asks for each of them. -/
  skip : ∀ count, cursor.skip (count + 1) = cursor.next.2.skip count
  total : cursor.total.toNat = passage.range.count
  given : cursor.given.toNat = passage.passed
  given_le : cursor.given ≤ cursor.total
  given_add : cursor.progress ≠ .exhausted → (cursor.given + 1).toNat = cursor.given.toNat + 1

theorem Stands.observed {cursor : Cursor} {passage : Passage} (stands : Stands cursor passage) :
    Observed cursor passage := by
  have exhausted : cursor.progress = .exhausted ↔ passage.passed = passage.range.yield :=
    decide_eq_true_iff.symm.trans stands.isExhausted_iff
  have next : cursor.next.1 = passage.range.value? passage.passed := stands.next.1
  exact {
    range := stands.range
    within := stands.within
    progress := stands.progress
    remaining := stands.remaining_eq
    sizeHint := by rw [Cursor.sizeHint, stands.remaining_eq]
    length := stands.length?_eq
    next := next
    nothing_iff := by
      rw [next, exhausted, Range.value?]
      split
      next inside => exact iff_of_false (Option.some_ne_none _) (Nat.ne_of_lt inside)
      next outside => exact iff_of_true rfl (by have := stands.within; omega)
    stays := fun ended =>
      ⟨stands.skip_ended (exhausted.mp ended) 0, stands.skip_ended (exhausted.mp ended)⟩
    skip := stands.skip_succ
    total := stands.total
    given := stands.given
    given_le := stands.given_le
    given_add := fun going => by
      rw [stands.toNat_given_add (mt exhausted.mpr going), stands.given] }

/-- Any steps on any cursors give what the sequences of their ranges hold at the positions passed;
the values of a range are its sequence; and each position that is multiplied is the exact double. -/
theorem cursors_followSequences :
    (∀ steps : List CursorStep,
      Option.Rel (fun found meant => found.1 = meant.1 ∧ List.Forall₂ Observed found.2 meant.2)
        (CursorStep.run CursorStep.perform [] steps) (CursorStep.run Passage.perform [] steps)) ∧
    (∀ range : Range, range.values = (List.range range.yield).map range.valueOf) ∧
    ∀ position : Fin (2 ^ 32), Counts (UInt32.ofNat position).toFloat position := by
  refine ⟨fun steps => ?_, Range.values_eq, fun position => ?_⟩
  · have inStep : InStep (CursorStep.run CursorStep.perform [] steps)
        (CursorStep.run Passage.perform [] steps) := run_inStep .nil steps
    generalize CursorStep.run CursorStep.perform [] steps = found at inStep
    generalize CursorStep.run Passage.perform [] steps = meant at inStep
    cases inStep with
    | none => exact .none
    | some after => exact .some ⟨after.1, after.2.imp fun _ _ stands => stands.observed⟩
  · have exact' := counts_toFloat (UInt32.ofNat position)
    rwa [UInt32.toNat_ofNat_of_lt' position.isLt] at exact'

end SolidScript
