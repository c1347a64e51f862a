/-
This file compares the counts of two ranges. Changing all signs of a range changes nothing about
its count, and a bound that is moved on in the direction of the step takes no value away. Both hold
for all doubles: infinite ones, zeros of both signs and what is no number take the branches of the
count together, and on the other ranges the count is monotone in the way.
-/

import SolidScript.Proofs.Strides

namespace SolidScript

namespace Range

variable {range : Range}

/-- What none of the other branches takes is ordinary. -/
theorem ordinary_of_bounded (numbers : range.hasNaN = false) (towards : range.pointsAway = false)
    (more : range.isSingle = false) (bounded : range.isUnbounded = false) : range.Ordinary := by
  simp only [hasNaN, isSingle, isUnbounded, Bool.or_eq_false_iff] at numbers more bounded
  have first := isFinite_iff.mpr ⟨numbers.1.1, bounded.1.1⟩
  have step := isFinite_iff.mpr ⟨numbers.1.2, more.2⟩
  have last := isFinite_iff.mpr ⟨numbers.2, bounded.1.2⟩
  exact ordinary_of_finite first step last bounded.2 towards

/-! ### Mirrored ranges -/

/-- The range with all signs changed. -/
def mirror (range : Range) : Range := ⟨-range.first, -range.step, -range.last⟩

theorem hasNaN_mirror (range : Range) : range.mirror.hasNaN = range.hasNaN := by
  simp only [hasNaN, mirror, isNaN_neg]

theorem isSingle_mirror (range : Range) : range.mirror.isSingle = range.isSingle := by
  simp only [isSingle, mirror, neg_beq_neg, isInf_neg]

theorem isUnbounded_mirror (range : Range) : range.mirror.isUnbounded = range.isUnbounded := by
  simp only [isUnbounded, mirror, isInf_neg, neg_beq_zero]

/-- Where the step is a number other than zero, its direction turns with the bound. -/
theorem pointsAway_mirror (number : range.step.isNaN = false)
    (nonzero : (range.step == 0) = false) : range.mirror.pointsAway = range.pointsAway := by
  have turned : -range.step < 0 ↔ ¬ range.step < 0 := by
    have zero : (0 : Float).isNaN = false := rfl
    have apart := mt (beq_iff_rank number zero).mpr (Bool.eq_false_iff.mp nonzero)
    rw [neg_lt_zero_float, lt_iff_rank zero number, lt_iff_rank number zero, not_lt]
    exact lt_iff_le_and_ne.trans (and_iff_left (Ne.symm apart))
  simp only [pointsAway, mirror, turned, neg_lt_neg_iff_float]
  by_cases falling : range.step < 0
  · rw [if_pos falling, if_neg (not_not.mpr falling)]
  · rw [if_neg falling, if_pos falling]

theorem way_mirror (first : range.first.isFinite = true) (last : range.last.isFinite = true) :
    range.mirror.way = -range.way := by
  rw [way, way, mirror, amount_neg first, amount_neg last]
  ring

theorem Ordinary.mirror (ordinary : range.Ordinary) : range.mirror.Ordinary where
  first := (isFinite_neg _).trans ordinary.first
  step := (isFinite_neg _).trans ordinary.step
  last := (isFinite_neg _).trans ordinary.last
  nonzero := (neg_beq_zero _).trans ordinary.nonzero
  towards := by
    have step : amount range.mirror.step = -amount range.step := amount_neg ordinary.step
    rw [quotient, way_mirror ordinary.first ordinary.last, step, neg_div_neg_eq]
    exact ordinary.towards

/-- A range and its mirror image take the same branch and count as many values. -/
theorem count_mirror (nonzero : (range.step == 0) = false) :
    range.mirror.count = range.count := by
  have none := range.hasNaN_mirror
  have single := range.isSingle_mirror
  have unbounded := range.isUnbounded_mirror
  cases numbers : range.hasNaN with
  | true => rw [count_of_hasNaN numbers, count_of_hasNaN (none.trans numbers)]
  | false =>
    have number : range.step.isNaN = false := by
      simp only [hasNaN, Bool.or_eq_false_iff] at numbers
      exact numbers.1.2
    have away := pointsAway_mirror number nonzero
    rw [numbers] at none
    cases towards : range.pointsAway with
    | true => rw [count_of_pointsAway towards, count_of_pointsAway (away.trans towards)]
    | false =>
      rw [towards] at away
      cases more : range.isSingle with
      | true =>
        rw [count_of_isSingle numbers towards more,
          count_of_isSingle none away (single.trans more)]
      | false =>
        rw [more] at single
        cases bounded : range.isUnbounded with
        | true =>
          rw [count_of_isUnbounded numbers towards more bounded,
            count_of_isUnbounded none away single (unbounded.trans bounded)]
        | false =>
          have ordinary := ordinary_of_bounded numbers towards more bounded
          have step : amount range.mirror.step = -amount range.step := amount_neg ordinary.step
          rw [ordinary.mirror.count_eq, ordinary.count_eq,
            way_mirror ordinary.first ordinary.last, step, abs_neg, abs_neg]

/-! ### A bound that moves away -/

theorem countOfWay_mono {way way' step : ℚ} (nonneg : 0 ≤ way) (le : way ≤ way')
    (positive : 0 ≤ step) : countOfWay way step ≤ countOfWay way' step := by
  have further := nonneg.trans le
  have kept := magnitude_nonneg way
  unfold countOfWay
  split
  next great =>
    rw [rounded_overflows_iff nonneg] at great
    rw [if_pos ((rounded_overflows_iff further).mpr (great.trans le))]
  next small =>
    split
    · exact Nat.min_le_right ..
    · refine countOfSteps_mono (Nat.floor_mono (raised_mono (by positivity) ?_))
      have := magnitude_mono nonneg le
      gcongr

theorem pointsAway_of_rising (range : Range) (rising : ¬ range.step < 0)
    (numbers : range.hasNaN = false) :
    range.pointsAway = false ↔ range.first ≤ range.last := by
  simp only [hasNaN, Bool.or_eq_false_iff] at numbers
  rw [pointsAway, if_neg rising, decide_eq_false_iff_not, lt_iff_rank numbers.2 numbers.1.1,
    le_iff_rank numbers.1.1 numbers.2, not_lt]

/-- A bound that is moved in the direction of a rising step takes no value away. -/
theorem count_le_of_rising {first step last last' : Float} (rising : ¬ step < 0)
    (le : last ≤ last') : (Range.mk first step last).count ≤ (Range.mk first step last').count := by
  cases numbers : (Range.mk first step last).hasNaN with
  | true =>
    rw [count_of_hasNaN numbers]
    exact Nat.zero_le _
  | false =>
    cases towards : (Range.mk first step last).pointsAway with
    | true =>
      rw [count_of_pointsAway towards]
      exact Nat.zero_le _
    | false =>
      have low := (pointsAway_of_rising ⟨first, step, last⟩ rising numbers).mp towards
      have high := le_trans_float low le
      have numbers' : (Range.mk first step last').hasNaN = false := by
        simp only [hasNaN, Bool.or_eq_false_iff] at numbers ⊢
        exact ⟨numbers.1, (isNaN_of_le le).2⟩
      have towards' := (pointsAway_of_rising ⟨first, step, last'⟩ rising numbers').mpr high
      cases more : (Range.mk first step last).isSingle with
      | true =>
        rw [count_of_isSingle numbers towards more]
        exact count_pos numbers' towards'
      | false =>
        have more' : (Range.mk first step last').isSingle = false := by
          simp only [isSingle, Bool.or_eq_false_iff] at more ⊢
          have apart := mt (beq_between low le) (Bool.eq_false_iff.mp more.1)
          exact ⟨Bool.eq_false_iff.mpr apart, more.2⟩
        cases bounded' : (Range.mk first step last').isUnbounded with
        | true =>
          rw [count_of_isUnbounded numbers' towards' more' bounded']
          exact count_le_limit _
        | false =>
          have further := ordinary_of_bounded numbers' towards' more' bounded'
          have finite := isFinite_between low le further.first further.last
          have ordinary := @ordinary_of_finite ⟨first, step, last⟩ further.first further.step finite
            further.nonzero towards
          have start := (le_iff_amount further.first finite).mp low
          have goes := (le_iff_amount finite further.last).mp le
          rw [ordinary.count_eq, further.count_eq]
          refine countOfWay_mono (abs_nonneg _) ?_ (abs_nonneg _)
          rw [way, way, abs_of_nonneg (by linarith), abs_of_nonneg (by linarith)]
          linarith

/-- With a falling step it is the other way around, as in a mirror. -/
theorem count_le_of_falling {first step last last' : Float} (falling : step < 0)
    (le : last' ≤ last) : (Range.mk first step last).count ≤ (Range.mk first step last').count := by
  have nonzero := beq_of_lt_float falling
  have rising : ¬ -step < 0 := mt neg_lt_zero_float.mp (not_lt_of_lt_float falling)
  calc (Range.mk first step last).count = (Range.mk first step last).mirror.count :=
        (@count_mirror ⟨first, step, last⟩ nonzero).symm
    _ ≤ (Range.mk first step last').mirror.count :=
        @count_le_of_rising (-first) (-step) (-last) (-last') rising (neg_le_neg_iff_float.mpr le)
    _ = (Range.mk first step last').count := @count_mirror ⟨first, step, last'⟩ nonzero

end Range

/-- Counts follow a bound in the direction of the step, and do not depend on the direction. -/
theorem count_ordered (first step : Float) :
    (0 ≤ step → ∀ last last' : Float, last ≤ last' →
      (Range.mk first step last).count ≤ (Range.mk first step last').count) ∧
    (step < 0 → ∀ last last' : Float, last' ≤ last →
      (Range.mk first step last).count ≤ (Range.mk first step last').count) ∧
    ((step == 0) = false → ∀ last : Float,
      (Range.mk (-first) (-step) (-last)).count = (Range.mk first step last).count) := by
  refine ⟨fun rising last last' le => ?_, fun falling last last' le => ?_, fun nonzero last => ?_⟩
  · exact Range.count_le_of_rising (not_lt_of_le_float rising) le
  · exact Range.count_le_of_falling falling le
  · exact @Range.count_mirror ⟨first, step, last⟩ nonzero

/-- An infinite bound is the furthest one, and its range has the greatest count. -/
theorem count_ordered_infinite :
    (Range.mk 0 0.1 0.3).count ≤ (Range.mk 0 0.1 (1 / 0)).count ∧
      (Range.mk 0 (-0.1) (-0.3)).count ≤ (Range.mk 0 (-0.1) (-1 / 0)).count ∧
      (Range.mk (-0) (-0.1) (-0.3)).count = (Range.mk 0 0.1 0.3).count :=
  ⟨(count_ordered 0 0.1).1 (by decide +kernel) 0.3 (1 / 0) (by decide +kernel),
    (count_ordered 0 (-0.1)).2.1 (by decide +kernel) (-0.3) (-1 / 0) (by decide +kernel),
    (count_ordered 0 0.1).2.2 (by decide +kernel) 0.3⟩

end SolidScript
