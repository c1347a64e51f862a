/-
This file tells the double nearest to a number by what nearest means: no finite double is nearer,
and where another one is as near the mantissa is even. Rounding finds such a double, so every one of
them is at most half a unit in the last place away.
-/

import SolidScript.Proofs.Number.Leading

namespace SolidScript

/-! ### The nearest natural number -/

/-- Where two natural numbers are as near as each other, the even one is taken. -/
theorem even_roundEven {x : ℚ} (nonneg : 0 ≤ x) (half : |x - roundEven x| = 1 / 2) :
    Even (roundEven x) := by
  have low := Nat.floor_le nonneg
  have high := Nat.lt_floor_add_one x
  rcases lt_trichotomy (x - ⌊x⌋₊) (1 / 2) with below | same | above
  · rw [roundEven_of_lt below, abs_of_nonneg (by linarith)] at half
    linarith
  · rw [roundEven_of_eq same, Nat.even_iff]
    omega
  · rw [roundEven_of_gt above] at half
    push_cast at half
    rw [abs_of_neg (by linarith)] at half
    linarith

/-- No natural number is nearer than the rounded one, and only an even one has another as near. -/
theorem roundEven_nearest {x : ℚ} (nonneg : 0 ≤ x) (other : ℕ) :
    |roundEven x - x| ≤ |other - x| ∧
      (|other - x| = |roundEven x - x| → other = roundEven x ∨ Even (roundEven x)) := by
  rcases eq_or_ne other (roundEven x) with rfl | apart
  · exact ⟨le_refl _, fun _ => .inl rfl⟩
  have far : (1 : ℚ) ≤ |(other : ℚ) - roundEven x| := by
    have whole : (1 : ℤ) ≤ |(other : ℤ) - roundEven x| := Int.one_le_abs (by omega)
    exact_mod_cast whole
  have split := abs_sub_le (other : ℚ) x (roundEven x)
  have near := abs_sub_roundEven_le nonneg
  rw [abs_sub_comm x] at near split
  refine ⟨by linarith, fun same => .inr (even_roundEven nonneg ?_)⟩
  rw [abs_sub_comm]
  linarith

/-! ### The nearest double -/

theorem even_rounded {x : ℚ} (even : Even (roundEven (scaled x))) : Even (rounded x).1 := by
  unfold rounded
  split
  · exact Nat.even_pow.mpr ⟨even_two, by decide⟩
  · exact even

/-- No mantissa and exponent are nearer to a number than the rounded ones, and only an even mantissa
has others as near. -/
theorem magnitude_nearest {x : ℚ} (nonneg : 0 ≤ x) {mantissa : ℕ} {exponent : ℤ}
    (canonical : Canonical mantissa exponent) :
    |magnitude x - x| ≤ |mantissa * 2 ^ exponent - x| ∧
      (|mantissa * 2 ^ exponent - x| = |magnitude x - x| →
        mantissa * 2 ^ exponent = magnitude x ∨ Even (rounded x).1) := by
  have unit : (0 : ℚ) < 2 ^ lastExponent x := by positivity
  have units : ∀ count : ℚ,
      |count * 2 ^ lastExponent x - x| = |count - scaled x| * 2 ^ lastExponent x := by
    intro count
    nth_rewrite 2 [← scaled_mul x]
    rw [← sub_mul, abs_mul, abs_of_pos unit]
  rw [magnitude_eq, units]
  rcases le_or_gt (lastExponent x) exponent with multiple | finer
  · obtain ⟨shift, distance⟩ := Int.eq_ofNat_of_zero_le (Int.sub_nonneg_of_le multiple)
    have count : (mantissa * 2 ^ exponent : ℚ) =
        (mantissa * 2 ^ shift : ℕ) * 2 ^ lastExponent x := by
      rw [show exponent = shift + lastExponent x by omega, zpow_add₀ (by norm_num), zpow_natCast]
      push_cast
      ring
    obtain ⟨near, tie⟩ := roundEven_nearest (scaled_nonneg nonneg) (mantissa * 2 ^ shift)
    rw [count, units, mul_le_mul_iff_of_pos_right unit, mul_left_inj' unit.ne',
      mul_left_inj' unit.ne', Nat.cast_inj]
    exact ⟨near, fun same => (tie same).imp_right even_rounded⟩
  · -- The number has all bits, and between it and a finer one lies the least that has them all.
    have full : 2 ^ 52 ≤ scaled x := le_scaled nonneg (by have := canonical.least; omega)
    have below : (mantissa * 2 ^ exponent : ℚ) < 2 ^ 52 * 2 ^ lastExponent x := by
      have small : (mantissa : ℚ) < 2 ^ 53 := by exact_mod_cast canonical.small
      calc (mantissa * 2 ^ exponent : ℚ) < 2 ^ 53 * 2 ^ exponent := by gcongr
        _ = 2 ^ 52 * 2 ^ (exponent + 1) := by rw [zpow_add_one₀ (by norm_num)]; ring
        _ ≤ 2 ^ 52 * 2 ^ lastExponent x := by
          gcongr
          · norm_num
          · omega
    have nearest := (roundEven_nearest (scaled_nonneg nonneg) (2 ^ 52)).1
    rw [abs_sub_comm ((2 ^ 52 : ℕ) : ℚ), Nat.cast_pow, Nat.cast_ofNat,
      abs_of_nonneg (sub_nonneg.mpr full)] at nearest
    have further : |(roundEven (scaled x) : ℚ) - scaled x| * 2 ^ lastExponent x <
        |mantissa * 2 ^ exponent - x| := by
      calc |(roundEven (scaled x) : ℚ) - scaled x| * 2 ^ lastExponent x ≤
            (scaled x - 2 ^ 52) * 2 ^ lastExponent x := by gcongr
        _ = x - 2 ^ 52 * 2 ^ lastExponent x := by rw [sub_mul, scaled_mul]
        _ < x - mantissa * 2 ^ exponent := by linarith
        _ ≤ |x - mantissa * 2 ^ exponent| := le_abs_self _
        _ = |mantissa * 2 ^ exponent - x| := abs_sub_comm ..
    exact ⟨further.le, fun same => absurd same further.ne'⟩

/-- Whether the mantissa of a finite double is even. -/
def Binary64.IsEven : Binary64 → Prop
  | .finite _ mantissa _ => Even mantissa
  | _ => False

/-- The finite double that is nearest to a number: none is nearer, and where another one is as near,
its own mantissa is even. -/
structure IsNearest (x : Float) (number : ℚ) : Prop where
  finite : x.isFinite = true
  least : ∀ y : Float, y.isFinite = true → |amount x - number| ≤ |amount y - number|
  even : ∀ y : Float, y.isFinite = true → |amount y - number| = |amount x - number| →
    amount y ≠ amount x → (Binary64.ofFloat x).IsEven

theorem exists_canonical_amount {x : Float} (finite : x.isFinite = true) :
    ∃ mantissa exponent, Canonical mantissa exponent ∧ |amount x| = mantissa * 2 ^ exponent := by
  rcases zero_or_isDouble finite with ⟨_, -, none⟩ | ⟨negative, m, e, -, double, number⟩
  · exact ⟨0, -1074, canonical_zero, by rw [none, abs_zero, Nat.cast_zero, zero_mul]⟩
  · refine ⟨m, e, double.canonical, ?_⟩
    rw [number]
    cases negative
    · rw [if_neg (by decide), one_mul, abs_of_pos double.amount_pos]
    · rw [if_pos rfl, neg_one_mul, abs_neg, abs_of_pos double.amount_pos]

/-- Numbers below the limit are rounded to finite doubles. -/
theorem exists_ofFloat_eq {number : ℚ} (bounded : |number| < overflowLimit) :
    ∃ x : Float, Binary64.ofFloat x =
      .finite (number < 0) (rounded |number|).1 (rounded |number|).2 := by
  have nonneg := abs_nonneg number
  have greatest : (rounded |number|).2 ≤ 971 :=
    not_lt.mp ((rounded_overflows_iff nonneg).not.mpr (not_le.mpr bounded))
  refine ⟨.ofModel (.pack (assemble (if number < 0 then .negative else .positive)
    (rounded |number|).1 (rounded |number|).2)), ?_⟩
  rw [Binary64.ofFloat_eq]
  refine (ofUnpacked_pack_assemble _ (rounded_canonical nonneg)).trans ?_
  rw [Binary64.bounded, if_pos greatest]
  congr 1
  split
  next negative => exact (decide_eq_true negative).symm
  next positive => exact (decide_eq_false positive).symm

/-- There is a nearest double, and rounding finds it. -/
theorem exists_isNearest {number : ℚ} (nonzero : number ≠ 0) (bounded : |number| < overflowLimit) :
    ∃ x, IsNearest x number ∧ |amount x - number| ≤ 2 ^ lastExponent |number| / 2 := by
  obtain ⟨x, parts⟩ := exists_ofFloat_eq bounded
  have nonneg := abs_nonneg number
  have value : amount x = signedMagnitude number := by
    rw [amount, parts, Binary64.value, signedMagnitude, magnitude]
    simp only [decide_eq_true_eq]
  have size : |amount x| = magnitude |number| := by rw [value, abs_signedMagnitude]
  have distance : |amount x - number| = abs (magnitude |number| - |number|) := by
    rw [value, abs_sub_comm, abs_sub_signedMagnitude, abs_sub_comm]
  have further : ∀ y : Float, abs (|amount y| - |number|) ≤ |amount y - number| :=
    fun y => abs_abs_sub_abs_le _ _
  refine ⟨x, ⟨isFinite_of_ofFloat parts, fun y other => ?_, fun y other same apart => ?_⟩, ?_⟩
  · obtain ⟨m, e, canonical, other⟩ := exists_canonical_amount other
    rw [distance]
    exact ((magnitude_nearest nonneg canonical).1.trans_eq (other ▸ rfl)).trans (further y)
  · obtain ⟨m, e, canonical, other⟩ := exists_canonical_amount other
    obtain ⟨near, tie⟩ := magnitude_nearest nonneg canonical
    have least := further y
    rw [same, distance] at least
    rw [← other] at near tie
    rcases tie (le_antisymm least near) with alike | even
    · have opposite := (abs_eq_abs.mp (alike.trans size.symm)).resolve_left apart
      rw [opposite] at same apart
      rcases abs_eq_abs.mp same with none | none
      · exact absurd (by linarith) apart
      · exact absurd (by linarith) nonzero
    · rw [parts]
      exact even
  · rw [distance, abs_sub_comm]
    exact abs_sub_magnitude_le nonneg

/-- A nearest double is at most half a unit in the last place away. -/
theorem IsNearest.abs_sub_le {x : Float} {number : ℚ} (nearest : IsNearest x number)
    (nonzero : number ≠ 0) (bounded : |number| < overflowLimit) :
    |amount x - number| ≤ 2 ^ lastExponent |number| / 2 := by
  obtain ⟨y, other, close⟩ := exists_isNearest nonzero bounded
  exact (nearest.least y other.finite).trans close

end SolidScript
