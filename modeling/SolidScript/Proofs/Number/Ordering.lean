/-
This file proves that doubles are ordered as the numbers they denote, with the infinities around
them, and that a change of all signs turns the order around.
-/

import SolidScript.Proofs.Number.Arithmetic
import SolidScript.Proofs.Ranks

namespace SolidScript

open Float.Model

/-! ### The order of numbers -/

/-- Comparing exponents first and mantissas then compares the numbers. -/
theorem Canonical.compare_eq {m n : ℕ} {d e : ℤ} (left : Canonical m d) (right : Canonical n e) :
    (compare d e).then (compare m n) = compare (m * (2 : ℚ) ^ d) (n * 2 ^ e) := by
  rcases lt_trichotomy (m * (2 : ℚ) ^ d) (n * 2 ^ e) with less | same | greater
  · rw [compare_lt_iff_lt.mpr less]
    rcases (left.lt_iff right).mp less with exponents | ⟨rfl, mantissas⟩
    · rw [Int.compare_eq_lt.mpr exponents]
      rfl
    · rw [Int.compare_eq_eq.mpr rfl, Nat.compare_eq_lt.mpr mantissas]
      rfl
  · obtain ⟨rfl, rfl⟩ := left.unique right same
    rw [compare_eq_iff_eq.mpr same, Int.compare_eq_eq.mpr rfl, Nat.compare_eq_eq.mpr rfl]
    rfl
  · rw [compare_gt_iff_gt.mpr greater]
    rcases (right.lt_iff left).mp greater with exponents | ⟨rfl, mantissas⟩
    · rw [Int.compare_eq_gt.mpr exponents]
      rfl
    · rw [Int.compare_eq_eq.mpr rfl, Nat.compare_eq_gt.mpr mantissas]
      rfl

theorem compare_neg_rat (a b : ℚ) : compare (-a) (-b) = (compare a b).swap := by
  rcases lt_trichotomy a b with less | rfl | greater
  · rw [compare_lt_iff_lt.mpr less, compare_gt_iff_gt.mpr (neg_lt_neg less)]
    rfl
  · rw [compare_eq_iff_eq.mpr rfl, compare_eq_iff_eq.mpr rfl]
    rfl
  · rw [compare_gt_iff_gt.mpr greater, compare_lt_iff_lt.mpr (neg_lt_neg greater)]
    rfl

/-- Finite doubles compare as the numbers they denote. -/
theorem Consists.compare_eq {u v : UnpackedFloat} {a b : ℚ} (left : Consists u a)
    (right : Consists v b) : u.compare v = some (compare a b) := by
  cases left with
  | zero =>
    cases right with
    | zero => rw [compare_eq_iff_eq.mpr rfl]; rfl
    | @finite sign n e positive double =>
      have some' : (0 : ℚ) < n * 2 ^ e := by positivity
      cases sign
      · rw [signed_negative, compare_gt_iff_gt.mpr (neg_lt_zero.mpr some')]
        rfl
      · rw [signed_positive, compare_lt_iff_lt.mpr some']
        rfl
  | @finite sign m d positive double =>
    have some' : (0 : ℚ) < m * 2 ^ d := by positivity
    cases right with
    | zero =>
      cases sign
      · rw [signed_negative, compare_lt_iff_lt.mpr (neg_lt_zero.mpr some')]
        rfl
      · rw [signed_positive, compare_gt_iff_gt.mpr some']
        rfl
    | @finite other n e positive' double' =>
      have more : (0 : ℚ) < n * 2 ^ e := by positivity
      have magnitudes := double.canonical.compare_eq double'.canonical
      cases sign <;> cases other
      · rw [signed_negative, signed_negative, compare_neg_rat, ← magnitudes]
        rfl
      · rw [signed_negative, signed_positive,
          compare_lt_iff_lt.mpr ((neg_lt_zero.mpr some').trans more)]
        rfl
      · rw [signed_positive, signed_negative,
          compare_gt_iff_gt.mpr ((neg_lt_zero.mpr more).trans some')]
        rfl
      · rw [signed_positive, signed_positive, ← magnitudes]
        rfl

theorem lt_iff_amount {x y : Float} (first : x.isFinite = true) (second : y.isFinite = true) :
    x < y ↔ amount x < amount y := by
  rw [lt_iff_compare, (consists_of_finite first).compare_eq (consists_of_finite second),
    Option.some.injEq, compare_lt_iff_lt]

theorem beq_iff_amount {x y : Float} (first : x.isFinite = true) (second : y.isFinite = true) :
    (x == y) = true ↔ amount x = amount y := by
  rw [beq_iff_compare, (consists_of_finite first).compare_eq (consists_of_finite second),
    Option.some.injEq, compare_eq_iff_eq]

theorem le_iff_compare {x y : Float} :
    x ≤ y ↔ (x.toModel.unpack.compare y.toModel.unpack).any (·.isLE) = true := by
  show decide ((x.toModel.unpack.compare y.toModel.unpack).any (·.isLE) = true) = true ↔ _
  rw [decide_eq_true_iff]

theorem le_iff_amount {x y : Float} (first : x.isFinite = true) (second : y.isFinite = true) :
    x ≤ y ↔ amount x ≤ amount y := by
  rw [le_iff_compare, (consists_of_finite first).compare_eq (consists_of_finite second),
    Option.any_some, Ordering.isLE_iff_ne_gt, ← ne_eq, compare_le_iff_le]

/-! ### Infinite doubles among the others -/

theorem isFinite_iff {x : Float} : x.isFinite = true ↔ x.isNaN = false ∧ x.isInf = false := by
  show x.toModel.unpack.isFinite = true ↔
    x.toModel.unpack.isNaN = false ∧ x.toModel.unpack.isInf = false
  cases x.toModel.unpack with
  | notANumber => decide
  | infinity sign => cases sign <;> decide
  | zero | finite => exact iff_of_true rfl ⟨rfl, rfl⟩

theorem lt_iff_rank {x y : Float} (first : x.isNaN = false) (second : y.isNaN = false) :
    x < y ↔ rank x < rank y := by
  rw [lt_iff_compare, compare_eq_compareRanks, rank?_of_number first, rank?_of_number second,
    compareRanks_some, Option.some.injEq, compare_lt_iff_lt]

theorem le_iff_rank {x y : Float} (first : x.isNaN = false) (second : y.isNaN = false) :
    x ≤ y ↔ rank x ≤ rank y := by
  rw [le_iff_compare, compare_eq_compareRanks, rank?_of_number first, rank?_of_number second,
    compareRanks_some, Option.any_some, Ordering.isLE_iff_ne_gt, ← ne_eq, compare_le_iff_le]

theorem beq_iff_rank {x y : Float} (first : x.isNaN = false) (second : y.isNaN = false) :
    (x == y) = true ↔ rank x = rank y := by
  rw [beq_iff_compare, compare_eq_compareRanks, rank?_of_number first, rank?_of_number second,
    compareRanks_some, Option.some.injEq, compare_eq_iff_eq]

/-- Only numbers are in order. -/
theorem isNaN_of_le {x y : Float} (le : x ≤ y) : x.isNaN = false ∧ y.isNaN = false := by
  by_contra other
  rw [not_and_or, Bool.not_eq_false, Bool.not_eq_false] at other
  rw [le_iff_compare, compare_eq_none other] at le
  contradiction

/-! ### Signs -/

theorem unpack_neg (x : Float) : (-x).toModel.unpack = x.toModel.unpack.neg := by
  show (Float.Model.pack x.toModel.unpack.neg).unpack = _
  cases unpacked : x.toModel.unpack with
  | notANumber => rfl
  | infinity sign => cases sign <;> rfl
  | zero sign => cases sign <;> rfl
  | finite sign mantissa exponent positive =>
    exact unpack_pack_double (isDouble_of_unpack unpacked)

theorem Consists.neg {u : UnpackedFloat} {a : ℚ} (consists : Consists u a) :
    Consists u.neg (-a) := by
  cases consists with
  | zero sign =>
    rw [neg_zero]
    exact .zero (-sign)
  | finite sign positive double =>
    rw [← signed_neg]
    exact .finite (-sign) positive double

theorem Consists.unique {u : UnpackedFloat} {a b : ℚ} (left : Consists u a)
    (right : Consists u b) : a = b := by
  cases left <;> cases right <;> rfl

theorem isNaN_neg (x : Float) : (-x).isNaN = x.isNaN := by
  show (-x).toModel.unpack.isNaN = x.toModel.unpack.isNaN
  rw [unpack_neg]
  cases x.toModel.unpack <;> rfl

theorem isInf_neg (x : Float) : (-x).isInf = x.isInf := by
  show (-x).toModel.unpack.isInf = x.toModel.unpack.isInf
  rw [unpack_neg]
  cases x.toModel.unpack <;> rfl

theorem isFinite_neg (x : Float) : (-x).isFinite = x.isFinite := by
  show (-x).toModel.unpack.isFinite = x.toModel.unpack.isFinite
  rw [unpack_neg]
  cases x.toModel.unpack <;> rfl

theorem amount_neg {x : Float} (finite : x.isFinite = true) : amount (-x) = -amount x := by
  have turned := consists_of_finite ((isFinite_neg x).trans finite)
  rw [unpack_neg] at turned
  exact turned.unique (consists_of_finite finite).neg

/-- A change of both signs swaps the order. -/
theorem compare_neg_neg (u v : UnpackedFloat) :
    u.neg.compare v.neg = (u.compare v).map Ordering.swap := by
  cases u with
  | notANumber => rfl
  | infinity sign =>
    cases v with
    | notANumber => cases sign <;> rfl
    | infinity other => cases sign <;> cases other <;> rfl
    | zero other => cases sign <;> rfl
    | finite other => cases sign <;> rfl
  | zero sign =>
    cases v with
    | notANumber | zero => rfl
    | infinity other | finite other => cases other <;> rfl
  | finite sign mantissa exponent =>
    cases v with
    | notANumber => rfl
    | infinity other => cases sign <;> cases other <;> rfl
    | zero other => cases sign <;> rfl
    | finite other otherMantissa otherExponent =>
      match sign, other with
      | .negative, .positive | .positive, .negative => rfl
      | .negative, .negative => exact congrArg some Ordering.swap_swap.symm
      | .positive, .positive => rfl

theorem compare_neg_float (x y : Float) :
    (-x).toModel.unpack.compare (-y).toModel.unpack =
      y.toModel.unpack.compare x.toModel.unpack := by
  rw [unpack_neg, unpack_neg, compare_neg_neg, compare_eq_compareRanks, compare_eq_compareRanks,
    ← compareRanks_swap]

theorem neg_lt_neg_iff_float {x y : Float} : -x < -y ↔ y < x := by
  rw [lt_iff_compare, lt_iff_compare, compare_neg_float]

theorem neg_le_neg_iff_float {x y : Float} : -x ≤ -y ↔ y ≤ x := by
  rw [le_iff_compare, le_iff_compare, compare_neg_float]

theorem neg_beq_neg (x y : Float) : (-x == -y) = (x == y) := by
  rw [Bool.eq_iff_iff, beq_iff_compare, beq_iff_compare, unpack_neg, unpack_neg, compare_neg_neg]
  rcases x.toModel.unpack.compare y.toModel.unpack with _ | _ | _ | _ <;> simp

/-- The other zero compares alike. -/
theorem compare_neg_zero (u : UnpackedFloat) :
    u.neg.compare (.zero .positive) = (u.compare (.zero .positive)).map Ordering.swap := by
  cases u with
  | notANumber | zero => rfl
  | infinity sign | finite sign => cases sign <;> rfl

theorem neg_beq_zero (x : Float) : (-x == 0) = (x == 0) := by
  rw [Bool.eq_iff_iff, beq_iff_compare, beq_iff_compare, unpack_neg]
  show x.toModel.unpack.neg.compare (.zero .positive) = _ ↔
    x.toModel.unpack.compare (.zero .positive) = _
  rw [compare_neg_zero]
  rcases x.toModel.unpack.compare (.zero .positive) with _ | _ | _ | _ <;> simp

theorem neg_lt_zero_float {x : Float} : -x < 0 ↔ 0 < x := by
  rw [lt_iff_compare, lt_iff_compare, compare_eq_compareRanks 0, compareRanks_swap,
    ← compare_eq_compareRanks, unpack_neg]
  show x.toModel.unpack.neg.compare (.zero .positive) = _ ↔ _
  rw [compare_neg_zero]
  rfl

/-! ### Order and infinities -/

theorem not_lt_of_le_float {x y : Float} (le : x ≤ y) : ¬ y < x := by
  obtain ⟨first, second⟩ := isNaN_of_le le
  rw [lt_iff_rank second first, not_lt]
  exact (le_iff_rank first second).mp le

theorem not_lt_of_lt_float {x y : Float} (less : x < y) : ¬ y < x := by
  rw [lt_iff_compare, compare_eq_compareRanks] at less ⊢
  rw [compareRanks_swap, less]
  decide

theorem beq_of_lt_float {x y : Float} (less : x < y) : (x == y) = false := by
  rw [lt_iff_compare] at less
  rw [← Bool.not_eq_true, beq_iff_compare, less]
  decide

theorem le_trans_float {x y z : Float} (low : x ≤ y) (high : y ≤ z) : x ≤ z := by
  obtain ⟨first, second⟩ := isNaN_of_le low
  have third := (isNaN_of_le high).2
  rw [le_iff_rank first second] at low
  rw [le_iff_rank second third] at high
  exact (le_iff_rank first third).mpr (low.trans high)

/-- What stands between two doubles that are equal is equal to them. -/
theorem beq_between {x y z : Float} (low : x ≤ y) (high : y ≤ z) (same : (x == z) = true) :
    (x == y) = true := by
  obtain ⟨first, second⟩ := isNaN_of_le low
  have third := (isNaN_of_le high).2
  rw [le_iff_rank first second] at low
  rw [le_iff_rank second third] at high
  rw [beq_iff_rank first third] at same
  exact (beq_iff_rank first second).mpr (low.antisymm (same ▸ high))

/-- What is not less than a finite double and not greater than another is finite. -/
theorem isFinite_between {x y z : Float} (low : x ≤ y) (high : y ≤ z) (first : x.isFinite = true)
    (last : z.isFinite = true) : y.isFinite = true := by
  obtain ⟨_, number⟩ := isNaN_of_le low
  have left := consists_of_finite first
  have right := consists_of_finite last
  rw [le_iff_compare] at low high
  show y.toModel.unpack.isFinite = true
  have number : y.toModel.unpack.isNaN = false := number
  generalize x.toModel.unpack = u, amount x = a at left low
  generalize z.toModel.unpack = w, amount z = b at right high
  generalize y.toModel.unpack = v at low high number ⊢
  match v with
  | .notANumber => contradiction
  | .zero _ | .finite .. => rfl
  | .infinity .negative =>
    cases left with
    | zero => contradiction
    | finite sign => cases sign <;> contradiction
  | .infinity .positive =>
    cases right with
    | zero => contradiction
    | finite sign => cases sign <;> contradiction

end SolidScript
