/-
This file tells what sums and products of doubles are where some of them are infinite or are rounded
to an infinity. What a double stands for is a rational number or an infinity, or nothing. Both zeros
stand for one number. Rounding keeps the order, and so do sums with one addend in common.
-/

import SolidScript.Proofs.Number.Ordering
import SolidScript.Proofs.Number.Counting

namespace SolidScript

open Float.Model

/-! ### Numbers and infinities -/

/-- A rational number or one of the infinities. -/
inductive Extended where
  | below
  | exact (number : ℚ)
  | above
deriving DecidableEq

namespace Extended

def AtMost : Extended → Extended → Prop
  | below, _ => True
  | _, above => True
  | exact a, exact b => a ≤ b
  | _, _ => False

def infinite (negative : Bool) : Extended := if negative then below else above

/-- What a rational number is rounded to. -/
def rounded (number : ℚ) : Extended :=
  if overflowLimit ≤ |number| then infinite (number < 0) else exact (signedMagnitude number)

/-- Opposite infinities have no sum. -/
def plus : Extended → Extended → Option Extended
  | below, above | above, below => none
  | below, _ | _, below => some below
  | above, _ | _, above => some above
  | exact a, exact b => some (rounded (a + b))

end Extended

namespace Binary64

/-- What a double stands for, if it is a number. -/
def extended : Binary64 → Option Extended
  | .nan => none
  | .infinite negative => some (.infinite negative)
  | .finite negative mantissa exponent => some (.exact (value (.finite negative mantissa exponent)))

theorem extended_nearest (number : ℚ) : (nearest number).extended = some (.rounded number) := by
  have limit := rounded_overflows_iff (abs_nonneg number)
  rw [nearest, bounded, Extended.rounded]
  by_cases beyond : overflowLimit ≤ |number|
  · rw [if_neg (not_le.mpr (limit.mpr beyond)), if_pos beyond]
    rfl
  · rw [if_pos (not_lt.mp (mt limit.mp beyond)), if_neg beyond]
    simp only [extended, value, signedMagnitude, magnitude, decide_eq_true_eq]

end Binary64

def extended (x : Float) : Option Extended := (Binary64.ofFloat x).extended

/-- The parts of a double and what it stands for. -/
inductive Means : UnpackedFloat → Option Extended → Prop where
  | nothing : Means .notANumber none
  | infinite (sign : UnpackedFloat.Sign) :
    Means (.infinity sign) (some (.infinite (sign == .negative)))
  | exact {unpacked : UnpackedFloat} {a : ℚ} (consists : Consists unpacked a) :
    Means unpacked (some (.exact a))

theorem means (x : Float) : Means x.toModel.unpack (extended x) := by
  by_cases finite : x.isFinite = true
  · have number : x.toModel.unpack.isFinite = true := finite
    have consists := consists_of_finite finite
    rw [amount, Binary64.ofFloat_eq] at consists
    rw [extended, Binary64.ofFloat_eq]
    generalize x.toModel.unpack = unpacked at consists number ⊢
    cases unpacked with
    | notANumber | infinity => contradiction
    | zero | finite => exact .exact consists
  · have other : ¬ x.toModel.unpack.isFinite = true := finite
    rw [extended, Binary64.ofFloat_eq]
    generalize x.toModel.unpack = unpacked at other ⊢
    cases unpacked with
    | notANumber => exact .nothing
    | infinity sign => exact .infinite sign
    | zero | finite => exact absurd rfl other

theorem extended_of_finite {x : Float} (finite : x.isFinite = true) :
    extended x = some (.exact (amount x)) := by
  have number : x.toModel.unpack.isFinite = true := finite
  rw [extended, amount, Binary64.ofFloat_eq]
  generalize x.toModel.unpack = unpacked at number ⊢
  cases unpacked with
  | notANumber | infinity => contradiction
  | zero | finite => rfl

theorem isFinite_of_extended {x : Float} {number : ℚ}
    (found : extended x = some (.exact number)) : x.isFinite = true ∧ amount x = number := by
  have parts := means x
  have finite : x.isFinite = true := by
    show x.toModel.unpack.isFinite = true
    rw [found] at parts
    generalize x.toModel.unpack = unpacked, meant : some (Extended.exact number) = a at parts ⊢
    cases parts with
    | nothing => contradiction
    | infinite sign => cases sign <;> injections
    | exact consists => cases consists <;> rfl
  refine ⟨finite, ?_⟩
  rw [extended_of_finite finite] at found
  injection found with found
  injection found

theorem isNaN_iff_extended {x : Float} : x.isNaN = true ↔ extended x = none := by
  have parts := means x
  show x.toModel.unpack.isNaN = true ↔ _
  generalize x.toModel.unpack = unpacked, extended x = meant at parts ⊢
  cases parts with
  | nothing => exact iff_of_true rfl rfl
  | infinite => exact iff_of_false Bool.false_ne_true nofun
  | exact consists => cases consists <;> exact iff_of_false Bool.false_ne_true nofun

/-- Doubles are equal if they are numbers and stand for the same. -/
theorem beq_iff_extended {x y : Float} :
    (x == y) = true ↔ extended x = extended y ∧ extended x ≠ none := by
  have left := means x
  have right := means y
  rw [beq_iff_compare]
  generalize x.toModel.unpack = u, extended x = a at left ⊢
  generalize y.toModel.unpack = v, extended y = b at right ⊢
  cases left with
  | nothing =>
    rw [compare_eq_none (.inl rfl)]
    exact iff_of_false nofun fun both => both.2 rfl
  | infinite sign =>
    cases right with
    | nothing =>
      rw [compare_eq_none (.inr rfl)]
      exact iff_of_false nofun nofun
    | infinite other => cases sign <;> cases other <;> decide
    | exact consists =>
      cases consists <;> cases sign <;> exact iff_of_false nofun fun both => nomatch both.1
  | exact consists =>
    cases right with
    | nothing =>
      rw [compare_eq_none (.inr rfl)]
      exact iff_of_false nofun nofun
    | infinite other =>
      cases consists with
      | zero => cases other <;> exact iff_of_false nofun fun both => nomatch both.1
      | finite sign =>
        cases sign <;> cases other <;> exact iff_of_false nofun fun both => nomatch both.1
    | exact other =>
      rw [consists.compare_eq other, Option.some.injEq, compare_eq_iff_eq]
      simp

/-- Equality of doubles does not mind the order. -/
theorem beq_swap (x y : Float) : (y == x) = (x == y) := by
  rw [Bool.eq_iff_iff, beq_iff_extended, beq_iff_extended]
  constructor <;> exact fun ⟨same, number⟩ => ⟨same.symm, same ▸ number⟩

/-! ### Rounding -/

namespace Extended

theorem below_atMost (a : Extended) : below.AtMost a := by
  cases a <;> exact trivial

theorem atMost_above (a : Extended) : a.AtMost above := by
  cases a <;> exact trivial

theorem AtMost.antisymm {a b : Extended} (le : a.AtMost b) (ge : b.AtMost a) : a = b := by
  match a, b with
  | below, below | above, above => rfl
  | exact _, exact _ => exact congrArg exact (le_antisymm le ge)
  | below, exact _ | below, above | exact _, above => exact ge.elim
  | exact _, below | above, below | above, exact _ => exact le.elim

/-- Rounding keeps the order. -/
theorem rounded_mono {a b : ℚ} (le : a ≤ b) : (rounded a).AtMost (rounded b) := by
  unfold rounded signedMagnitude
  rcases lt_or_ge a 0 with negative | nonneg
  · rw [decide_eq_true negative, abs_of_neg negative, if_pos negative]
    split
    · exact trivial
    rcases lt_or_ge b 0 with negative' | nonneg'
    · rw [decide_eq_true negative', abs_of_neg negative', if_pos negative', if_neg (by linarith)]
      have mono := magnitude_mono (neg_nonneg.mpr negative'.le) (neg_le_neg le)
      show -1 * magnitude (-a) ≤ -1 * magnitude (-b)
      linarith
    · rw [decide_eq_false (not_lt.mpr nonneg'), if_neg (not_lt.mpr nonneg')]
      split
      · exact trivial
      · have below := magnitude_nonneg (-a)
        have above := magnitude_nonneg |b|
        show -1 * magnitude (-a) ≤ 1 * magnitude |b|
        linarith
  · have nonneg' := nonneg.trans le
    rw [decide_eq_false (not_lt.mpr nonneg), abs_of_nonneg nonneg, if_neg (not_lt.mpr nonneg),
      decide_eq_false (not_lt.mpr nonneg'), abs_of_nonneg nonneg', if_neg (not_lt.mpr nonneg')]
    by_cases beyond : overflowLimit ≤ b
    · rw [if_pos beyond]
      split <;> exact trivial
    · rw [if_neg beyond, if_neg (by linarith)]
      show 1 * magnitude a ≤ 1 * magnitude b
      rw [one_mul, one_mul]
      exact magnitude_mono nonneg le

/-- A greater addend gives no lesser sum. -/
theorem plus_mono {a b c first second : Extended} (le : b.AtMost c)
    (left : a.plus b = some first) (right : a.plus c = some second) : first.AtMost second := by
  match a, b, c with
  | below, above, _ | above, below, _ => cases left
  | below, below, _ | below, exact _, _ | exact _, below, _ =>
    cases left
    exact below_atMost _
  | above, _, below => cases right
  | above, _, exact _ | above, _, above | exact _, _, above =>
    cases right
    exact atMost_above _
  | exact _, exact _, below | exact _, above, below | exact _, above, exact _ => exact le.elim
  | exact a, exact b, exact c =>
    cases left
    cases right
    have less : b ≤ c := le
    exact rounded_mono (by linarith)

/-- Between addends that have sums there are no others. -/
theorem exists_plus {a b c d : Extended} (low : b.AtMost c) (high : c.AtMost d)
    (first : a.plus b ≠ none) (last : a.plus d ≠ none) : ∃ sum, a.plus c = some sum := by
  match a, b, c, d with
  | below, _, above, above => exact absurd rfl last
  | above, below, below, _ => exact absurd rfl first
  | below, _, above, below | below, _, above, exact _ => exact high.elim
  | above, exact _, below, _ | above, above, below, _ => exact low.elim
  | below, _, below, _ | below, _, exact _, _ => exact ⟨_, rfl⟩
  | above, _, exact _, _ | above, _, above, _ => exact ⟨_, rfl⟩
  | exact _, _, below, _ | exact _, _, exact _, _ | exact _, _, above, _ => exact ⟨_, rfl⟩

/-- What lies between two addends with one sum has that sum. -/
theorem plus_between {a b c d sum : Extended} (low : b.AtMost c) (high : c.AtMost d)
    (first : a.plus b = some sum) (last : a.plus d = some sum) : a.plus c = some sum := by
  obtain ⟨middle, found⟩ := exists_plus low high (by rw [first]; nofun) (by rw [last]; nofun)
  rw [found, (plus_mono high found last).antisymm (plus_mono low first found)]

theorem rounded_of_lt {number : ℚ} (small : |number| < overflowLimit) :
    rounded number = exact (signedMagnitude number) := if_neg (not_le.mpr small)

theorem rounded_zero : rounded 0 = exact 0 := by
  have parts := rounded_of_canonical canonical_zero
  have limit : 0 < overflowLimit := mul_pos (by norm_num) (by positivity)
  rw [Nat.cast_zero, zero_mul] at parts
  rw [rounded, signedMagnitude, abs_zero, if_neg (not_le.mpr limit), magnitude, parts,
    Nat.cast_zero, zero_mul, mul_zero]

end Extended

/-- Nothing is added to a double without a change. -/
theorem plus_zero {unpacked : UnpackedFloat} {a : Extended} (means : Means unpacked (some a)) :
    a.plus (.rounded 0) = some a := by
  rw [Extended.rounded_zero]
  cases means with
  | infinite sign => cases sign <;> rfl
  | exact consists =>
    show some (Extended.rounded (_ + 0)) = _
    rw [add_zero]
    cases consists with
    | zero => rw [Extended.rounded_zero]
    | finite sign positive double =>
      rw [← Binary64.extended_nearest, ← Binary64.ofUnpacked_double sign positive double,
        unpack_pack_double double]
      rfl

/-! ### Sums and products -/

theorem aligned_add (first second : UnpackedFloat.Sign) (m n : ℕ) (d e : ℤ) :
    ((first.apply (m <<< (d - min d e).toNat : ℕ) +
        second.apply (n <<< (e - min d e).toNat : ℕ) : ℤ) : ℚ) * 2 ^ min d e =
      signed first (m * 2 ^ d) + signed second (n * 2 ^ e) := by
  have turned : ∀ mantissa : ℤ, second.apply mantissa = -(-second).apply mantissa := by
    intro mantissa
    cases second
    · rfl
    · exact (neg_neg mantissa).symm
  rw [turned, ← sub_eq_add_neg, aligned_sub, signed_neg, sub_neg_eq_add]

theorem extended_pack_notANumber :
    (Binary64.ofUnpacked (Float.Model.pack .notANumber).unpack).extended = none := rfl

theorem extended_pack_infinity (sign : UnpackedFloat.Sign) :
    (Binary64.ofUnpacked (Float.Model.pack (.infinity sign)).unpack).extended =
      some (.infinite (sign == .negative)) := by
  cases sign <;> rfl

theorem extended_pack_zero (sign : UnpackedFloat.Sign) :
    (Binary64.ofUnpacked (Float.Model.pack (.zero sign)).unpack).extended =
      some (.rounded 0) := by
  rw [Extended.rounded_zero]
  have none : ∀ negative : Bool, (Binary64.finite negative 0 (-1074)).value = 0 := by
    intro negative
    rw [Binary64.value, Nat.cast_zero, zero_mul, mul_zero]
  cases sign <;> exact congrArg (some ∘ Extended.exact) (none _)

theorem Consists.add {u v : UnpackedFloat} {a b : ℚ} (left : Consists u a) (right : Consists v b) :
    (Binary64.ofUnpacked (Float.Model.pack (UnpackedFloat.add Format.binary64 u v)).unpack).extended
      = some (.rounded (a + b)) := by
  cases left with
  | zero sign =>
    cases right with
    | zero other =>
      rw [add_zero]
      cases sign <;> cases other <;> exact extended_pack_zero _
    | finite other positive double =>
      rw [zero_add, ← Binary64.extended_nearest]
      exact congrArg _ (Binary64.ofUnpacked_double other positive double)
  | @finite sign m d positive double =>
    cases right with
    | zero =>
      rw [add_zero, ← Binary64.extended_nearest]
      exact congrArg _ (Binary64.ofUnpacked_double sign positive double)
    | @finite other n e positive' double' =>
      rw [← aligned_add]
      by_cases none : sign.apply (m <<< (d - min d e).toNat : ℕ) +
        other.apply (n <<< (e - min d e).toNat : ℕ) = 0
      · have sum : UnpackedFloat.add Format.binary64 (.finite sign m d positive)
            (.finite other n e positive') = .zero .positive := by
          show UnpackedFloat.normalize Format.binary64 (sign.apply (m <<< (d - min d e).toNat : ℕ) +
            other.apply (n <<< (e - min d e).toNat : ℕ)) (min d e) .positive = _
          rw [none]
          rfl
        rw [none, sum, Int.cast_zero, zero_mul]
        exact extended_pack_zero _
      · rw [← Binary64.extended_nearest]
        exact congrArg _ (Binary64.ofUnpacked_normalize none (min d e) .positive)

/-- The sum of two doubles is the rounded sum of what they stand for. -/
theorem extended_add (x y : Float) :
    extended (x + y) = (extended x).bind fun a => (extended y).bind a.plus := by
  have left := means x
  have right := means y
  rw [extended, Binary64.ofFloat_eq]
  show (Binary64.ofUnpacked (Float.Model.pack (UnpackedFloat.add Format.binary64
    x.toModel.unpack y.toModel.unpack)).unpack).extended = _
  generalize x.toModel.unpack = u, extended x = a at left ⊢
  generalize y.toModel.unpack = v, extended y = b at right ⊢
  cases left with
  | nothing => exact extended_pack_notANumber
  | infinite sign =>
    cases right with
    | nothing => exact extended_pack_notANumber
    | infinite other => cases sign <;> cases other <;> rfl
    | exact consists =>
      refine Eq.trans ?_ ((extended_pack_infinity sign).trans ?_)
      · cases consists <;> rfl
      · cases sign <;> rfl
  | exact consists =>
    cases right with
    | nothing =>
      cases consists <;> exact extended_pack_notANumber
    | infinite other =>
      refine Eq.trans ?_ ((extended_pack_infinity other).trans ?_)
      · cases consists <;> rfl
      · cases other <;> rfl
    | exact other => exact consists.add other

theorem signed_product (first second : UnpackedFloat.Sign) (x y : ℚ) :
    signed (first * second) (x * y) = signed first x * signed second y := by
  cases first <;> cases second <;> simp only [signed_negative, signed_positive]
  · exact (signed_positive _).trans (neg_mul_neg x y).symm
  · exact (signed_negative _).trans (neg_mul x y).symm
  · exact (signed_negative _).trans (mul_neg x y).symm
  · exact signed_positive _

/-- The product of finite doubles is the rounded exact one. -/
theorem extended_mul {x y : Float} (first : x.isFinite = true) (second : y.isFinite = true) :
    extended (x * y) = some (.rounded (amount x * amount y)) := by
  have left := consists_of_finite first
  have right := consists_of_finite second
  rw [extended, Binary64.ofFloat_eq]
  show (Binary64.ofUnpacked (Float.Model.pack (UnpackedFloat.mul Format.binary64
    x.toModel.unpack y.toModel.unpack)).unpack).extended = _
  generalize x.toModel.unpack = u, amount x = a at left ⊢
  generalize y.toModel.unpack = v, amount y = b at right ⊢
  cases left with
  | zero sign =>
    rw [zero_mul]
    cases right <;> exact extended_pack_zero _
  | @finite sign m d positive double =>
    cases right with
    | zero other =>
      rw [mul_zero]
      exact extended_pack_zero _
    | @finite other n e positive' double' =>
      have some' : (0 : ℚ) < m * 2 ^ d * (n * 2 ^ e) := mul_pos (by positivity) (by positivity)
      have exact' : (m * 2 ^ d * (n * 2 ^ e) / 2 ^ (d + e) - (m * n : ℕ) : ℚ) = 0 := by
        rw [zpow_add₀ (by norm_num)]
        push_cast
        field_simp
        ring
      have enough : d + e ≤ -1074 ∨ 2 ^ 52 ≤ m * n := by
        rcases double.normal with least | full
        · rcases double'.normal with least' | full'
          · exact .inl (by omega)
          · exact .inr (full'.trans (Nat.le_mul_of_pos_left n positive))
        · exact .inr (full.trans (Nat.le_mul_of_pos_right m positive'))
      rw [← signed_product, ← Binary64.extended_nearest,
        ← Binary64.ofUnpacked_assemble_rounded _ some',
        ← roundWithAccuracy_eq _ some' (show Fits .exact _ from exact') enough]
      rfl

end SolidScript
