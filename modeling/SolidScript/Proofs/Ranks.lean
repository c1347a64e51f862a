/-
This file gives doubles, ranges and all other scalars a rank in a linear order, so that comparing
two of them is comparing their ranks. A double that is no number has no rank and is in no order.
Comparing is hence consistent where it has an answer: it can be swapped, it is transitive, and
scalars that compare equal compare alike with everything.
-/

import SolidScript.Proofs.Doubles
import SolidScript.Proofs.Tree.Comparison
import Mathlib.Data.Prod.Lex

namespace SolidScript

open Float.Model

/-! ### Doubles -/

/-- The place of a double: its side of zero, then its exponent, then its mantissa. -/
abbrev Rank := ℤ ×ₗ ℤ ×ₗ ℤ

/-- The rank of a double that was taken apart. Below zero the greater magnitude comes first. -/
def rankOf : UnpackedFloat → Rank
  | .infinity .negative => toLex (-2, toLex (0, 0))
  | .finite .negative mantissa exponent _ => toLex (-1, toLex (-exponent, -mantissa))
  | .zero _ | .notANumber => toLex (0, toLex (0, 0))
  | .finite .positive mantissa exponent _ => toLex (1, toLex (exponent, mantissa))
  | .infinity .positive => toLex (2, toLex (0, 0))

def rank (x : Float) : Rank := rankOf x.toModel.unpack

theorem compare_neg (a b : ℤ) : compare (-a) (-b) = (compare a b).swap := by
  rw [Int.compare_swap, Int.compare_eq_ite_lt, Int.compare_eq_ite_lt]
  simp only [Int.neg_lt_neg_iff]

theorem compare_natCast (m n : ℕ) : compare (m : ℤ) (n : ℤ) = compare m n := by
  rw [Int.compare_eq_ite_lt, Nat.compare_eq_ite_lt]
  simp only [Int.ofNat_lt]

theorem compare_eq_rankOf {x y : UnpackedFloat} (first : x.isNaN = false)
    (second : y.isNaN = false) : x.compare y = some (compare (rankOf x) (rankOf y)) := by
  cases x with
  | notANumber => contradiction
  | infinity sign =>
    cases y with
    | notANumber => contradiction
    | zero => cases sign <;> rfl
    | infinity other | finite other => cases sign <;> cases other <;> rfl
  | zero =>
    cases y with
    | notANumber => contradiction
    | zero => rfl
    | infinity other | finite other => cases other <;> rfl
  | finite sign mantissa exponent =>
    cases y with
    | notANumber => contradiction
    | zero => cases sign <;> rfl
    | infinity other => cases sign <;> cases other <;> rfl
    | finite other otherMantissa otherExponent =>
      match sign, other with
      | .negative, .positive | .positive, .negative => rfl
      | .negative, .negative =>
        show _ = some ((compare (-exponent) (-otherExponent)).then
          (compare (-(mantissa : ℤ)) (-(otherMantissa : ℤ))))
        rw [compare_neg, compare_neg, compare_natCast, ← Ordering.swap_then]
        rfl
      | .positive, .positive =>
        show _ = some ((compare exponent otherExponent).then
          (compare (mantissa : ℤ) (otherMantissa : ℤ)))
        rw [compare_natCast]
        rfl

theorem compare_eq_none {x y : UnpackedFloat} (none' : x.isNaN = true ∨ y.isNaN = true) :
    x.compare y = none := by
  cases x with
  | notANumber => rfl
  | _ =>
    cases y with
    | notANumber => rfl
    | _ => rcases none' with first | second <;> contradiction

theorem lt_iff_compare {x y : Float} :
    x < y ↔ x.toModel.unpack.compare y.toModel.unpack = some .lt := by
  show decide ((x.toModel.unpack.compare y.toModel.unpack == some .lt) = true) = true ↔ _
  rw [decide_eq_true_iff, beq_iff_eq]

theorem beq_iff_compare {x y : Float} :
    (x == y) = true ↔ x.toModel.unpack.compare y.toModel.unpack = some .eq := by
  show (x.toModel.unpack.compare y.toModel.unpack == some .eq) = true ↔ _
  rw [beq_iff_eq]

/-- The rank of a double. What is no number has none. -/
def rank? (x : Float) : Option Rank := if x.isNaN then none else some (rank x)

/-- Two ranks compare if both are there. -/
def compareRanks (a b : Option Rank) : Option Ordering := do return compare (← a) (← b)

theorem compareRanks_some (a b : Rank) : compareRanks (some a) (some b) = some (compare a b) := rfl

theorem compareRanks_none (a : Option Rank) : compareRanks a none = none := by
  cases a <;> rfl

theorem compare_eq_compareRanks (x y : Float) :
    x.toModel.unpack.compare y.toModel.unpack = compareRanks (rank? x) (rank? y) := by
  unfold rank?
  by_cases first : x.isNaN = true
  · rw [if_pos first]
    exact compare_eq_none (Or.inl first)
  · by_cases second : y.isNaN = true
    · rw [if_pos second, compareRanks_none]
      exact compare_eq_none (Or.inr second)
    · rw [if_neg first, if_neg second]
      exact compare_eq_rankOf (Bool.eq_false_of_not_eq_true first)
        (Bool.eq_false_of_not_eq_true second)

theorem compareRanks_swap (a b : Option Rank) :
    compareRanks b a = (compareRanks a b).map Ordering.swap := by
  cases a with
  | none => exact compareRanks_none b
  | some a =>
    cases b with
    | none => rfl
    | some b => exact congrArg some Std.OrientedOrd.eq_swap

theorem compareRanks_congr {a b : Option Rank} (tie : compareRanks a b = some .eq)
    (c : Option Rank) : compareRanks a c = compareRanks b c := by
  match a, b, c with
  | none, _, _ => contradiction
  | some _, none, _ => contradiction
  | some _, some _, none => rfl
  | some a, some b, some c =>
    exact congrArg some (Std.TransCmp.congr_left (Option.some.inj tie))

theorem compareRanks_trans {a b c : Option Rank} (first : compareRanks a b = some .lt)
    (second : compareRanks b c = some .lt) : compareRanks a c = some .lt := by
  match a, b, c with
  | none, _, _ | some _, none, _ | some _, some _, none => contradiction
  | some a, some b, some c =>
    exact congrArg some (Std.TransCmp.lt_trans (Option.some.inj first) (Option.some.inj second))

/-- Doubles compare as their ranks. -/
theorem floatOrder_eq (x y : Float) : floatOrder x y = compareRanks (rank? x) (rank? y) := by
  simp only [floatOrder, lt_iff_compare, beq_iff_compare, compare_eq_compareRanks]
  rw [compareRanks_swap (rank? x)]
  rcases compareRanks (rank? x) (rank? y) with _ | _ | _ | _ <;> rfl

/-- Equality of doubles is one answer of their order. -/
theorem beq_eq_floatOrder (x y : Float) : (x == y) = (floatOrder x y == some .eq) := by
  rw [Bool.eq_iff_iff, beq_iff_compare, beq_iff_eq, floatOrder_eq, compare_eq_compareRanks]

theorem rank?_of_number {x : Float} (number : x.isNaN = false) : rank? x = some (rank x) := by
  rw [rank?, number]
  rfl

/-- Flags are ordered as the numbers they stand for. -/
theorem floatOrder_flagNumber (a b : Bool) :
    floatOrder (flagNumber a) (flagNumber b) = some (compare a b) := by
  cases a <;> cases b <;> decide

/-! ### Ranges -/

namespace Range

/-- The rank of a range: none for an empty one, then first value, step and number of values. -/
def rank (range : Range) : Option (Rank ×ₗ Rank ×ₗ ℕ) :=
  if range.count = 0 then none
  else some (toLex (SolidScript.rank range.first,
    toLex (SolidScript.rank range.step, range.count)))

/-- Ranges compare as their ranks, whatever their components. -/
theorem order_eq (a b : Range) : a.order b = some (compare a.rank b.rank) := by
  unfold order rank
  cases first : a.count with
  | zero =>
    cases second : b.count with
    | zero => rfl
    | succ n => rfl
  | succ m =>
    cases second : b.count with
    | zero => rfl
    | succ n =>
      obtain ⟨firstA, stepA, _⟩ := isNumber_of_count (show a.count ≠ 0 by omega)
      obtain ⟨firstB, stepB, _⟩ := isNumber_of_count (show b.count ≠ 0 by omega)
      have counts : compare (m + 1) (n + 1) = compare m n := by
        rw [Nat.compare_eq_ite_lt, Nat.compare_eq_ite_lt]
        simp only [Nat.add_lt_add_iff_right]
      have ranks : compare
          (some (toLex (SolidScript.rank a.first, toLex (SolidScript.rank a.step, m + 1))))
          (some (toLex (SolidScript.rank b.first, toLex (SolidScript.rank b.step, n + 1)))) =
            (compare (SolidScript.rank a.first) (SolidScript.rank b.first)).then
              ((compare (SolidScript.rank a.step) (SolidScript.rank b.step)).then
                (compare (m + 1) (n + 1))) := rfl
      rw [if_neg (Nat.succ_ne_zero m), if_neg (Nat.succ_ne_zero n), ranks, counts]
      simp only [floatOrder_eq, rank?_of_number, firstA, firstB, stepA, stepB, compareRanks_some]
      cases compare (SolidScript.rank a.first) (SolidScript.rank b.first) with
      | eq => cases compare (SolidScript.rank a.step) (SolidScript.rank b.step) <;> rfl
      | _ => rfl

end Range

/-! ### Scalars -/

/-- What scalars are compared by. Flags are compared as numbers. -/
inductive Place where
  | undefined
  | number (rank : Option Rank)
  | text (content : String)
  | range (rank : Option (Rank ×ₗ Rank ×ₗ ℕ))

/-- The order of two places. Only places of one sort are in order. -/
def Place.order : Place → Place → Option Ordering
  | undefined, undefined => some .eq
  | number a, number b => compareRanks a b
  | text a, text b => some (compare a b)
  | range a, range b => some (compare a b)
  | _, _ => none

namespace Place

theorem order_swap (a b : Place) : b.order a = (a.order b).map Ordering.swap := by
  cases a with
  | undefined => cases b <;> rfl
  | number a =>
    cases b with
    | number b => exact compareRanks_swap a b
    | _ => rfl
  | text a =>
    cases b with
    | text b => exact congrArg some Std.OrientedOrd.eq_swap
    | _ => rfl
  | range a =>
    cases b with
    | range b => exact congrArg some Std.OrientedOrd.eq_swap
    | _ => rfl

/-- Places that tie are in the same order with every other place. -/
theorem order_congr {a b : Place} (tie : a.order b = some .eq) (c : Place) :
    a.order c = b.order c := by
  cases a with
  | undefined =>
    cases b with
    | undefined => rfl
    | _ => contradiction
  | number a =>
    cases b with
    | number b =>
      cases c with
      | number c => exact compareRanks_congr tie c
      | _ => rfl
    | _ => contradiction
  | text a =>
    cases b with
    | text b =>
      cases c with
      | text c => exact congrArg some (Std.TransCmp.congr_left (Option.some.inj tie))
      | _ => rfl
    | _ => contradiction
  | range a =>
    cases b with
    | range b =>
      cases c with
      | range c => exact congrArg some (Std.TransCmp.congr_left (Option.some.inj tie))
      | _ => rfl
    | _ => contradiction

theorem order_trans {a b c : Place} (first : a.order b = some .lt) (second : b.order c = some .lt) :
    a.order c = some .lt := by
  cases a with
  | undefined => cases b <;> contradiction
  | number a =>
    cases b with
    | number b =>
      cases c with
      | number c => exact compareRanks_trans first second
      | _ => contradiction
    | _ => contradiction
  | text a =>
    cases b with
    | text b =>
      cases c with
      | text c =>
        exact congrArg some (Std.TransCmp.lt_trans (Option.some.inj first) (Option.some.inj second))
      | _ => contradiction
    | _ => contradiction
  | range a =>
    cases b with
    | range b =>
      cases c with
      | range c =>
        exact congrArg some (Std.TransCmp.lt_trans (Option.some.inj first) (Option.some.inj second))
      | _ => contradiction
    | _ => contradiction

end Place

namespace Tree

def place? : Tree → Option Place
  | undefined => some .undefined
  | bool flag => some (.number (rank? (flagNumber flag)))
  | number x => some (.number (rank? x))
  | text content => some (.text content)
  | range content => some (.range content.rank)
  | vector _ | embedded _ | function _ => none

/-- Scalars compare as their places. -/
theorem scalarOrder_eq_places (a b : Tree) :
    a.scalarOrder b = a.place?.bind fun first => b.place?.bind first.order := by
  cases a with
  | bool a =>
    cases b with
    | bool b => exact (floatOrder_flagNumber a b).symm.trans (floatOrder_eq ..)
    | number y => exact floatOrder_eq ..
    | _ => rfl
  | number x =>
    cases b with
    | bool b => exact floatOrder_eq ..
    | number y => exact floatOrder_eq ..
    | _ => rfl
  | range a =>
    cases b with
    | range b => exact a.order_eq b
    | _ => rfl
  | _ => cases b <;> rfl

end Tree

end SolidScript
