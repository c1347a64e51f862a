/-
This file proves that on vectors and matrices of numbers all products are made of inner products,
summed in one and the same order wherever the entries come from. As multiplication of doubles
commutes, products are therefore exchanged by transposition.
-/

import Mathlib.Data.List.OfFn
import SolidScript.Proofs.Judging

namespace SolidScript

open Float.Model Product

/-! ### Multiplication commutes -/

theorem sign_mul_comm (first second : UnpackedFloat.Sign) : first * second = second * first := by
  cases first <;> cases second <;> rfl

theorem unpacked_mul_comm (format : Format) (x y : UnpackedFloat) :
    x.mul format y = y.mul format x := by
  cases x with
  | notANumber => cases y <;> rfl
  | infinity sign =>
    cases y with
    | notANumber | zero => rfl
    | infinity other | finite other =>
      exact congrArg UnpackedFloat.infinity (sign_mul_comm sign other)
  | zero sign =>
    cases y with
    | notANumber | infinity => rfl
    | zero other | finite other => exact congrArg UnpackedFloat.zero (sign_mul_comm sign other)
  | finite sign mantissa exponent =>
    cases y with
    | notANumber => rfl
    | infinity other => exact congrArg UnpackedFloat.infinity (sign_mul_comm sign other)
    | zero other => exact congrArg UnpackedFloat.zero (sign_mul_comm sign other)
    | finite other factor power =>
      show UnpackedFloat.roundWithAccuracy format (sign * other) (mantissa * factor)
        (exponent + power) .exact = UnpackedFloat.roundWithAccuracy format (other * sign)
          (factor * mantissa) (power + exponent) .exact
      rw [sign_mul_comm, Nat.mul_comm, Int.add_comm]

/-- Multiplication of doubles commutes. -/
theorem float_mul_comm (x y : Float) : x * y = y * x :=
  congrArg (fun product => Float.ofModel (.pack product))
    (unpacked_mul_comm .binary64 x.toModel.unpack y.toModel.unpack)

/-- The inner product is symmetric. -/
theorem dot_comm {n : Nat} (u w : Fin n → Float) : dot u w = dot w u := by
  unfold dot
  simp only [float_mul_comm]

/-- The product of two matrices turns around when it is transposed. -/
theorem transpose_rowsTimesColumns {m n p : Nat} (A : Matrix (Fin m) (Fin n) Float)
    (B : Matrix (Fin n) (Fin p) Float) :
    (rowsTimesColumns A B).transpose = rowsTimesColumns B.transpose A.transpose := by
  ext j i
  exact dot_comm (A.row i) (B.col j)

/-! ### Sums from left to right -/

theorem dot?_ofFn {n : Nat} (u w : Fin n → Float) (sum : Float) :
    dot? sum (List.ofFn fun k => some (u k)) (List.ofFn fun k => some (w k)) =
      some (Fin.foldl n (fun sum k => sum + u k * w k) sum) := by
  induction n generalizing sum with
  | zero => rfl
  | succ n inductionHypothesis =>
    rw [List.ofFn_succ, List.ofFn_succ, dot?, Fin.foldl_succ]
    exact inductionHypothesis (fun k => u k.succ) (fun k => w k.succ) (sum + u 0 * w 0)

theorem rowSum_ofFn {n : Nat} (place column : Nat) (u w : Fin n → Float) (sum : Float) :
    rowSum place column sum (List.ofFn fun k => some (u k)) (List.ofFn fun k => some (w k)) =
      .ok (Fin.foldl n (fun sum k => sum + u k * w k) sum) := by
  induction n generalizing column sum with
  | zero => rfl
  | succ n inductionHypothesis =>
    rw [List.ofFn_succ, List.ofFn_succ, rowSum, Fin.foldl_succ]
    exact inductionHypothesis (column + 1) (fun k => u k.succ) (fun k => w k.succ)
      (sum + u 0 * w 0)

/-- A row of numbers that was read. -/
def rowOf {n : Nat} (u : Fin n → Float) : Row := some (Array.ofFn fun k => some (u k))

theorem filter_rowOf {n : Nat} (u : Fin n → Float) :
    (rowOf u).filter (·.size == n) = some (Array.ofFn fun k => some (u k)) := by
  rw [rowOf, Option.filter_some, if_pos (beq_iff_eq.mpr Array.size_ofFn)]

theorem columnSum_ofFn {m n : Nat} (column : Fin n) (place : Nat) (v : Fin m → Float)
    (A : Matrix (Fin m) (Fin n) Float) (sum : Float) :
    columnSum n column place sum (List.ofFn fun i => some (v i)) (List.ofFn fun i => rowOf (A i)) =
      .ok (Fin.foldl m (fun sum i => sum + v i * A i column) sum) := by
  induction m generalizing place sum with
  | zero => rfl
  | succ m inductionHypothesis =>
    have entry : (Array.ofFn fun k => some (A 0 k))[column.val]?.join = some (A 0 column) := by
      rw [Array.getElem?_ofFn, dif_pos column.isLt]
      rfl
    rw [List.ofFn_succ, List.ofFn_succ, columnSum, filter_rowOf, Fin.foldl_succ]
    dsimp only
    rw [entry]
    exact inductionHypothesis (place + 1) (fun i => v i.succ) (fun i => A i.succ)
      (sum + v 0 * A 0 column)

theorem rowSums_ofFn {m n : Nat} (place : Nat) (A : Matrix (Fin m) (Fin n) Float)
    (v : Fin n → Float) :
    rowSums (List.ofFn fun k => some (v k)) place (List.ofFn fun i => rowOf (A i)) =
      .ok (List.ofFn fun i => dot (A.row i) v) := by
  induction m generalizing place with
  | zero => rfl
  | succ m inductionHypothesis =>
    rw [List.ofFn_succ, List.ofFn_succ, rowSums, List.length_ofFn, filter_rowOf]
    dsimp only
    rw [Array.toList_ofFn, rowSum_ofFn, inductionHypothesis (place + 1) (fun i => A i.succ)]
    rfl

theorem mapM_range {n : Nat} {work : Nat → Except Warning Float} {result : Fin n → Float}
    (each : ∀ k : Fin n, work k = .ok (result k)) :
    (List.range n).mapM work = .ok (List.ofFn result) := by
  induction n generalizing work with
  | zero => rfl
  | succ n inductionHypothesis =>
    have head : work 0 = .ok (result 0) := each 0
    have tail : (List.range n).mapM (fun k => work (k + 1)) =
        .ok (List.ofFn fun k => result k.succ) := inductionHypothesis fun k => each k.succ
    rw [List.range_succ_eq_map, List.mapM_cons, List.mapM_map, List.ofFn_succ, head]
    dsimp only [Function.comp_def]
    rw [tail]
    rfl

theorem columnSums_ofFn {m n : Nat} (v : Fin (m + 1) → Float)
    (A : Matrix (Fin (m + 1)) (Fin n) Float) :
    columnSums (List.ofFn fun i => some (v i)) (List.ofFn fun i => rowOf (A i)) =
      .ok (List.ofFn fun j => dot v (A.col j)) := by
  have shape : (List.ofFn fun i => rowOf (A i)) =
      some (Array.ofFn fun k => some (A 0 k)) :: List.ofFn fun i : Fin m => rowOf (A i.succ) :=
    List.ofFn_succ
  have unfolded : columnSums (List.ofFn fun i => some (v i)) (List.ofFn fun i => rowOf (A i)) =
      (List.range n).mapM fun column => columnSum n column 0 0 (List.ofFn fun i => some (v i))
        (List.ofFn fun i => rowOf (A i)) := by
    rw [shape, columnSums, Array.size_ofFn]
  rw [unfolded]
  exact mapM_range fun j => columnSum_ofFn j 0 v A 0

namespace Tree

/-! ### Trees of numbers -/

theorem length_numbers {n : Nat} (u : Fin n → Float) : (numbers u).length = n := List.length_ofFn

theorem length_rows {m n : Nat} (A : Matrix (Fin m) (Fin n) Float) : (rows A).length = m :=
  List.length_ofFn

theorem numbers_succ {n : Nat} (u : Fin (n + 1) → Float) :
    numbers u = number (u 0) :: numbers fun k => u k.succ := List.ofFn_succ

theorem rows_succ {m n : Nat} (A : Matrix (Fin (m + 1)) (Fin n) Float) :
    rows A = vector (numbers (A.row 0)) :: rows (.of fun i : Fin m => A.row i.succ) :=
  List.ofFn_succ

theorem map_number?_numbers {n : Nat} (u : Fin n → Float) :
    (numbers u).map number? = List.ofFn fun k => some (u k) := List.map_ofFn

theorem map_row_rows {m n : Nat} (A : Matrix (Fin m) (Fin n) Float) :
    (rows A).map row = List.ofFn fun i => rowOf (A i) := by
  rw [rows, List.map_ofFn]
  refine congrArg List.ofFn (funext fun i => ?_)
  show some ((numbers (A.row i)).map number?).toArray = _
  rw [map_number?_numbers, List.toArray_ofFn]
  rfl

theorem ofSums_ofFn {n : Nat} (u : Fin n → Float) :
    ofSums (.ok (List.ofFn u)) = (ofVector u, []) := by
  rw [ofSums, List.map_ofFn]
  rfl

theorem vectorTimesMatrix_numbers {m n : Nat} (v : Fin (m + 1) → Float)
    (A : Matrix (Fin (m + 1)) (Fin n) Float) :
    vectorTimesMatrix (numbers v) (rows A) = (ofVector fun j => dot v (A.col j), []) := by
  rw [vectorTimesMatrix, map_number?_numbers, map_row_rows, columnSums_ofFn, ofSums_ofFn]

theorem matrixTimesVector_rows {m n : Nat} (A : Matrix (Fin m) (Fin n) Float)
    (v : Fin n → Float) :
    matrixTimesVector (rows A) (numbers v) = (ofVector fun i => dot (A.row i) v, []) := by
  rw [matrixTimesVector, map_number?_numbers, map_row_rows, rowSums_ofFn, ofSums_ofFn]

/-- Each row of a matrix is replaced by its products with the columns of another. -/
theorem rowProducts_rows {m n p : Nat} (place : Nat) (A : Matrix (Fin m) (Fin (n + 1)) Float)
    (B : Matrix (Fin (n + 1)) (Fin p) Float) :
    rowProducts (rows B) [] place (rows A) = (ofMatrix (rowsTimesColumns A B), []) := by
  have each : List.Forall₂ (RowGives (rows B)) (rows A)
      ((rows (rowsTimesColumns A B)).map fun image => (image, [])) := by
    unfold rows
    rw [List.map_ofFn]
    refine forall₂_ofFn fun i => ⟨numbers (A.row i), rfl, ?_, vectorTimesMatrix_numbers _ B⟩
    exact (length_numbers (A.row i)).trans (length_rows B).symm
  rw [rowProducts_of_rowGives each, List.map_map, List.flatMap_map, List.nil_append]
  exact Prod.ext (congrArg vector (List.map_id _)) (List.flatMap_eq_nil_iff.mpr fun _ _ => rfl)

/-! ### Products of them -/

theorem times_ofVector_ofVector {n : Nat} (u w : Fin (n + 1) → Float) :
    (ofVector u).times (ofVector w) = (number (dot u w), []) := by
  show product (numbers u) (numbers w) = _
  have length : (numbers u).length = (numbers w).length :=
    (length_numbers u).trans (length_numbers w).symm
  have found := dot?_ofFn u w 0
  rw [← map_number?_numbers, ← map_number?_numbers] at found
  rw [numbers_succ u, numbers_succ w] at length found ⊢
  rw [product, if_pos length, found]
  rfl

theorem times_ofMatrix_ofVector {m n : Nat} (A : Matrix (Fin (m + 1)) (Fin (n + 1)) Float)
    (v : Fin (n + 1) → Float) :
    (ofMatrix A).times (ofVector v) = (ofVector fun i => dot (A.row i) v, []) := by
  rw [← matrixTimesVector_rows]
  show product (rows A) (numbers v) = _
  have width : (numbers (A.row 0)).length = (numbers v).length :=
    (length_numbers (A.row 0)).trans (length_numbers v).symm
  rw [numbers_succ v] at width ⊢
  rw [rows_succ A, product, if_pos width]

theorem times_ofVector_ofMatrix {m n : Nat} (v : Fin (m + 1) → Float)
    (A : Matrix (Fin (m + 1)) (Fin n) Float) :
    (ofVector v).times (ofMatrix A) = (ofVector fun j => dot v (A.col j), []) := by
  rw [← vectorTimesMatrix_numbers]
  show product (numbers v) (rows A) = _
  have height : (numbers v).length = (rows A).length :=
    (length_numbers v).trans (length_rows A).symm
  rw [numbers_succ v, rows_succ A] at height ⊢
  rw [product, if_pos height]

theorem times_ofMatrix_ofMatrix {m n p : Nat} (A : Matrix (Fin (m + 1)) (Fin (n + 1)) Float)
    (B : Matrix (Fin (n + 1)) (Fin p) Float) :
    (ofMatrix A).times (ofMatrix B) = (ofMatrix (rowsTimesColumns A B), []) := by
  rw [← rowProducts_rows 0]
  show product (rows A) (rows B) = _
  have height : (numbers (A.row 0)).length = (rows B).length :=
    (length_numbers (A.row 0)).trans (length_rows B).symm
  rw [rows_succ B] at height ⊢
  rw [rows_succ A, product, if_pos height]

end Tree

end SolidScript
