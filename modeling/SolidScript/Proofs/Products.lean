/-
This file proves what products of vectors and matrices come to in every workspace that is reached,
however the operands are laid out and whatever storages they share. Products of numbers are made of
inner products, and are exchanged by transposition. Operands that do not fit are refused with the
first of their defects, with two exceptions: a matrix that starts with an empty row is not looked at
any further, and a row that cannot be multiplied leaves the undefined value in a product of
matrices.
-/

import Mathlib.Data.Fin.VecNotation
import SolidScript.Proofs.InnerProducts
import SolidScript.Proofs.Supporting

namespace SolidScript

open SolidScript.Tree (AllOrNothing IsNumberRow IsRow Judged JudgedSilently MatricesFit
  MatrixVectorFit VectorMatrixFit VectorsFit)
open Value (handles)

/-- A supported value, and the tree that it denotes. -/
structure Memory.Offers (memory : Memory) (value : Value) (tree : Tree) : Prop where
  supports : memory.Supports value
  denotes : Denotes memory value tree

/-- A supported value, and the tree that it denotes. Words can count the items of all vectors in
it. -/
structure Memory.OffersSmall (memory : Memory) (value : Value) (tree : Tree) : Prop
    extends memory.Offers value tree where
  small : tree.small = true

/-- The action, which works on copies of the operands, ends with a value that denotes the tree. -/
def Memory.Gives (memory : Memory) (operands : List Value) (action : Action Value) (tree : Tree) :
    Prop :=
  action.Ends (memory.retain operands) fun result after => Denotes after result tree

/-- The product of copies of two values ends. The tree that it denotes and the warnings that it
causes meet the condition. -/
def Memory.Multiplies (memory : Memory) (a b : Value)
    (condition : Tree → List Warning → Prop) : Prop :=
  (a.times b).Ends (memory.retain [a, b]) fun result after =>
    ∃ product warned, Denotes after result product ∧
      after.warnings = warned.reverse ++ memory.warnings ∧ condition product warned

/-- The product of copies of two values is the given tree, and there are no warnings. -/
def Memory.MultipliesTo (memory : Memory) (a b : Value) (expected : Tree) : Prop :=
  memory.Multiplies a b fun product warned => product = expected ∧ warned = []

namespace Workspace

variable {workspace : Workspace}

/-- Values that a workspace supports can be worked on once they are copied. -/
theorem Reached.copied (reached : workspace.Reached) {values : List Value}
    (supports : ∀ value ∈ values, workspace.memory.Supports value) :
    ∃ sure atWork, Sound sure (workspace.memory.retain values) (handles values ++ atWork) ∧
      Evolves [] [] workspace.memory (workspace.memory.retain values) := by
  obtain ⟨followed, plain, represents⟩ := reached.represents
  exact ⟨_, _, Memory.Supports.copied supports represents.sound⟩

/-- A product of values is that of their trees. -/
theorem Reached.multiplies_iff (reached : workspace.Reached) (fits : workspace.memory.Fits)
    {a b : Value} {x y : Tree} (first : workspace.memory.OffersSmall a x)
    (second : workspace.memory.OffersSmall b y) {condition : Tree → List Warning → Prop} :
    workspace.memory.Multiplies a b condition ↔ condition (x.times y).1 (x.times y).2 := by
  have supports : ∀ value ∈ [a, b], workspace.memory.Supports value := by
    intro value member
    rcases List.mem_pair.mp member with rfl | rfl
    · exact first.supports
    · exact second.supports
  obtain ⟨sound, evolves⟩ := Memory.Supports.copied supports (reached.sound fits)
  have held : ∀ value ∈ [a, b], ∀ handle ∈ handles [value],
      handle ∈ handles [a, b] ++ workspace.roots := fun value member handle inValue =>
    List.mem_append_left _ ((handles_sublist (List.singleton_sublist.mpr member)).subset inValue)
  have ends : (a.times b).Ends (workspace.memory.retain [a, b]) (Computes True
      (workspace.memory.retain [a, b]) (handles [a, b] ++ workspace.roots) (x.times y).1
      (x.times y).2) := by
    refine (Value.times_ends sound (held a List.mem_cons_self)
      (held b (List.mem_cons_of_mem _ List.mem_cons_self)) (evolves.denotes first.denotes)
      (evolves.denotes second.denotes)).imp ?_
    rintro _ _ ⟨_, _, computes, exact'⟩
    rw [← exact' trivial ⟨first.small, second.small⟩]
    exact computes
  have warnings : ∀ {result : Value} {after : Memory},
      Computes True (workspace.memory.retain [a, b]) (handles [a, b] ++ workspace.roots)
        (x.times y).1 (x.times y).2 result after →
      after.warnings = (x.times y).2.reverse ++ workspace.memory.warnings := by
    intro result after computes
    rw [computes.evolves.steady.warnings, evolves.steady.warnings]
    rfl
  constructor
  · rintro ⟨result, after, found, product, warned, denotes, reported, holds⟩
    obtain ⟨_, _, same, computes⟩ := ends
    cases found.symm.trans same
    obtain rfl := denotes.unique computes.denotes
    have equal := List.append_cancel_right (reported.symm.trans (warnings computes))
    obtain rfl := List.reverse_injective equal
    exact holds
  · exact fun holds => ends.imp fun result after computes =>
      ⟨_, _, computes.denotes, warnings computes, holds⟩

/-- After a run the registers offer what plain lists hold. -/
theorem offers_of_run {steps : List Step} {reports : List Report} {others : List PlainReport}
    {plain : Plain} (ran : run steps empty = some (.ok (reports, workspace)))
    (follows : Plain.run steps Plain.empty = .ok (others, plain)) :
    List.Forall₂
      (fun address items => workspace.memory.OffersSmall (.vector address) (.vector items))
      workspace.registers plain.registers := by
  have represents := represents_of_plain ran follows
  refine forall₂_imp_of_mem represents.registers fun address member items inPlain lists => ?_
  have held : address ∈ workspace.roots := List.mem_append_left _ member
  exact ⟨⟨.vector (represents.sound.owned.alive_of_mem held), lists⟩,
    (represents.small trivial).registers items inPlain⟩

/-- A run that leaves two plain lists leads to a workspace that offers them. -/
theorem exists_offers (steps : List Step) {first second : List Tree}
    (follows : ∃ others plain, Plain.run steps Plain.empty = .ok (others, plain) ∧
      plain.registers = [first, second]) :
    ∃ (reports : List Report) (workspace : Workspace) (a b : Value),
      run steps empty = some (.ok (reports, workspace)) ∧
        workspace.memory.OffersSmall a (.vector first) ∧
        workspace.memory.OffersSmall b (.vector second) := by
  obtain ⟨others, plain, follows, registers⟩ := follows
  obtain ⟨reports, workspace, ran, _⟩ :=
    ((run_refines represents_empty steps).mirrors trivial).of_follows follows
  have offers := offers_of_run ran follows
  rw [registers] at offers
  obtain ⟨a, _, left, offers, _⟩ := List.forall₂_cons_right_iff.mp offers
  obtain ⟨b, _, right, _, _⟩ := List.forall₂_cons_right_iff.mp offers
  exact ⟨reports, workspace, .vector a, .vector b, ran, left, right⟩

theorem exists_offers_fitting (steps : List Step) {first second : List Tree}
    (ran : ∃ reports workspace, run steps empty = some (.ok (reports, workspace)) ∧
      workspace.memory.Fits)
    (follows : ∃ others plain, Plain.run steps Plain.empty = .ok (others, plain) ∧
      plain.registers = [first, second]) :
    ∃ (workspace : Workspace) (a b : Value), workspace.Reached ∧ workspace.memory.Fits ∧
      workspace.memory.OffersSmall a (.vector first) ∧
      workspace.memory.OffersSmall b (.vector second) := by
  obtain ⟨reports, workspace, ran, fits⟩ := ran
  obtain ⟨_, _, a, b, same, left, right⟩ := exists_offers steps follows
  cases ran.symm.trans same
  exact ⟨workspace, a, b, ⟨steps, reports, ran⟩, fits, left, right⟩

/-! ### Products of numbers -/

/-- Products of vectors and matrices of numbers are made of inner products, without a warning. No
operand is empty, but the rows of a matrix on the right may be. -/
structure MadeOfInnerProducts (memory : Memory) : Prop where
  vectors : ∀ {n : Nat} (u w : Fin (n + 1) → Float) {a b : Value},
    memory.OffersSmall a (.ofVector u) → memory.OffersSmall b (.ofVector w) →
      memory.MultipliesTo a b (.number (dot u w))
  matrixVector : ∀ {m n : Nat} (A : Matrix (Fin (m + 1)) (Fin (n + 1)) Float)
    (v : Fin (n + 1) → Float) {a b : Value},
    memory.OffersSmall a (.ofMatrix A) → memory.OffersSmall b (.ofVector v) →
      memory.MultipliesTo a b (.ofVector fun i => dot (A.row i) v)
  vectorMatrix : ∀ {m n : Nat} (v : Fin (m + 1) → Float)
    (A : Matrix (Fin (m + 1)) (Fin n) Float) {a b : Value},
    memory.OffersSmall a (.ofVector v) → memory.OffersSmall b (.ofMatrix A) →
      memory.MultipliesTo a b (.ofVector fun j => dot v (A.col j))
  matrices : ∀ {m n p : Nat} (A : Matrix (Fin (m + 1)) (Fin (n + 1)) Float)
    (B : Matrix (Fin (n + 1)) (Fin p) Float) {a b : Value},
    memory.OffersSmall a (.ofMatrix A) → memory.OffersSmall b (.ofMatrix B) →
      memory.MultipliesTo a b (.ofMatrix (.of fun i j => dot (A.row i) (B.col j)))
  transposedVector : ∀ {m n : Nat} (v : Fin (m + 1) → Float)
    (A : Matrix (Fin (m + 1)) (Fin (n + 1)) Float) {a b c : Value},
    memory.OffersSmall a (.ofVector v) → memory.OffersSmall b (.ofMatrix A) →
      memory.OffersSmall c (.ofMatrix A.transpose) →
      ∃ product, memory.MultipliesTo a b product ∧ memory.MultipliesTo c a product
  transposedMatrices : ∀ {m n p : Nat} (A : Matrix (Fin (m + 1)) (Fin (n + 1)) Float)
    (B : Matrix (Fin (n + 1)) (Fin (p + 1)) Float) {a b c d : Value},
    memory.OffersSmall a (.ofMatrix A) → memory.OffersSmall b (.ofMatrix B) →
      memory.OffersSmall c (.ofMatrix A.transpose) → memory.OffersSmall d (.ofMatrix B.transpose) →
      ∃ C : Matrix (Fin (m + 1)) (Fin (p + 1)) Float,
        memory.MultipliesTo a b (.ofMatrix C) ∧ memory.MultipliesTo d c (.ofMatrix C.transpose)

theorem Reached.multipliesTo (reached : workspace.Reached) (fits : workspace.memory.Fits)
    {a b : Value} {x y product : Tree} (first : workspace.memory.OffersSmall a x)
    (second : workspace.memory.OffersSmall b y) (found : x.times y = (product, [])) :
    workspace.memory.MultipliesTo a b product := by
  rw [Memory.MultipliesTo, reached.multiplies_iff fits first second, found]
  exact ⟨rfl, rfl⟩

/-- In every workspace that is reached, all four products of vectors and matrices of numbers sum up
in the same order, and are exchanged by transposition. -/
theorem products_madeOfInnerProducts (reached : workspace.Reached) (fits : workspace.memory.Fits) :
    MadeOfInnerProducts workspace.memory where
  vectors u w _ _ first second :=
    reached.multipliesTo fits first second (Tree.times_ofVector_ofVector u w)
  matrixVector A v _ _ first second :=
    reached.multipliesTo fits first second (Tree.times_ofMatrix_ofVector A v)
  vectorMatrix v A _ _ first second :=
    reached.multipliesTo fits first second (Tree.times_ofVector_ofMatrix v A)
  matrices A B _ _ first second :=
    reached.multipliesTo fits first second (Tree.times_ofMatrix_ofMatrix A B)
  transposedVector v A _ _ _ first second turned := by
    refine ⟨_, reached.multipliesTo fits first second (Tree.times_ofVector_ofMatrix v A), ?_⟩
    rw [show (fun j => dot v (A.col j)) = fun j => dot (A.transpose.row j) v from
      funext fun j => dot_comm v (A.col j)]
    exact reached.multipliesTo fits turned first (Tree.times_ofMatrix_ofVector A.transpose v)
  transposedMatrices A B _ _ _ _ first second firstTurned secondTurned := by
    refine ⟨_, reached.multipliesTo fits first second (Tree.times_ofMatrix_ofMatrix A B), ?_⟩
    rw [transpose_rowsTimesColumns]
    exact reached.multipliesTo fits secondTurned firstTurned
      (Tree.times_ofMatrix_ofMatrix B.transpose A.transpose)

/-- A matrix with two rows of the same storage, which holds a placeholder and is multiplied with. -/
theorem products_madeOfInnerProducts_shared :
    ∃ workspace : Workspace, workspace.Reached ∧ workspace.registers = [0, 2] ∧
      workspace.memory.contents 0 = [.number 1, .embedded 1] ∧
      workspace.memory.contents 2 = [.vector 0, .vector 0] ∧
      workspace.memory.MultipliesTo (.vector 2) (.vector 0)
        (.ofVector fun _ : Fin 2 => dot ![1, 2, 3] ![1, 2, 3]) := by
  have reached : ∃ reports workspace,
      run [.create, .append 0 (.number 1),
        .append 0 (.embedded (.vector [.number 2, .number 3])),
        .fill [.register 0, .register 0]] empty =
          some (.ok (reports, workspace)) ∧ workspace.registers = [0, 2] ∧
        workspace.memory.contents 0 = [.number 1, .embedded 1] ∧
        workspace.memory.contents 2 = [.vector 0, .vector 0] ∧ workspace.memory.Fits :=
    ⟨_, _, rfl, rfl, rfl, rfl, rfl⟩
  obtain ⟨reports, workspace, ran, registers, row, matrix, fits⟩ := reached
  have offers := offers_of_run ran rfl
  rw [registers] at offers
  obtain ⟨onRight, offers⟩ := List.forall₂_cons.mp offers
  obtain ⟨onLeft, _⟩ := List.forall₂_cons.mp offers
  let A : Matrix (Fin 2) (Fin 3) Float := .of fun _ => ![1, 2, 3]
  exact ⟨workspace, ⟨_, _, ran⟩, registers, row, matrix,
    (products_madeOfInnerProducts ⟨_, _, ran⟩ fits).matrixVector A ![1, 2, 3] onLeft onRight⟩

/-- The square of a vector of `2 ^ 64 + 3` numbers is undefined, as it seems to start with a
placeholder. -/
theorem square_not_innerProduct :
    ∃ (workspace : Workspace) (n : Nat) (u : Fin (n + 1) → Float), workspace.Reached ∧
      workspace.memory.Fits ∧ workspace.memory.Offers (.vector 66) (.ofVector u) ∧
      ¬ workspace.memory.MultipliesTo (.vector 66) (.vector 66) (.number (dot u u)) := by
  obtain ⟨workspace, reached, outgrown⟩ := exists_outgrown
  obtain ⟨x, xs, denotes, numbers⟩ := outgrown.denotes reached (Or.inr rfl)
  obtain ⟨u, same⟩ := Tree.exists_numbers numbers
  rw [← same] at denotes
  refine ⟨workspace, xs.length, u, reached, outgrown.fits,
    ⟨.vector (outgrown.alive reached (by decide)), denotes⟩, fun multiplies => ?_⟩
  obtain ⟨⟨found, after⟩, ends, undefined⟩ := (Option.any_eq_true _ _).mp outgrown.square
  obtain ⟨result, last, again, product, _, meant, _, rfl, _⟩ := multiplies
  cases ends.symm.trans again
  cases meant
  contradiction

/-! ### Products of matrices -/

/-- A product of matrices is all or nothing, and undefined with a warning where they do not fit,
unless all rows of the left one are as long as the right one is high and something else is wrong.
Each row of the left one that cannot be multiplied then leaves the undefined value in its place. -/
theorem matrices_allOrNothing_iff (reached : workspace.Reached) (fits : workspace.memory.Fits)
    {a b : Value} {firstLeft rowsLeft firstRight rowsRight : List Tree}
    (left : workspace.memory.OffersSmall a (.vector (.vector firstLeft :: rowsLeft)))
    (right : workspace.memory.OffersSmall b (.vector (.vector firstRight :: rowsRight))) :
    (workspace.memory.Multiplies a b (AllOrNothing (MatricesFit firstRight.length
        (.vector firstLeft :: rowsLeft) (.vector firstRight :: rowsRight))) ↔
      ((∀ row ∈ .vector firstLeft :: rowsLeft, IsRow (rowsRight.length + 1) row) →
        MatricesFit firstRight.length (.vector firstLeft :: rowsLeft)
          (.vector firstRight :: rowsRight))) ∧
      ((∀ row ∈ .vector firstLeft :: rowsLeft, IsRow (rowsRight.length + 1) row) →
        workspace.memory.Multiplies a b fun product _ => ∃ images, product = .vector images ∧
          images.length = rowsLeft.length + 1 ∧
          ∀ image ∈ images, image = .undefined ∨ IsNumberRow firstRight.length image) := by
  rw [reached.multiplies_iff fits left right, reached.multiplies_iff fits left right]
  exact Tree.product_matrices firstLeft rowsLeft firstRight rowsRight

/-- The second row of the left matrix lacks an entry. -/
theorem matrices_allOrNothing_iff_ragged :
    ∃ (workspace : Workspace) (a b : Value), workspace.Reached ∧
      workspace.memory.Fits ∧ workspace.memory.OffersSmall a
        (.vector [.vector [.number 1, .number 2], .vector [.number 3]]) ∧
      workspace.memory.OffersSmall b
        (.vector [.vector [.number 1, .number 2], .vector [.number 3, .number 4]]) ∧
      workspace.memory.Multiplies a b (AllOrNothing (MatricesFit 2
        [.vector [.number 1, .number 2], .vector [.number 3]]
        [.vector [.number 1, .number 2], .vector [.number 3, .number 4]])) := by
  obtain ⟨workspace, a, b, reached, fits, left, right⟩ := exists_offers_fitting
    [.fill [.vector [.number 1, .number 2], .vector [.number 3]],
      .fill [.vector [.number 1, .number 2], .vector [.number 3, .number 4]]] ⟨_, _, rfl, rfl⟩
    ⟨_, _, rfl, rfl⟩
  refine ⟨workspace, a, b, reached, fits, left, right,
    (matrices_allOrNothing_iff reached fits left right).1.mpr fun fits => ?_⟩
  obtain ⟨entries, same, length⟩ := fits (.vector [.number 3])
    (List.mem_cons_of_mem _ List.mem_cons_self)
  cases same
  contradiction

/-- The right matrix holds a truth value. What comes out is a vector with the undefined value. -/
theorem matrices_leave_undefined :
    ∃ (workspace : Workspace) (a b : Value), workspace.Reached ∧
      workspace.memory.Offers a (.vector [.vector [.number 1, .number 2]]) ∧
      workspace.memory.Offers b
        (.vector [.vector [.number 1, .number 2], .vector [.number 3, .bool true]]) ∧
      workspace.memory.Multiplies a b (fun product warned =>
        product = .vector [.undefined] ∧ warned = [.matrixEntry 1 1]) ∧
      ¬ workspace.memory.Multiplies a b (AllOrNothing (MatricesFit 2
        [.vector [.number 1, .number 2]]
        [.vector [.number 1, .number 2], .vector [.number 3, .bool true]])) := by
  obtain ⟨workspace, a, b, reached, fits, left, right⟩ := exists_offers_fitting
    [.fill [.vector [.number 1, .number 2]],
      .fill [.vector [.number 1, .number 2], .vector [.number 3, .bool true]]] ⟨_, _, rfl, rfl⟩
    ⟨_, _, rfl, rfl⟩
  refine ⟨workspace, a, b, reached, left.toOffers, right.toOffers, ?_, ?_⟩
  · rw [reached.multiplies_iff fits left right]
    exact ⟨rfl, rfl⟩
  · rw [reached.multiplies_iff fits left right]
    intro judged
    rcases judged.shape with none | ⟨columns, images, same, each⟩
    · cases none
    · cases same
      obtain ⟨_, none, _⟩ := each .undefined List.mem_cons_self
      cases none

/-! ### Products with vectors -/

/-- A vector that starts with a number times a matrix. Exactly the operands that fit are accepted,
and all others refused with the first of their defects, unless the matrix starts with an empty row
and is as high as the vector is long. Then the product is empty, whatever else is in them. -/
theorem vectorMatrix_judged_iff (reached : workspace.Reached) (fits : workspace.memory.Fits)
    {a b : Value} {x : Float} {xs first rows : List Tree}
    (left : workspace.memory.OffersSmall a (.vector (.number x :: xs)))
    (right : workspace.memory.OffersSmall b (.vector (.vector first :: rows))) :
    (workspace.memory.Multiplies a b (Judged
        (VectorMatrixFit first.length (.number x :: xs) (.vector first :: rows)) first.length
        (Tree.vectorMatrixDefects (.number x :: xs) first rows)) ↔
      (xs.length = rows.length → first = [] →
        VectorMatrixFit first.length (.number x :: xs) (.vector first :: rows))) ∧
      (xs.length = rows.length → first = [] → workspace.memory.MultipliesTo a b (.vector [])) := by
  obtain ⟨judged, empty⟩ := Tree.product_vector_matrix x xs first rows
  rw [Memory.MultipliesTo, reached.multiplies_iff fits left right, reached.multiplies_iff fits left
    right]
  exact ⟨judged, fun height none => Prod.ext_iff.mp (empty height none)⟩

/-- The second row of the matrix lacks an entry. -/
theorem vectorMatrix_judged_iff_ragged :
    ∃ (workspace : Workspace) (a b : Value), workspace.Reached ∧
      workspace.memory.Fits ∧ workspace.memory.OffersSmall a (.vector [.number 1, .number 2]) ∧
      workspace.memory.OffersSmall b
        (.vector [.vector [.number 1, .number 2], .vector [.number 3]]) ∧
      workspace.memory.Multiplies a b (Judged
        (VectorMatrixFit 2 [.number 1, .number 2]
          [.vector [.number 1, .number 2], .vector [.number 3]]) 2
        (Tree.vectorMatrixDefects [.number 1, .number 2] [.number 1, .number 2]
          [.vector [.number 3]])) := by
  obtain ⟨workspace, a, b, reached, fits, left, right⟩ := exists_offers_fitting
    [.fill [.number 1, .number 2],
      .fill [.vector [.number 1, .number 2], .vector [.number 3]]] ⟨_, _, rfl, rfl⟩
    ⟨_, _, rfl, rfl⟩
  refine ⟨workspace, a, b, reached, fits, left, right,
    (vectorMatrix_judged_iff reached fits left right).1.mpr fun _ none => ?_⟩
  contradiction

/-- The matrix starts with an empty row, and goes on with a number, which is not noticed. -/
theorem vectorMatrix_silent :
    ∃ (workspace : Workspace) (a b : Value), workspace.Reached ∧
      workspace.memory.Offers a (.vector [.number 1, .number 2]) ∧
      workspace.memory.Offers b (.vector [.vector [], .number 5]) ∧
      workspace.memory.MultipliesTo a b (.vector []) ∧
      ¬ workspace.memory.Multiplies a b (Judged
        (VectorMatrixFit 0 [.number 1, .number 2] [.vector [], .number 5]) 0
        (Tree.vectorMatrixDefects [.number 1, .number 2] [] [.number 5])) := by
  obtain ⟨workspace, a, b, reached, fits, left, right⟩ := exists_offers_fitting
    [.fill [.number 1, .number 2], .fill [.vector [], .number 5]] ⟨_, _, rfl, rfl⟩
    ⟨_, _, rfl, rfl⟩
  refine ⟨workspace, a, b, reached, left.toOffers, right.toOffers, ?_, ?_⟩
  · exact reached.multipliesTo fits left right rfl
  · rw [reached.multiplies_iff fits left right]
    intro judged
    have fit := judged.accepts.mp ⟨[], rfl, rfl, nofun⟩
    obtain ⟨_, none, _⟩ := fit.rows (.number 5) (List.mem_cons_of_mem _ List.mem_cons_self)
    cases none

/-- A matrix times a vector that starts with a number is judged by the defects of the two. Two
vectors that start with numbers are judged without a warning. -/
theorem matrixVector_judged (reached : workspace.Reached) (fits : workspace.memory.Fits) :
    (∀ {a b : Value} {first rows : List Tree} {x : Float} {xs : List Tree},
      workspace.memory.OffersSmall a (.vector (.vector first :: rows)) →
      workspace.memory.OffersSmall b (.vector (.number x :: xs)) →
      workspace.memory.Multiplies a b (Judged
        (MatrixVectorFit (.vector first :: rows) (.number x :: xs)) (rows.length + 1)
        (Tree.matrixVectorDefects first rows (.number x :: xs)))) ∧
      ∀ {a b : Value} {x y : Float} {xs ys : List Tree},
        workspace.memory.OffersSmall a (.vector (.number x :: xs)) →
        workspace.memory.OffersSmall b (.vector (.number y :: ys)) →
        workspace.memory.Multiplies a b (JudgedSilently
          (VectorsFit (.number x :: xs) (.number y :: ys))) := by
  constructor
  · intro a b first rows x xs left right
    rw [reached.multiplies_iff fits left right]
    exact Tree.product_matrix_vector first rows x xs
  · intro a b x y xs ys left right
    rw [reached.multiplies_iff fits left right]
    exact Tree.product_vectors x y xs ys

/-- A matrix with a defect is multiplied with a vector that has one as well, and the vector with
itself. -/
theorem matrixVector_judged_defects :
    ∃ (workspace : Workspace) (a b : Value), workspace.Reached ∧
      workspace.memory.Fits ∧ workspace.memory.OffersSmall a
        (.vector [.vector [.number 1, .number 2], .vector [.undefined, .number 3]]) ∧
      workspace.memory.OffersSmall b (.vector [.number 4, .bool true]) ∧
      workspace.memory.Multiplies a b (Judged
        (MatrixVectorFit [.vector [.number 1, .number 2], .vector [.undefined, .number 3]]
          [.number 4, .bool true]) 2
        [.vectorEntry 1, .matrixEntry 1 0, .vectorEntry 1]) ∧
      workspace.memory.Multiplies b b (JudgedSilently
        (VectorsFit [.number 4, .bool true] [.number 4, .bool true])) := by
  obtain ⟨workspace, a, b, reached, fits, left, right⟩ := exists_offers_fitting
    [.fill [.vector [.number 1, .number 2], .vector [.undefined, .number 3]],
      .fill [.number 4, .bool true]] ⟨_, _, rfl, rfl⟩
    ⟨_, _, rfl, rfl⟩
  obtain ⟨matrixVector, vectors⟩ := matrixVector_judged reached fits
  exact ⟨workspace, a, b, reached, fits, left, right, matrixVector left right, vectors right right⟩

/-- A matrix of one number is multiplied with a vector of `2 ^ 64 + 3` numbers. The product is
undefined, but there is no warning. -/
theorem matrixVector_unwarned :
    ∃ (workspace : Workspace) (first : List Tree) (x : Float) (xs : List Tree),
      workspace.Reached ∧ workspace.memory.Fits ∧
      workspace.memory.Offers (.vector 69) (.vector [.vector first]) ∧
      workspace.memory.Offers (.vector 66) (.vector (.number x :: xs)) ∧
      ¬ workspace.memory.Multiplies (.vector 69) (.vector 66) (Judged
        (MatrixVectorFit [.vector first] (.number x :: xs)) 1
        (Tree.matrixVectorDefects first [] (.number x :: xs))) := by
  obtain ⟨workspace, reached, outgrown⟩ := exists_outgrown
  obtain ⟨x, xs, denotes, _⟩ := outgrown.denotes reached (Or.inr rfl)
  obtain ⟨entry, matrix⟩ := outgrown.denotes_matrix reached
  have supports : ∀ address < 70, workspace.memory.Supports (.vector address) :=
    fun address inside => .vector (outgrown.alive reached inside)
  refine ⟨workspace, _, x, xs, reached, outgrown.fits, ⟨supports 69 (by decide), matrix⟩,
    ⟨supports 66 (by decide), denotes⟩, fun multiplies => ?_⟩
  have misfit : ¬ MatrixVectorFit [.vector [entry]] (.number x :: xs) := by
    intro fit
    obtain ⟨entries, same, length, _⟩ := fit.rows _ List.mem_cons_self
    cases same
    obtain ⟨elements, shows⟩ := Shows.of_vector denotes
    have size := shows.size_eq_mod ((reached.sound outgrown.fits).counts trivial)
      (outgrown.alive reached (by decide))
    rw [← length, outgrown.sizes.2.2.1] at size
    exact absurd size (by decide : 3 ≠ 1 % 2 ^ 64)
  obtain ⟨⟨found, after⟩, ends, silent⟩ := (Option.any_eq_true _ _).mp outgrown.product
  obtain ⟨_, _, again, product, warned, _, reported, judged⟩ := multiplies
  cases ends.symm.trans again
  rw [List.isEmpty_iff.mp (Bool.and_eq_true_iff.mp silent).2] at reported
  obtain ⟨_, _, _, rfl⟩ := judged.refuses misfit
  exact List.cons_ne_nil _ _ (List.append_eq_nil_iff.mp reported.symm).1

end Workspace

end SolidScript
