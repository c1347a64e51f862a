/-
This file says which products of vectors and matrices are accepted: on trees, where sums have come
to an end or have stopped with the first defect of the operands. A product with a vector is judged
by the defects of its operands, and a product of matrices is made of products of its rows.
-/

import SolidScript.Proofs.Defects

namespace SolidScript.Tree

open Product

/-! ### Products with a vector -/

/-- A product that stops with the first of the defects is judged by them. -/
theorem judged_of_stopsAt {defects : List Warning} {sums : Except Warning (List Float)}
    {fits : Prop} {length : Nat}
    (stops : StopsAt (fun sums => sums.length = length) defects sums)
    (without : defects = [] ↔ fits) :
    Judged fits length defects (ofSums sums).1 (ofSums sums).2 := by
  cases stops with
  | ok counted =>
    have all : fits := without.mp rfl
    refine ⟨⟨fun _ => all, fun _ => ⟨_, rfl, ?_, ?_⟩⟩, fun _ => rfl, fun unfit => absurd all unfit⟩
    · exact (List.length_map _).trans counted
    · exact fun item member => (List.mem_map.mp member).imp fun _ found => found.2.symm
  | error cause further =>
    have unfit : ¬ fits := fun all => List.cons_ne_nil _ _ (without.mpr all)
    refine ⟨⟨nofun, fun all => absurd all unfit⟩, fun all => absurd all unfit, fun _ => ?_⟩
    exact ⟨rfl, cause, rfl, rfl⟩

/-- Operands that do not even have matching dimensions. -/
theorem judged_refuse {fits : Prop} (unfit : ¬ fits) (length : Nat) (cause : Warning) :
    Judged fits length [cause] (refuse cause).1 (refuse cause).2 :=
  ⟨⟨nofun, fun all => absurd all unfit⟩, fun all => absurd all unfit,
    fun _ => ⟨rfl, cause, rfl, rfl⟩⟩

theorem matrixTimesVector_judged (first rows vector : List Tree) :
    Judged (MatrixVectorFit (.vector first :: rows) vector) (rows.length + 1)
      (rowMajorDefects (.vector first :: rows) vector)
      (matrixTimesVector (.vector first :: rows) vector).1
      (matrixTimesVector (.vector first :: rows) vector).2 := by
  refine judged_of_stopsAt (rowSums_stopsAt vector 0 (.vector first :: rows))
    ((rowMajorDefects_eq_nil_iff (List.cons_ne_nil _ _)).trans ?_)
  exact ⟨fun ⟨rows, entries⟩ => ⟨rows, entries⟩, fun fit => ⟨fit.rows, fit.entries⟩⟩

theorem product_matrix_vector (first rows : List Tree) (x : Float) (xs : List Tree) :
    Judged (MatrixVectorFit (vector first :: rows) (number x :: xs)) (rows.length + 1)
      (matrixVectorDefects first rows (number x :: xs))
      (product (vector first :: rows) (number x :: xs)).1
      (product (vector first :: rows) (number x :: xs)).2 := by
  rw [product, matrixVectorDefects]
  by_cases width : first.length = (number x :: xs).length
  · rw [if_pos width, if_pos width]
    exact matrixTimesVector_judged first rows (number x :: xs)
  · rw [if_neg width, if_neg width]
    refine judged_refuse (fun fit => width ?_) _ _
    obtain ⟨entries, same, length, _⟩ := fit.rows _ List.mem_cons_self
    exact Tree.vector.inj same ▸ length

theorem vectorTimesMatrix_judged {first : List Tree} (wide : first ≠ []) {rows vector : List Tree}
    (height : vector.length = rows.length + 1) :
    Judged (VectorMatrixFit first.length vector (.vector first :: rows)) first.length
      (columnMajorDefects first.length vector (.vector first :: rows))
      (vectorTimesMatrix vector (.vector first :: rows)).1
      (vectorTimesMatrix vector (.vector first :: rows)).2 := by
  refine judged_of_stopsAt (columnSums_stopsAt first vector rows)
    ((columnMajorDefects_eq_nil_iff (mt List.eq_nil_of_length_eq_zero wide) height).trans ?_)
  exact ⟨fun ⟨entries, rows⟩ => ⟨height, rows, entries⟩, fun fit => ⟨fit.entries, fit.rows⟩⟩

/-- A matrix that starts with an empty row is taken for one without columns, whatever else is in
it. -/
theorem vectorTimesMatrix_nil (vector rows : List Tree) :
    vectorTimesMatrix vector (.vector [] :: rows) = (.vector [], []) := rfl

/-- A vector that starts with a number times a matrix. Only if the matrix starts with an empty row,
and is as high as the vector is long, defects pass unseen. The product is empty then. -/
theorem product_vector_matrix (x : Float) (xs first rows : List Tree) :
    let fit := VectorMatrixFit first.length (number x :: xs) (vector first :: rows)
    let found := product (number x :: xs) (vector first :: rows)
    (Judged fit first.length (vectorMatrixDefects (number x :: xs) first rows) found.1 found.2 ↔
        (xs.length = rows.length → first = [] → fit)) ∧
      (xs.length = rows.length → first = [] → found = (vector [], [])) := by
  intro fit found
  have unfolded : found = if (number x :: xs).length = rows.length + 1 then
      vectorTimesMatrix (number x :: xs) (vector first :: rows)
      else refuse (.dimensions (number x :: xs).length (rows.length + 1)) := rfl
  by_cases height : xs.length = rows.length
  · have whole : (number x :: xs).length = rows.length + 1 := congrArg Nat.succ height
    rw [vectorMatrixDefects, if_pos whole]
    rw [if_pos whole] at unfolded
    by_cases empty : first = []
    · subst empty
      rw [vectorTimesMatrix_nil] at unfolded
      rw [unfolded]
      have accepted : IsNumberRow 0 (vector []) := ⟨[], rfl, rfl, nofun⟩
      refine ⟨⟨fun judged _ _ => judged.accepts.mp accepted, fun fits => ?_⟩, fun _ _ => rfl⟩
      have all := fits height rfl
      exact ⟨⟨fun _ => all, fun _ => accepted⟩, fun _ => rfl, fun unfit => absurd all unfit⟩
    · rw [unfolded]
      exact ⟨iff_of_true (vectorTimesMatrix_judged empty whole) fun _ same => absurd same empty,
        fun _ same => absurd same empty⟩
  · have apart : (number x :: xs).length ≠ rows.length + 1 := fun same =>
      height (Nat.succ.inj same)
    rw [vectorMatrixDefects, if_neg apart]
    rw [if_neg apart] at unfolded
    rw [unfolded]
    exact ⟨iff_of_true (judged_refuse (fun all : fit => apart all.height) _ _)
      fun same => absurd same height, fun same => absurd same height⟩

/-! ### Inner products -/

theorem exists_dot?_iff {xs ys : List Entry} (length : xs.length = ys.length) (sum : Float) :
    (∃ total, dot? sum xs ys = some total) ↔
      (∀ x ∈ xs, ∃ a, x = some a) ∧ ∀ y ∈ ys, ∃ b, y = some b := by
  induction xs generalizing ys sum with
  | nil =>
    obtain rfl := List.eq_nil_of_length_eq_zero length.symm
    exact ⟨fun _ => ⟨nofun, nofun⟩, fun _ => ⟨sum, rfl⟩⟩
  | cons x xs inductionHypothesis =>
    cases ys with
    | nil => contradiction
    | cons y ys =>
      rw [List.forall_mem_cons, List.forall_mem_cons]
      cases x with
      | none => exact ⟨nofun, nofun⟩
      | some a =>
        cases y with
        | none => exact ⟨nofun, nofun⟩
        | some b =>
          refine (inductionHypothesis (Nat.succ.inj length) (sum + a * b)).trans ?_
          exact ⟨fun ⟨left, right⟩ => ⟨⟨⟨a, rfl⟩, left⟩, ⟨b, rfl⟩, right⟩,
            fun ⟨⟨_, left⟩, _, right⟩ => ⟨left, right⟩⟩

theorem product_vectors (x y : Float) (xs ys : List Tree) :
    JudgedSilently (VectorsFit (number x :: xs) (number y :: ys))
      (product (number x :: xs) (number y :: ys)).1
      (product (number x :: xs) (number y :: ys)).2 := by
  have refused : ¬ ∃ z, undefined = number z := by
    rintro ⟨z, same⟩
    cases same
  rw [product]
  by_cases length : (number x :: xs).length = (number y :: ys).length
  · rw [if_pos length]
    have numbers : ∀ items : List Tree,
        (∀ entry ∈ items.map number?, ∃ a, entry = some a) ↔ AreNumbers items := by
      intro items
      simp only [List.forall_mem_map, number?_eq_some_iff, AreNumbers]
    have counted :
        ((number x :: xs).map number?).length = ((number y :: ys).map number?).length := by
      rw [List.length_map, List.length_map, length]
    have found := exists_dot?_iff counted 0
    rw [numbers, numbers] at found
    have fit : VectorsFit (number x :: xs) (number y :: ys) ↔
        AreNumbers (number x :: xs) ∧ AreNumbers (number y :: ys) :=
      ⟨fun fit => ⟨fit.left, fit.right⟩, fun both => ⟨length, both.1, both.2⟩⟩
    rw [fit, ← found]
    cases dot? 0 ((number x :: xs).map number?) ((number y :: ys).map number?) with
    | none =>
      refine ⟨iff_of_false refused ?_, fun _ => rfl, rfl⟩
      rintro ⟨total, same⟩
      cases same
    | some total =>
      exact ⟨iff_of_true ⟨total, rfl⟩ ⟨total, rfl⟩, fun unfit => absurd ⟨total, rfl⟩ unfit, rfl⟩
  · rw [if_neg length]
    exact ⟨iff_of_false refused fun fit => length fit.length, fun _ => rfl, rfl⟩

/-! ### Products of matrices -/

theorem Judged.undefined_or {fits : Prop} {length : Nat} {defects warned : List Warning}
    {product : Tree} (judged : Judged fits length defects product warned) :
    product = undefined ∨ IsNumberRow length product := by
  by_cases all : fits
  · exact Or.inr (judged.accepts.mpr all)
  · exact Or.inl (judged.refuses all).1

/-- The outcome of the product of a row, which is as long as a matrix is high, with the matrix. -/
def RowGives (matrix : List Tree) (row : Tree) (outcome : Tree × List Warning) : Prop :=
  ∃ entries, row = vector entries ∧ entries.length = matrix.length ∧
    vectorTimesMatrix entries matrix = outcome

theorem exists_rowGives {matrix rows : List Tree} (fits : ∀ row ∈ rows, IsRow matrix.length row) :
    ∃ outcomes, List.Forall₂ (RowGives matrix) rows outcomes := by
  induction rows with
  | nil => exact ⟨[], .nil⟩
  | cons row rows inductionHypothesis =>
    obtain ⟨entries, rfl, length⟩ := fits row List.mem_cons_self
    obtain ⟨outcomes, rest⟩ :=
      inductionHypothesis fun other member => fits other (List.mem_cons_of_mem _ member)
    exact ⟨_, .cons ⟨entries, rfl, length, rfl⟩ rest⟩

theorem rowProducts_cons {matrix entries : List Tree} (length : entries.length = matrix.length)
    (found : List Tree) (place : Nat) (rows : List Tree) :
    rowProducts matrix found place (vector entries :: rows) =
      ((rowProducts matrix (found ++ [(vectorTimesMatrix entries matrix).1]) (place + 1) rows).1,
        (vectorTimesMatrix entries matrix).2 ++
          (rowProducts matrix (found ++ [(vectorTimesMatrix entries matrix).1]) (place + 1)
            rows).2) := by
  rw [rowProducts, if_pos length]

/-- If all rows fit, each is replaced by its product with the matrix, whatever that is. -/
theorem rowProducts_of_rowGives {matrix rows found : List Tree} {place : Nat}
    {outcomes : List (Tree × List Warning)}
    (each : List.Forall₂ (RowGives matrix) rows outcomes) :
    rowProducts matrix found place rows =
      (vector (found ++ outcomes.map Prod.fst), outcomes.flatMap Prod.snd) := by
  induction each generalizing found place with
  | nil => rw [rowProducts, List.map_nil, List.append_nil, List.flatMap_nil]
  | cons head _ inductionHypothesis =>
    obtain ⟨entries, rfl, length, rfl⟩ := head
    rw [rowProducts_cons length, inductionHypothesis, List.append_assoc]
    rfl

theorem rowProducts_of_not_isRow {matrix rows found : List Tree} {place : Nat}
    (unfit : ∃ row ∈ rows, ¬ IsRow matrix.length row) :
    (rowProducts matrix found place rows).1 = undefined ∧
      (rowProducts matrix found place rows).2 ≠ [] := by
  induction rows generalizing found place with
  | nil =>
    obtain ⟨row, member, _⟩ := unfit
    contradiction
  | cons row rows inductionHypothesis =>
    by_cases fits : IsRow matrix.length row
    · obtain ⟨entries, rfl, length⟩ := fits
      obtain ⟨other, member, misshapen⟩ := unfit
      rcases List.mem_cons.mp member with rfl | later
      · exact absurd ⟨entries, rfl, length⟩ misshapen
      rw [rowProducts_cons length]
      obtain ⟨undefined, warned⟩ := inductionHypothesis ⟨other, later, misshapen⟩
      exact ⟨undefined, fun none => warned (List.append_eq_nil_iff.mp none).2⟩
    · have refused : rowProducts matrix found place (row :: rows) = refuse (.raggedRow place) := by
        cases row with
        | vector entries =>
          rw [rowProducts, if_neg fun length => fits ⟨entries, rfl, length⟩]
        | _ => rfl
      rw [refused]
      exact ⟨rfl, List.cons_ne_nil _ _⟩

theorem RowGives.undefined_or {first rows : List Tree} {row : Tree}
    {outcome : Tree × List Warning} (gives : RowGives (vector first :: rows) row outcome) :
    outcome.1 = undefined ∨ IsNumberRow first.length outcome.1 := by
  obtain ⟨entries, _, length, rfl⟩ := gives
  by_cases empty : first = []
  · subst empty
    exact Or.inr ⟨[], rfl, rfl, nofun⟩
  · exact (vectorTimesMatrix_judged empty length).undefined_or

/-- A row of numbers times a matrix that it fits is a row of numbers. -/
theorem RowGives.accepted {first rows left : List Tree} {row : Tree} {outcome : Tree × List Warning}
    (gives : RowGives (vector first :: rows) row outcome) (member : row ∈ left)
    (fit : MatricesFit first.length left (vector first :: rows)) :
    IsNumberRow first.length outcome.1 := by
  obtain ⟨entries, rfl, length, rfl⟩ := gives
  by_cases empty : first = []
  · subst empty
    exact ⟨[], rfl, rfl, nofun⟩
  · obtain ⟨rowsLeft, rowsRight⟩ := fit.numbers (mt List.eq_nil_of_length_eq_zero empty)
    obtain ⟨others, same, _, numbers⟩ := rowsLeft _ member
    obtain rfl := Tree.vector.inj same
    exact (vectorTimesMatrix_judged empty length).accepts.mpr ⟨length, rowsRight, numbers⟩

section Matrices

variable {firstLeft firstRight rowsLeft rowsRight : List Tree}

/-- If all rows of the left matrix are as long as the right one is high, each is multiplied. -/
theorem product_of_isRow
    (fits : ∀ row ∈ vector firstLeft :: rowsLeft, IsRow (rowsRight.length + 1) row) :
    ∃ outcomes, List.Forall₂ (RowGives (vector firstRight :: rowsRight))
        (vector firstLeft :: rowsLeft) outcomes ∧
      product (vector firstLeft :: rowsLeft) (vector firstRight :: rowsRight) =
        (vector (outcomes.map Prod.fst), outcomes.flatMap Prod.snd) := by
  have width : firstLeft.length = (vector firstRight :: rowsRight).length := by
    obtain ⟨entries, same, length⟩ := fits _ List.mem_cons_self
    exact Tree.vector.inj same ▸ length
  obtain ⟨outcomes, each⟩ : ∃ outcomes, List.Forall₂ (RowGives (vector firstRight :: rowsRight))
      (vector firstLeft :: rowsLeft) outcomes := exists_rowGives fits
  refine ⟨outcomes, each, ?_⟩
  rw [product, if_pos width, rowProducts_of_rowGives each, List.nil_append]

theorem product_of_not_isRow
    (unfit : ¬ ∀ row ∈ vector firstLeft :: rowsLeft, IsRow (rowsRight.length + 1) row) :
    (product (vector firstLeft :: rowsLeft) (vector firstRight :: rowsRight)).1 = undefined ∧
      (product (vector firstLeft :: rowsLeft) (vector firstRight :: rowsRight)).2 ≠ [] := by
  rw [product]
  by_cases width : firstLeft.length = (vector firstRight :: rowsRight).length
  · rw [if_pos width]
    simp only [not_forall, exists_prop] at unfit
    exact rowProducts_of_not_isRow unfit
  · rw [if_neg width]
    exact ⟨rfl, List.cons_ne_nil _ _⟩

end Matrices

/-- A product of matrices is all or nothing, unless all rows of the left one are as long as the
right one is high and something else is wrong. Rows that cannot be multiplied then leave the
undefined value in their places. -/
theorem product_matrices (firstLeft rowsLeft firstRight rowsRight : List Tree) :
    let left := vector firstLeft :: rowsLeft
    let right := vector firstRight :: rowsRight
    let fit := MatricesFit firstRight.length left right
    let found := product left right
    (AllOrNothing fit found.1 found.2 ↔ ((∀ row ∈ left, IsRow right.length row) → fit)) ∧
      ((∀ row ∈ left, IsRow right.length row) → ∃ images, found.1 = vector images ∧
        images.length = left.length ∧
        ∀ image ∈ images, image = undefined ∨ IsNumberRow firstRight.length image) := by
  intro left right fit found
  by_cases fits : ∀ row ∈ left, IsRow right.length row
  · obtain ⟨outcomes, each, same⟩ := product_of_isRow fits
    have given : ∀ image ∈ outcomes.map Prod.fst, ∃ row ∈ left, ∃ outcome,
        RowGives right row outcome ∧ outcome.1 = image := by
      intro image member
      obtain ⟨outcome, inOutcomes, same⟩ := List.mem_map.mp member
      obtain ⟨row, inLeft, gives⟩ := exists_mem_of_forall₂ each.flip inOutcomes
      exact ⟨row, inLeft, outcome, gives, same⟩
    show (AllOrNothing fit (product left right).1 (product left right).2 ↔ _) ∧
      (_ → ∃ images, (product left right).1 = vector images ∧ _)
    rw [same]
    refine ⟨⟨fun judged _ => ?_, fun all => ⟨Or.inr ?_, fun unfit => absurd (all fits) unfit⟩⟩,
      fun _ => ⟨_, rfl, ?_, fun image member => ?_⟩⟩
    · by_contra unfit
      exact Tree.noConfusion (judged.refuses unfit).1
    · refine ⟨firstRight.length, _, rfl, fun image member => ?_⟩
      obtain ⟨row, inLeft, outcome, gives, rfl⟩ := given image member
      exact gives.accepted inLeft (all fits)
    · rw [List.length_map, each.length_eq]
    · obtain ⟨row, _, outcome, gives, rfl⟩ := given image member
      exact gives.undefined_or
  · have refused : found.1 = undefined ∧ found.2 ≠ [] := product_of_not_isRow fits
    exact ⟨iff_of_true ⟨Or.inl refused.1, fun _ => refused⟩ fun all => absurd all fits,
      fun all => absurd all fits⟩

end SolidScript.Tree
