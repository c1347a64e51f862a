/-
This file proves that the sums of products of vectors and matrices stop with the first defect of
their operands, and give one number for each row or column if there is none. That is shown place by
place: work that stops with the first of some defects, and then goes on to work that stops with the
first of others, stops with the first of all.
-/

import SolidScript.Proofs.Lists
import SolidScript.Proofs.Tree.Arithmetic
import SolidScript.Proofs.Tree.Matrix

namespace SolidScript

variable {α β : Type}

/-! ### Work that stops with the first defect -/

/-- The work stops with the first of the defects. If there is none, it comes to an end, with a
result that meets the condition. -/
inductive StopsAt (condition : α → Prop) : List Warning → Except Warning α → Prop
  | ok {result : α} (meets : condition result) : StopsAt condition [] (.ok result)
  | error (cause : Warning) (further : List Warning) :
      StopsAt condition (cause :: further) (.error cause)

namespace StopsAt

variable {condition : α → Prop} {last : β → Prop} {first second : List Warning}
  {work : Except Warning α}

theorem bind (stops : StopsAt condition first work) {next : α → Except Warning β}
    (continues : ∀ result, condition result → StopsAt last second (next result)) :
    StopsAt last (first ++ second) (work >>= next) := by
  cases stops with
  | ok meets => exact continues _ meets
  | error cause further => exact .error cause _

/-- A last step has no defects of its own. -/
theorem map (stops : StopsAt condition first work) {next : α → β}
    (meets : ∀ result, condition result → last (next result)) :
    StopsAt last first (do return next (← work)) := by
  cases stops with
  | ok holds => exact .ok (meets _ holds)
  | error cause further => exact .error cause further

/-- The number at a place, or the defect of the place. -/
theorem number {entry : Option Float} (cause : Warning) {next : Float → Except Warning β}
    (continues : ∀ x, StopsAt last second (next x)) :
    StopsAt last (Tree.missing cause entry ++ second)
      (match entry with
        | none => .error cause
        | some x => next x) := by
  cases entry with
  | none => exact .error cause second
  | some x => exact continues x

theorem mapM (values : List α) {work : α → Except Warning β} {defects : α → List Warning}
    (each : ∀ value, StopsAt last (defects value) (work value)) :
    StopsAt (fun results => results.length = values.length) (values.flatMap defects)
      (values.mapM work) := by
  induction values with
  | nil => exact .ok rfl
  | cons value values inductionHypothesis =>
    rw [List.flatMap_cons, List.mapM_cons]
    exact (each value).bind fun head _ => inductionHypothesis.map fun tail length =>
      congrArg Nat.succ length

end StopsAt

namespace Tree

/-! ### Rows and numbers -/

theorem entries?_eq_some_iff {columns : Nat} {tree : Tree} {entries : List Tree} :
    tree.entries? columns = some entries ↔ tree = vector entries ∧ entries.length = columns := by
  cases tree with
  | vector items =>
    rw [entries?, vector.injEq]
    by_cases fits : items.length = columns
    · rw [if_pos fits, Option.some.injEq]
      exact ⟨fun same => ⟨same, same ▸ fits⟩, And.left⟩
    · rw [if_neg fits]
      exact ⟨nofun, fun ⟨same, length⟩ => absurd (same ▸ length) fits⟩
  | _ => exact ⟨nofun, nofun⟩

/-- A row that was read, if it is of the wanted length, has the numbers of its entries. -/
theorem filter_row (columns : Nat) (tree : Tree) :
    tree.row.filter (·.size == columns) =
      (tree.entries? columns).map fun entries => (entries.map number?).toArray := by
  cases tree with
  | vector items =>
    rw [row, entries?, Option.filter_some, List.size_toArray, List.length_map]
    by_cases fits : items.length = columns
    · rw [if_pos (beq_iff_eq.mpr fits), if_pos fits]
      rfl
    · rw [if_neg fun same => fits (beq_iff_eq.mp same), if_neg fits]
      rfl
  | _ => rfl

theorem number?_eq_some_iff {tree : Tree} {x : Float} :
    tree.number? = some x ↔ tree = number x := by
  cases tree with
  | number y => rw [number?, Option.some.injEq, number.injEq]
  | _ => exact ⟨nofun, nofun⟩

theorem missing_eq_nil_iff {cause : Warning} {entry : Option Float} :
    missing cause entry = [] ↔ ∃ x, entry = some x := by
  cases entry with
  | none => exact ⟨nofun, nofun⟩
  | some x => exact ⟨fun _ => ⟨x, rfl⟩, fun _ => rfl⟩

end Tree

open Product SolidScript.Tree

/-! ### Rows times a vector -/

theorem rowSum_stopsAt (place column : Nat) (sum : Float) (entries vector : List Tree) :
    StopsAt (fun _ => True)
      (((entries.zip vector).zipIdx column).flatMap fun ((entry, x), column) =>
        missing (.matrixEntry place column) entry.number? ++
          missing (.vectorEntry column) x.number?)
      (rowSum place column sum (entries.map number?) (vector.map number?)) := by
  induction entries generalizing column sum vector with
  | nil => exact .ok trivial
  | cons entry entries inductionHypothesis =>
    cases vector with
    | nil => exact .ok trivial
    | cons x vector =>
      rw [List.zip_cons_cons, List.zipIdx_cons, List.flatMap_cons, List.append_assoc]
      refine .number _ fun e => .number _ fun y => ?_
      exact inductionHypothesis (column + 1) (sum + e * y) vector

theorem rowSums_stopsAt (vector : List Tree) (place : Nat) (matrix : List Tree) :
    StopsAt (fun sums => sums.length = matrix.length)
      ((matrix.zipIdx place).flatMap fun (row, place) => rowDefects vector place row)
      (rowSums (vector.map number?) place (matrix.map row)) := by
  induction matrix generalizing place with
  | nil => exact .ok rfl
  | cons first matrix inductionHypothesis =>
    rw [List.map_cons, rowSums, List.length_map, filter_row]
    simp only [List.zipIdx_cons, List.flatMap_cons, rowDefects]
    cases first.entries? vector.length with
    | none => exact .error _ _
    | some entries =>
      refine (rowSum_stopsAt place 0 0 entries vector).bind fun sum _ => ?_
      exact (inductionHypothesis (place + 1)).map fun sums length => congrArg Nat.succ length

/-! ### A vector times columns -/

theorem columnSum_stopsAt (columns column place : Nat) (sum : Float) (vector matrix : List Tree) :
    StopsAt (fun _ => True)
      (((vector.zip matrix).zipIdx place).flatMap fun ((x, row), place) =>
        cellDefects columns column place x row)
      (columnSum columns column place sum (vector.map number?) (matrix.map row)) := by
  induction vector generalizing place sum matrix with
  | nil => exact .ok trivial
  | cons x vector inductionHypothesis =>
    cases matrix with
    | nil => exact .ok trivial
    | cons first matrix =>
      rw [List.map_cons, List.map_cons, columnSum, filter_row]
      simp only [List.zip_cons_cons, List.zipIdx_cons, List.flatMap_cons, cellDefects]
      cases first.entries? columns with
      | none => exact .error _ _
      | some entries =>
        have entry : (entries.map number?).toArray[column]?.join =
            entries[column]?.bind number? := by
          rw [List.getElem?_toArray, List.getElem?_map]
          cases entries[column]? <;> rfl
        dsimp only [Option.map_some]
        rw [entry, List.append_assoc]
        refine .number _ fun y => .number _ fun e => ?_
        exact inductionHypothesis (place + 1) (sum + y * e) matrix

theorem columnSums_stopsAt (first vector matrix : List Tree) :
    StopsAt (fun sums => sums.length = first.length)
      (columnMajorDefects first.length vector (.vector first :: matrix))
      (columnSums (vector.map number?) ((.vector first :: matrix).map row)) := by
  have columns : (first.map number?).toArray.size = first.length := by
    rw [List.size_toArray, List.length_map]
  rw [List.map_cons, row, columnSums, columns]
  have stops := StopsAt.mapM (List.range first.length) fun column =>
    columnSum_stopsAt first.length column 0 0 vector (.vector first :: matrix)
  rw [List.length_range] at stops
  exact stops

/-! ### Operands without defects -/

namespace Tree

theorem rowDefects_eq_nil_iff {vector : List Tree} {place : Nat} {row : Tree} :
    rowDefects vector place row = [] ↔ IsNumberRow vector.length row ∧ AreNumbers vector := by
  unfold rowDefects
  cases read : row.entries? vector.length with
  | none =>
    refine ⟨nofun, fun ⟨⟨entries, same, length, _⟩, _⟩ => ?_⟩
    rw [entries?_eq_some_iff.mpr ⟨same, length⟩] at read
    contradiction
  | some entries =>
    obtain ⟨rfl, length⟩ := entries?_eq_some_iff.mp read
    have numbers : IsNumberRow vector.length (.vector entries) ↔ AreNumbers entries := by
      refine ⟨?_, fun numbers => ⟨entries, rfl, length, numbers⟩⟩
      rintro ⟨others, same, _, numbers⟩
      rw [Tree.vector.inj same]
      exact numbers
    rw [numbers, List.flatMap_eq_nil_iff, AreNumbers, AreNumbers, ← forall_mem_zip length]
    simp only [List.append_eq_nil_iff, missing_eq_nil_iff, number?_eq_some_iff]
    exact forall_mem_zipIdx fun pair : Tree × Tree =>
      (∃ x, pair.1 = number x) ∧ ∃ x, pair.2 = number x

theorem rowMajorDefects_eq_nil_iff {matrix vector : List Tree} (rows : matrix ≠ []) :
    rowMajorDefects matrix vector = [] ↔
      (∀ row ∈ matrix, IsNumberRow vector.length row) ∧ AreNumbers vector := by
  obtain ⟨first, further, rfl⟩ := List.exists_cons_of_ne_nil rows
  rw [rowMajorDefects, List.flatMap_eq_nil_iff]
  simp only [rowDefects_eq_nil_iff]
  rw [forall_mem_zipIdx fun row => IsNumberRow vector.length row ∧ AreNumbers vector]
  constructor
  · exact fun fits => ⟨fun row member => (fits row member).1, (fits first List.mem_cons_self).2⟩
  · exact fun ⟨grid, numbers⟩ row member => ⟨grid row member, numbers⟩

/-- The tree is a vector of so many items, and a number stands in the given column. -/
def HasNumber (columns column : Nat) (tree : Tree) : Prop :=
  ∃ entries, tree = vector entries ∧ entries.length = columns ∧
    ∃ x, entries[column]? = some (number x)

theorem forall_hasNumber_iff {columns : Nat} {row : Tree} (wide : columns ≠ 0) :
    (∀ column < columns, HasNumber columns column row) ↔ IsNumberRow columns row := by
  constructor
  · intro each
    obtain ⟨entries, rfl, length, _⟩ := each 0 (Nat.pos_of_ne_zero wide)
    refine ⟨entries, rfl, length, fun entry member => ?_⟩
    obtain ⟨column, inside, rfl⟩ := List.mem_iff_getElem.mp member
    obtain ⟨others, same, _, x, found⟩ := each column (length ▸ inside)
    obtain rfl := Tree.vector.inj same
    exact ⟨x, Option.some.inj ((List.getElem?_eq_getElem inside).symm.trans found)⟩
  · rintro ⟨entries, rfl, length, numbers⟩ column inside
    have within : column < entries.length := length ▸ inside
    obtain ⟨x, same⟩ := numbers _ (List.getElem_mem within)
    exact ⟨entries, rfl, length, x, (List.getElem?_eq_getElem within).trans (congrArg some same)⟩

theorem cellDefects_eq_nil_iff {columns column place : Nat} {x row : Tree} :
    cellDefects columns column place x row = [] ↔
      (∃ y, x = number y) ∧ HasNumber columns column row := by
  unfold cellDefects
  cases read : row.entries? columns with
  | none =>
    refine ⟨nofun, fun ⟨_, entries, same, length, _⟩ => ?_⟩
    rw [entries?_eq_some_iff.mpr ⟨same, length⟩] at read
    contradiction
  | some entries =>
    obtain ⟨rfl, length⟩ := entries?_eq_some_iff.mp read
    simp only [List.append_eq_nil_iff, missing_eq_nil_iff, number?_eq_some_iff,
      Option.bind_eq_some_iff]
    refine and_congr_right fun _ => ⟨?_, ?_⟩
    · rintro ⟨y, _, found, rfl⟩
      exact ⟨entries, rfl, length, y, found⟩
    · rintro ⟨others, same, _, y, found⟩
      obtain rfl := Tree.vector.inj same
      exact ⟨y, _, found, rfl⟩

theorem columnMajorDefects_eq_nil_iff {columns : Nat} {vector matrix : List Tree}
    (wide : columns ≠ 0) (height : vector.length = matrix.length) :
    columnMajorDefects columns vector matrix = [] ↔
      AreNumbers vector ∧ ∀ row ∈ matrix, IsNumberRow columns row := by
  have inColumn : ∀ column, (∀ pair ∈ (vector.zip matrix).zipIdx,
      (∃ y, pair.1.1 = number y) ∧ HasNumber columns column pair.1.2) ↔
        AreNumbers vector ∧ ∀ row ∈ matrix, HasNumber columns column row := by
    intro column
    rw [forall_mem_zipIdx fun pair : Tree × Tree =>
      (∃ y, pair.1 = number y) ∧ HasNumber columns column pair.2]
    exact forall_mem_zip height (fun x => ∃ y, x = number y) (HasNumber columns column)
  simp only [columnMajorDefects, List.flatMap_eq_nil_iff, List.mem_range, cellDefects_eq_nil_iff,
    inColumn, ← forall_hasNumber_iff wide]
  constructor
  · exact fun fits => ⟨(fits 0 (Nat.pos_of_ne_zero wide)).1,
      fun row member column inside => (fits column inside).2 row member⟩
  · exact fun ⟨numbers, grid⟩ column inside =>
      ⟨numbers, fun row member => grid row member column inside⟩

end Tree

end SolidScript
