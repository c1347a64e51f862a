/-
This file proves that products of values are those of their trees, with the same warnings. Operands
and rows are read as slices that overlap in time, and may be one and the same storage. A vector that
is at work keeps all its rows alive while further rows are flattened.
-/

import SolidScript.Proofs.Computing

namespace SolidScript

open Value (handles)

variable {sure : Prop} {atWork : List Address} {base memory : Memory} {warned : List Warning}

/-! ### Entries -/

theorem number?_eq {value : Value} {tree : Tree} (denotes : Denotes memory value tree) :
    value.number? = tree.number? := by
  cases denotes with
  | _ => rfl

theorem map_number?_eq {values : List Value} {trees : List Tree}
    (each : List.Forall₂ (Denotes memory) values trees) :
    values.map Value.number? = trees.map Tree.number? := by
  induction each with
  | nil => rfl
  | cons head _ inductionHypothesis =>
    rw [List.map_cons, List.map_cons, number?_eq head, inductionHypothesis]

/-! ### Slices beside a vector that is collected -/

namespace Collects

variable {found : List Tree} {product : Address}

theorem lend (collects : Collects sure base atWork warned [] found product memory)
    {address : Address} {lent : Memory} (sound : Sound sure lent (product :: atWork))
    (opened : Evolves [] [address] memory lent) :
    Collects sure base atWork warned [address] found product lent := by
  have whole := collects.evolves.trans opened
  rw [List.append_nil] at whole
  exact ⟨sound, opened.denotes collects.denotes, whole, collects.fresh⟩

/-- One more result is appended that is computed on a slice, while the slice is still being read. -/
theorem reading (collects : Collects sure base atWork warned [] found product memory)
    (small : Prop) (expected : Tree × List Warning) {address : Address}
    {work : Array Value → Action Value} (alive : memory.owners address ≠ 0)
    (works : ∀ lent, Sound sure lent (product :: atWork) → Evolves [] [address] memory lent →
      lent.excess address = 0 → (work (lent.contents address).toArray).Ends lent
        (Yields sure small lent (product :: atWork) expected)) :
    (Memory.reading address fun elements => do
      Memory.append product (← work elements)).Ends memory fun grown after =>
        ∃ tree further,
          Collects sure base atWork (warned ++ further) [] (found ++ [tree]) grown after ∧
            (sure → small → (tree, further) = expected) := by
  refine (Memory.slice_ends collects.sound alive).bind fun slice lent opening => ?_
  obtain ⟨rfl, lentSound, opened, flat⟩ := opening
  refine ((works lent lentSound opened flat).bind fun image imaged yields => ?_ :
    ((work _ >>= Memory.append product : Action Address).Ends lent fun grown last =>
      ∃ tree further,
        Collects sure base atWork (warned ++ further) [address] (found ++ [tree]) grown last ∧
          (sure → small → (tree, further) = expected))).bind ?_
  · obtain ⟨tree, further, computes, exact'⟩ := yields
    exact ((collects.lend lentSound opened).append computes).imp
      fun grown last appended => ⟨tree, further, appended.1, exact'⟩
  · rintro grown last ⟨tree, further, collected, exact'⟩
    refine (Memory.unslice_ends collected.sound collected.evolves).bind fun _ closed closing => ?_
    obtain ⟨closedSound, evolves, carries⟩ := closing
    have denotes := carries.denotes collected.denotes (Memory.has_of_denotes collected.denotes)
    exact .pure ⟨tree, further, ⟨closedSound, denotes, evolves, collected.fresh⟩, exact'⟩

end Collects

namespace Product

/-! ### Rows -/

/-- The storages of the rows that are vectors. -/
def rowStorages (rows : List Value) : List Address := rows.filterMap Value.vector?

/-- All rows of a matrix that a vector at work holds are read. -/
theorem readRows_ends {holder : Address} {matrix : List Value} {items : List Tree}
    (sound : Sound sure memory atWork) (member : holder ∈ atWork)
    (stores : Memory.Stores memory holder matrix items) {rows : List Value} {trees : List Tree}
    (held : ∀ row ∈ rows, row ∈ matrix) (each : List.Forall₂ (Denotes memory) rows trees) :
    (readRows rows).Ends memory fun found after =>
      (sure → (∀ tree ∈ trees, tree.small = true) → found = trees.map Tree.row) ∧
        Sound sure after atWork ∧ Evolves [] (rowStorages rows) memory after := by
  induction rows generalizing memory trees with
  | nil =>
    cases each
    exact .pure ⟨fun _ _ => rfl, sound, .refl sound⟩
  | cons row rows inductionHypothesis =>
    cases each with
    | @cons _ tree _ trees head rest =>
      have further := fun row member => held row (List.mem_cons_of_mem _ member)
      by_cases isVector : row.vector? = none
      · have absent : tree.row = none := by
          cases head with
          | vector => contradiction
          | _ => rfl
        have step : (do return none :: (← readRows rows) : Action (List Row)).Ends memory
            fun found after => (sure → (∀ item ∈ tree :: trees, item.small = true) →
                found = (tree :: trees).map Tree.row) ∧ Sound sure after atWork ∧
              Evolves [] (rowStorages (row :: rows)) memory after := by
          refine (inductionHypothesis sound stores further rest).bind
            fun found after ⟨same, afterSound, evolves⟩ =>
              .pure ⟨fun holds small => ?_, afterSound, ?_⟩
          · rw [same holds fun item member => small item (List.mem_cons_of_mem _ member),
              List.map_cons, absent]
          · rw [rowStorages, List.filterMap_cons_none isVector]
            exact evolves
        cases row with
        | vector => contradiction
        | _ => exact step
      · cases row with
        | vector address =>
          obtain ⟨entries, entryItems, rfl, rowShows⟩ := denotes_vector_iff.mp head
          have inRow : address ∈ handles matrix :=
            mem_handles.mpr (Or.inl (held _ List.mem_cons_self))
          have alive := stores.alive sound (sound.owned.alive_of_mem member) address inRow
          refine (Memory.slice_ends sound alive).bind
            fun slice sliced ⟨same, slicedSound, evolves, flat⟩ => ?_
          subst same
          have slicedStores := stores.carried evolves.carries
          have living := slicedStores.alive slicedSound (slicedSound.owned.alive_of_mem member)
            address inRow
          obtain ⟨entryTrees, entryStores⟩ := Memory.Stores.of_flat slicedSound living flat
          refine (inductionHypothesis slicedSound slicedStores further (evolves.each rest)).bind
            fun found after ⟨found', afterSound, evolves'⟩ => .pure ⟨fun holds small => ?_,
              afterSound, evolves.trans evolves'⟩
          have few := (Tree.small_vector_iff.mp (small _ List.mem_cons_self)).1
          obtain ⟨-, same⟩ := entryStores.eq_of_shows slicedSound living holds
            (evolves.shows rowShows) few
          rw [found' holds fun item member => small item (List.mem_cons_of_mem _ member),
            List.map_cons, Tree.row, List.map_toArray, map_number?_eq entryStores.each, same]
        | _ => contradiction

/-- All rows are given back. -/
theorem closeRows_ends {before : Memory} {lent : List Address} {rows : List Value}
    (sound : Sound sure memory atWork)
    (evolves : Evolves warned (rowStorages rows ++ lent) before memory) :
    (closeRows rows).Ends memory fun _ after =>
      Sound sure after atWork ∧ Evolves warned lent before after ∧
        Carries memory.Has memory after := by
  induction rows generalizing memory with
  | nil => exact .pure ⟨sound, evolves, .refl sound.enclosed⟩
  | cons row rows inductionHypothesis =>
    cases row with
    | vector address =>
      refine (Memory.unslice_ends sound evolves).bind
        fun _ closed ⟨closedSound, whole, carries⟩ => ?_
      refine (inductionHypothesis closedSound whole).imp
        fun _ after ⟨afterSound, evolves', carries'⟩ => ⟨afterSound, evolves', ?_⟩
      exact carries.trans carries' fun _ has => Nat.lt_of_lt_of_le has carries.length
    | _ => exact inductionHypothesis sound evolves

/-! ### Sums -/

theorem refuse_ends (sound : Sound sure memory atWork) (cause : Warning) :
    (refuse cause).Ends memory
      (Computes sure memory atWork (Tree.refuse cause).1 (Tree.refuse cause).2) :=
  (Memory.warn_ends sound cause).bind fun _ _ ⟨warnedSound, evolves⟩ =>
    .pure ⟨warnedSound, .undefined, rfl, evolves⟩

theorem ofSums_ends (sound : Sound sure memory atWork) (sums : Except Warning (List Float)) :
    (ofSums sums).Ends memory
      (Computes sure memory atWork (Tree.ofSums sums).1 (Tree.ofSums sums).2) := by
  cases sums with
  | error cause => exact refuse_ends sound cause
  | ok sums =>
    have numbers :
        List.Forall₂ (Denotes memory) (sums.map Value.number) (sums.map Tree.number) := by
      rw [List.forall₂_map_left_iff, List.forall₂_map_right_iff]
      exact List.forall₂_same.mpr fun sum _ => .number sum
    have none : handles (sums.map Value.number) = [] := by
      rw [handles, List.filterMap_map, List.filterMap_eq_nil_iff]
      exact fun _ _ => rfl
    have start : Sound sure memory (handles (sums.map Value.number) ++ atWork) := by
      rw [none]
      exact sound
    have direct : ∀ value ∈ sums.map Value.number, value.isEmbedded = false := by
      intro value member
      obtain ⟨sum, _, rfl⟩ := List.mem_map.mp member
      rfl
    refine (Memory.newVector_direct_ends _ start direct numbers).bind fun result after made => ?_
    obtain ⟨_, afterSound, evolves, shows, _⟩ := made
    exact .pure ⟨afterSound, shows.vector, rfl, evolves⟩

/-- Something is computed while all rows are read. -/
theorem withRows_ends {holder : Address} {matrix : List Value} {items : List Tree}
    (sound : Sound sure memory atWork) (member : holder ∈ atWork)
    (stores : Memory.Stores memory holder matrix items)
    (compute : List Row → Except Warning (List Float)) :
    (do
      let rows ← readRows matrix
      let product ← ofSums (compute rows)
      closeRows matrix
      return product : Action Value).Ends memory
        (Yields sure (∀ item ∈ items, item.small = true) memory atWork
          (Tree.ofSums (compute (items.map Tree.row)))) := by
  refine (readRows_ends sound member stores (fun _ member => member) stores.each).bind
    fun rows opened ⟨found, openedSound, evolves⟩ => ?_
  refine (ofSums_ends openedSound (compute rows)).bind fun product computed computes => ?_
  have whole := evolves.trans computes.evolves
  refine (closeRows_ends computes.sound whole).bind
    fun _ closed ⟨closedSound, evolves', carries⟩ => ?_
  have denotes := carries.denotes computes.denotes (Memory.has_of_denotes computes.denotes)
  refine .pure ⟨_, _, ⟨closedSound, denotes, computes.direct, evolves'⟩, fun holds small => ?_⟩
  rw [found holds small]
  rfl

theorem vectorTimesMatrix_ends {holder : Address} {vector matrix : List Value}
    {xs items : List Tree} (sound : Sound sure memory atWork) (member : holder ∈ atWork)
    (stores : Memory.Stores memory holder matrix items)
    (each : List.Forall₂ (Denotes memory) vector xs) :
    (vectorTimesMatrix vector matrix).Ends memory
      (Yields sure (∀ item ∈ items, item.small = true) memory atWork
        (Tree.vectorTimesMatrix xs items)) := by
  rw [vectorTimesMatrix, Tree.vectorTimesMatrix, map_number?_eq each]
  exact withRows_ends sound member stores (columnSums (xs.map Tree.number?))

theorem matrixTimesVector_ends {holder : Address} {vector matrix : List Value}
    {xs items : List Tree} (sound : Sound sure memory atWork) (member : holder ∈ atWork)
    (stores : Memory.Stores memory holder matrix items)
    (each : List.Forall₂ (Denotes memory) vector xs) :
    (matrixTimesVector matrix vector).Ends memory
      (Yields sure (∀ item ∈ items, item.small = true) memory atWork
        (Tree.matrixTimesVector items xs)) := by
  rw [matrixTimesVector, Tree.matrixTimesVector, map_number?_eq each]
  exact withRows_ends sound member stores (rowSums (xs.map Tree.number?) 0)

/-! ### Matrices -/

variable {left right : List Value} {xs ys found : List Tree} {product : Address}

/-- Work on a slice yields what it yields. -/
theorem reading_yields {address : Address} {small : Prop} {expected : Tree × List Warning}
    {work : Array Value → Action Value} (sound : Sound sure memory atWork)
    (alive : memory.owners address ≠ 0)
    (works : ∀ lent, Sound sure lent atWork → Evolves [] [address] memory lent →
      lent.excess address = 0 → (work (lent.contents address).toArray).Ends lent
        (Yields sure small lent atWork expected)) :
    (Memory.reading address work).Ends memory (Yields sure small memory atWork expected) := by
  refine (Memory.slice_ends sound alive).bind fun slice lent ⟨same, lentSound, opened, flat⟩ => ?_
  subst same
  refine (works lent lentSound opened flat).bind
    fun result worked ⟨tree, warned, computes, exact'⟩ => ?_
  refine (Memory.unslice_ends computes.sound (opened.trans computes.evolves)).bind
    fun _ closed ⟨closedSound, evolves, carries⟩ => ?_
  have denotes := carries.denotes computes.denotes (Memory.has_of_denotes computes.denotes)
  exact .pure ⟨tree, warned, ⟨closedSound, denotes, computes.direct, evolves⟩, exact'⟩

/-- A product that cannot be completed is given up. -/
theorem abandon_ends (collects : Collects sure base atWork warned [] found product memory)
    (row : Nat) :
    (abandon product row).Ends memory
      (Computes sure base atWork (Tree.refuse (.raggedRow row)).1
        (warned ++ (Tree.refuse (.raggedRow row)).2)) := by
  refine (Memory.warn_ends collects.sound (.raggedRow row)).bind
    fun _ reported ⟨reportedSound, evolves⟩ => ?_
  have released := Evolves.of_reowned reportedSound (reported.reowned_release [.vector product])
  have whole := (collects.evolves.trans evolves).trans released
  rw [List.append_nil] at whole
  exact .modify_bind (.pure ⟨reportedSound.release [.vector product], .undefined, rfl, whole⟩)

section

variable {a b : Address} (inA : a ∈ atWork) (inB : b ∈ atWork)
  (storesA : Memory.Stores base a left xs) (storesB : Memory.Stores base b right ys)

include inA storesA

theorem row_alive {entries : Address} (inRow : entries ∈ handles left)
    (sound : Sound sure memory (product :: atWork)) (carries : Carries base.Has base memory) :
    memory.owners entries ≠ 0 :=
  (storesA.carried carries).alive sound
    (sound.owned.alive_of_mem (List.mem_cons_of_mem _ inA)) entries inRow

include inB storesB

/-- The product of one row and the matrix is appended to those of the rows before. -/
theorem rowProduct_ends {entries : Address} (inRow : entries ∈ handles left)
    {elements : List Value} {items : List Tree} (rowShows : Shows base entries elements items)
    (collects : Collects sure base atWork warned [] found product memory) :
    (Memory.reading entries fun slice => do
      Memory.append product (← vectorTimesMatrix slice.toList right)).Ends memory
        fun grown after => ∃ tree further,
          Collects sure base atWork (warned ++ further) [] (found ++ [tree]) grown after ∧
            (sure → ((Tree.vector items).small = true ∧ ∀ item ∈ ys, item.small = true) →
              (tree, further) = Tree.vectorTimesMatrix items ys) := by
  have evolves := collects.evolves
  have alive := row_alive inA storesA inRow collects.sound evolves.carries
  refine collects.reading _ _ alive fun lent lentSound opened flat => ?_
  have since := (evolves.trans opened).carries
  have living := row_alive inA storesA inRow lentSound since
  obtain ⟨trees, stores⟩ := Memory.Stores.of_flat lentSound living flat
  refine (vectorTimesMatrix_ends lentSound (List.mem_cons_of_mem _ inB)
    (storesB.carried since) stores.each).imp fun _ _ yields => yields.of_eq ?_
  intro holds ⟨small, others⟩
  obtain ⟨-, same⟩ := stores.eq_of_shows lentSound living holds
    (opened.shows (evolves.shows rowShows)) (Tree.small_vector_iff.mp small).1
  exact ⟨others, by rw [same]⟩

/-- The rows and the matrix are held by vectors at work, so that they stay alive. -/
theorem rowProducts_ends {rows : List Value} {trees : List Tree} (held : ∀ row ∈ rows, row ∈ left)
    (each : List.Forall₂ (Denotes base) rows trees) (row : Nat)
    (collects : Collects sure base atWork warned [] found product memory) :
    (rowProducts right product row rows).Ends memory
      (Yields sure ((∀ tree ∈ trees, tree.small = true) ∧ ∀ item ∈ ys, item.small = true) base
        atWork ((Tree.rowProducts ys found row trees).1,
          warned ++ (Tree.rowProducts ys found row trees).2)) := by
  induction rows generalizing memory trees row warned found product with
  | nil =>
    cases each
    rw [Tree.rowProducts, List.append_nil]
    exact .pure collects.done.yields
  | cons first rows inductionHypothesis =>
    cases each with
    | @cons _ tree _ trees head rest =>
      cases first with
      | vector entries =>
        obtain ⟨elements, items, rfl, rowShows⟩ := denotes_vector_iff.mp head
        have inRow : entries ∈ handles left :=
          mem_handles.mpr (Or.inl (held _ List.mem_cons_self))
        have alive := row_alive inA storesA inRow collects.sound collects.evolves.carries
        have width : sure → (Tree.vector items).small = true →
            (memory.size entries = right.length ↔ items.length = ys.length) := by
          intro holds small
          rw [(collects.evolves.shows rowShows).size_eq (collects.sound.counts holds) alive
            (Tree.small_vector_iff.mp small).1, storesB.each.length_eq]
        refine .get_bind ?_
        by_cases fits : memory.size entries = right.length
        · rw [if_pos fits]
          refine (rowProduct_ends inA inB storesA storesB inRow rowShows collects).bind ?_
          rintro grown last ⟨image, further, collected, exact'⟩
          refine (inductionHypothesis (fun row member => held row (List.mem_cons_of_mem _ member))
            rest (row + 1) collected).imp fun _ _ yields => yields.of_eq ?_
          intro holds ⟨small, others⟩
          have smallRow := small _ List.mem_cons_self
          refine ⟨⟨fun tree member => small tree (List.mem_cons_of_mem _ member), others⟩, ?_⟩
          rw [Tree.rowProducts, if_pos ((width holds smallRow).mp fits),
            ← exact' holds ⟨smallRow, others⟩, List.append_assoc]
        · rw [if_neg fits]
          refine (abandon_ends collects row).imp
            fun _ _ computes => ⟨_, _, computes, fun holds small => ?_⟩
          have smallRow := small.1 _ List.mem_cons_self
          rw [Tree.rowProducts, if_neg fun same => fits ((width holds smallRow).mpr same)]
      | _ =>
        cases head
        exact (abandon_ends collects row).imp fun _ _ computes => computes.yields

end

theorem matrixTimesMatrix_ends {a b : Address} (sound : Sound sure memory atWork) (inA : a ∈ atWork)
    (inB : b ∈ atWork) (storesA : Memory.Stores memory a left xs)
    (storesB : Memory.Stores memory b right ys) :
    (matrixTimesMatrix left right).Ends memory
      (Yields sure ((∀ tree ∈ xs, tree.small = true) ∧ ∀ item ∈ ys, item.small = true) memory atWork
        (Tree.rowProducts ys [] 0 xs)) :=
  (Collects.start sound).bind fun _ _ collects =>
    rowProducts_ends inA inB storesA storesB (fun _ member => member) storesA.each 0 collects

/-- A matrix has the columns that its first row says. -/
theorem firstRow_ends {row : Address} {elements : List Value} {items rest others : List Tree}
    (sound : Sound sure memory atWork) (alive : memory.owners row ≠ 0)
    (shows : Shows memory row elements items) {columns : Nat} (width : columns = others.length)
    {work : Action Value} {expected : Tree × List Warning}
    (works : work.Ends memory (Yields sure ((∀ tree ∈ .vector items :: rest, tree.small = true) ∧
      ∀ item ∈ others, item.small = true) memory atWork expected)) :
    (do
      let first := (← get).size row
      if first = columns then work else refuse (.dimensions first columns) :
      Action Value).Ends memory (Yields sure
        ((∀ tree ∈ .vector items :: rest, tree.small = true) ∧ ∀ item ∈ others, item.small = true)
        memory atWork
        (if items.length = others.length then expected
          else Tree.refuse (.dimensions items.length others.length))) := by
  have known : sure → ((∀ tree ∈ .vector items :: rest, tree.small = true) ∧
      ∀ item ∈ others, item.small = true) → memory.size row = items.length :=
    fun holds small => shows.size_eq (sound.counts holds) alive
      (Tree.small_vector_iff.mp (small.1 _ List.mem_cons_self)).1
  subst width
  refine .get_bind ?_
  by_cases fits : memory.size row = others.length
  · dsimp only
    rw [if_pos fits]
    refine works.imp fun _ _ yields => yields.of_eq fun holds small => ⟨small, ?_⟩
    rw [if_pos ((known holds small).symm.trans fits)]
  · dsimp only
    rw [if_neg fits]
    refine (refuse_ends sound _).imp fun _ _ computes => ⟨_, _, computes, fun holds small => ?_⟩
    rw [← known holds small, if_neg fits]

/-- The product of the values that two flat vectors at work store. -/
theorem ofElements_ends {a b : Address} (sound : Sound sure memory atWork) (inA : a ∈ atWork)
    (inB : b ∈ atWork) (storesA : Memory.Stores memory a left xs)
    (storesB : Memory.Stores memory b right ys) :
    (ofElements left right).Ends memory
      (Yields sure ((∀ tree ∈ xs, tree.small = true) ∧ ∀ item ∈ ys, item.small = true) memory atWork
        (Tree.product xs ys)) := by
  have widthA := storesA.each.length_eq
  have widthB := storesB.each.length_eq
  have undefined : (pure .undefined : Action Value).Ends memory (Yields sure
      ((∀ tree ∈ xs, tree.small = true) ∧ ∀ item ∈ ys, item.small = true) memory atWork
      (.undefined, [])) := .pure (Computes.of_scalar sound .undefined rfl).yields
  have eachA := storesA.each
  have eachB := storesB.each
  cases eachA with
  | nil => exact undefined
  | cons headA =>
    cases eachB with
    | nil => cases headA <;> exact undefined
    | cons headB =>
      cases headA with
      | number =>
        cases headB with
        | number =>
          rw [ofElements, Tree.product, widthA, widthB, map_number?_eq storesA.each,
            map_number?_eq storesB.each]
          split
          · cases dot? 0 _ _ with
            | none => exact undefined
            | some sum => exact .pure (Computes.of_scalar sound (.number sum) rfl).yields
          · exact undefined
        | vector =>
          rw [ofElements, Tree.product, widthA, widthB]
          split
          · exact (vectorTimesMatrix_ends sound inB storesB storesA.each).imp
              fun _ _ yields => yields.of_eq fun _ small => ⟨small.2, rfl⟩
          · exact (refuse_ends sound _).imp fun _ _ computes => computes.yields
        | _ => exact undefined
      | @vector row elements items inside expands each =>
        have alive := storesA.alive sound (sound.owned.alive_of_mem inA) row
          (mem_handles.mpr (Or.inl List.mem_cons_self))
        cases headB with
        | number =>
          refine firstRow_ends sound alive ⟨inside, expands, each⟩ widthB ?_
          exact (matrixTimesVector_ends sound inA storesA storesB.each).imp
            fun _ _ yields => yields.of_eq fun _ small => ⟨small.1, rfl⟩
        | vector =>
          refine firstRow_ends sound alive ⟨inside, expands, each⟩ widthB ?_
          exact matrixTimesMatrix_ends sound inA inB storesA storesB
        | _ => exact undefined
      | _ => exact undefined

end Product

namespace Value

theorem ofVectors_ends {a b : Address} {xs ys : List Tree} (sound : Sound sure memory atWork)
    (inA : a ∈ atWork) (inB : b ∈ atWork) (denotesA : Denotes memory (.vector a) (.vector xs))
    (denotesB : Denotes memory (.vector b) (.vector ys)) :
    (Product.ofVectors a b).Ends memory
      (Yields sure ((Tree.vector xs).small = true ∧ (Tree.vector ys).small = true) memory atWork
        (Tree.product xs ys)) := by
  obtain ⟨left, showsA⟩ := Shows.of_vector denotesA
  obtain ⟨right, showsB⟩ := Shows.of_vector denotesB
  refine Product.reading_yields sound (sound.owned.alive_of_mem inA)
    fun first firstSound openedA flatA => ?_
  refine Product.reading_yields firstSound (firstSound.owned.alive_of_mem inB)
    fun second secondSound openedB flatB => ?_
  have aliveA := firstSound.owned.alive_of_mem inA
  have aliveB := secondSound.owned.alive_of_mem inB
  obtain ⟨treesA, storesA⟩ := Memory.Stores.of_flat firstSound aliveA flatA
  obtain ⟨treesB, storesB⟩ := Memory.Stores.of_flat secondSound aliveB flatB
  rw [List.toList_toArray, List.toList_toArray]
  refine (Product.ofElements_ends secondSound inA inB (storesA.carried openedB.carries)
    storesB).imp fun _ _ yields => yields.of_eq fun holds ⟨smallA, smallB⟩ => ?_
  obtain ⟨fewA, smallA⟩ := Tree.small_vector_iff.mp smallA
  obtain ⟨fewB, smallB⟩ := Tree.small_vector_iff.mp smallB
  obtain ⟨-, rfl⟩ := storesA.eq_of_shows firstSound aliveA holds (openedA.shows showsA) fewA
  obtain ⟨-, rfl⟩ := storesB.eq_of_shows secondSound aliveB holds
    (openedB.shows (openedA.shows showsB)) fewB
  exact ⟨⟨smallA, smallB⟩, rfl⟩

/-- Unless both values are vectors, their product is that of their trees, and flattens nothing. -/
theorem times_builds {a b : Value} {x y : Tree} (sound : Sound sure memory atWork)
    (first : Denotes memory a x) (second : Denotes memory b y)
    (apart : ∀ m n, a = .vector m → b = .vector n → False) :
    (a.times b).Ends memory (Builds sure memory atWork (x.times y).1) ∧ (x.times y).2 = [] := by
  have undefined : (pure .undefined : Action Value).Ends memory
      (Builds sure memory atWork .undefined) := .pure (.of_scalar sound .undefined rfl)
  cases a with
  | number =>
    cases b with
    | number =>
      cases first
      cases second
      exact ⟨.pure (.of_scalar sound (.number _) rfl), rfl⟩
    | vector =>
      cases first
      obtain ⟨items, rfl, _⟩ := second.follows
      exact ⟨Elementwise.changes _ _ memory atWork _ sound second, rfl⟩
    | _ =>
      cases first
      cases second
      exact ⟨undefined, rfl⟩
  | vector a =>
    obtain ⟨items, rfl, _⟩ := first.follows
    cases b with
    | number =>
      cases second
      exact ⟨Elementwise.changes _ _ memory atWork _ sound first, rfl⟩
    | vector b => exact absurd rfl (apart a b rfl)
    | _ =>
      cases second
      exact ⟨undefined, rfl⟩
  | _ =>
    cases first
    exact ⟨undefined, rfl⟩

/-- The product of two small values is that of their trees. -/
theorem times_ends {a b : Value} {x y : Tree} (sound : Sound sure memory atWork)
    (inA : ∀ handle ∈ handles [a], handle ∈ atWork) (inB : ∀ handle ∈ handles [b], handle ∈ atWork)
    (first : Denotes memory a x) (second : Denotes memory b y) :
    (a.times b).Ends memory
      (Yields sure (x.small = true ∧ y.small = true) memory atWork (x.times y)) := by
  by_cases vectors : ∃ m n, a = .vector m ∧ b = .vector n
  · obtain ⟨m, n, rfl, rfl⟩ := vectors
    obtain ⟨items, rfl, _⟩ := first.follows
    obtain ⟨others, rfl, _⟩ := second.follows
    exact ofVectors_ends sound (inA m List.mem_cons_self) (inB n List.mem_cons_self) first second
  · obtain ⟨ends, silent⟩ := times_builds sound first second
      fun m n left right => vectors ⟨m, n, left, right⟩
    refine ends.imp fun _ _ builds => ⟨_, _, builds.toComputes, fun _ _ => ?_⟩
    rw [← silent]

end Value

end SolidScript
