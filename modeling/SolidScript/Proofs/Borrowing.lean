/-
This file proves that a product of two vectors never rewrites a storage that it reads, whatever
storages the operands and their rows share. The operands and all their rows are read as slices that
overlap in time, and each slice is opened by flattening its storage while the other ones are still
being read. Which slices are opened and given back, and in which order, is told from the elements of
the operands alone. All along that course, a storage that still has placeholders is one that was not
read before, so that it can be rewritten, and what was read is stored unchanged until the product is
there.
-/

import SolidScript.Proofs.Slices
import SolidScript.Proofs.Supporting

namespace SolidScript

open Value (handles)

namespace Memory

variable {start after : Memory} {atWork : List Address} {address : Address}

/-- What a storage stores once it is flat was told from the start. -/
theorem sliceOf_of_carries (carries : Carries start.Has start after)
    (inside : address < start.storages.size) (flat : after.excess address = 0) :
    start.sliceOf address = ⟨address, (after.contents address).toArray⟩ := by
  unfold sliceOf
  cases carries.relaid address inside with
  | same contents excess =>
    rw [if_pos (excess.symm.trans flat), contents]
    rfl
  | flattened spliced _ expands =>
    rw [if_neg spliced, list_eq inside expands]
    rfl

/-- What a storage stores once it is flat refers to storages that had owners at the start. -/
theorem lives_of_carries (sound : Sound True start atWork) (carries : Carries start.Has start after)
    (living : start.Lives address) :
    ∀ handle ∈ handles (after.contents address), start.Lives handle := by
  have closed := sound.enclosed_alive.closed
  cases carries.relaid address (owners_inside living) with
  | same contents _ =>
    rw [contents]
    exact closed address living
  | flattened _ _ expands => exact expands.handles_of closed (closed address living)

/-- A slice holds the elements of a storage, unless these are too many to be counted. -/
theorem list_eq_sliceOf (sound : Sound True start atWork) (living : start.Lives address) :
    ∃ elements, start.list address = some elements ∧
      (elements.size < 2 ^ 64 → (start.sliceOf address).elements = elements) := by
  obtain ⟨elements, items, shows⟩ := sound.shows living
  have lists := list_eq shows.inside shows.expands
  refine ⟨elements.toArray, lists, fun few => ?_⟩
  unfold sliceOf
  by_cases flat : start.excess address = 0
  · have short : items.length < 2 ^ 64 := shows.each.length_eq ▸ few
    rw [if_pos flat, ← sound.contents_of_flat trivial living flat shows short]
    rfl
  · rw [if_neg flat, lists]
    rfl

end Memory

theorem Evolves.readers_ne_zero {before after : Memory} {warned : List Warning}
    {lent : List Address} {address : Address}
    (evolves : Evolves warned (address :: lent) before after) : after.readers address ≠ 0 := by
  rw [evolves.steady.readers, List.count_cons_self]
  exact Nat.succ_ne_zero _

namespace Product

open Memory

/-! ### What is read -/

/-- All rows are opened before the first one is given back. -/
def rowAccesses (memory : Memory) (rows : List Value) : List Access :=
  (rowStorages rows).map (fun row => .opens (memory.sliceOf row)) ++
    (rowStorages rows).map .closes

/-- The rows of a matrix are read one after another, each beside all rows of the other matrix, up to
the first one that does not fit. -/
def matrixAccesses (memory : Memory) (right : List Value) : List Value → List Access
  | [] => []
  | .vector row :: rows =>
    if memory.size row = right.length then
      (.opens (memory.sliceOf row) :: (rowAccesses memory right ++ [.closes row])) ++
        matrixAccesses memory right rows
    else []
  | _ :: _ => []

/-- What is read for the product of two vectors with the given elements. -/
def elementAccesses (memory : Memory) (left right : List Value) : List Access :=
  match left, right with
  | .number _ :: _, .vector _ :: _ =>
    if left.length = right.length then rowAccesses memory right else []
  | .vector row :: _, .number _ :: _ =>
    if memory.size row = right.length then rowAccesses memory left else []
  | .vector row :: _, .vector _ :: _ =>
    if memory.size row = right.length then matrixAccesses memory right left else []
  | _, _ => []

/-- The slices that the product of two vectors opens and gives back, in order. Both operands are
read to the end. -/
def accesses (memory : Memory) (a b : Address) : List Access :=
  .opens (memory.sliceOf a) ::
    (.opens (memory.sliceOf b) ::
      (elementAccesses memory (memory.sliceOf a).elements.toList
        (memory.sliceOf b).elements.toList ++ [.closes b]) ++ [.closes a])

/-! ### The course of a product -/

/-- A product is being worked out. All slices that were opened are slices of storages that had
owners at the start, and hold what was told from the start. -/
structure Underway (start : Memory) (done : List Access) (memory : Memory) : Prop where
  begun : ∃ atWork, Sound True start atWork
  carries : Carries start.Has start memory
  course : Course start done memory
  opened : ∀ slice, .opens slice ∈ done →
    slice = start.sliceOf slice.storage ∧ start.Lives slice.storage

variable {start base memory : Memory} {atWork : List Address} {done : List Access}
  {warned : List Warning}

namespace Underway

theorem of_sound (sound : Sound True memory atWork) : Underway memory [] memory :=
  ⟨⟨_, sound⟩, .refl sound.enclosed, .start, fun _ opened => absurd opened List.not_mem_nil⟩

/-- The elements of a vector stay alive as long as the vector is held. -/
theorem lives (underway : Underway start done memory) {address : Address}
    (living : start.Lives address) :
    ∀ handle ∈ handles (memory.contents address), start.Lives handle := by
  obtain ⟨_, sound⟩ := underway.begun
  exact lives_of_carries sound underway.carries living

theorem size_eq (underway : Underway start done memory) {address : Address}
    (living : start.Lives address) : memory.size address = start.size address := by
  obtain ⟨_, sound⟩ := underway.begun
  exact sound.size_of_carries underway.carries (owners_inside living) living trivial

theorem carried (underway : Underway start done memory) {after : Memory}
    (carries : Carries memory.Has memory after) : Carries start.Has start after :=
  underway.carries.trans carries fun _ has => Nat.lt_of_lt_of_le has underway.carries.length

/-- New vectors can be made and grown without touching what was there at the start. -/
theorem admits (underway : Underway start done memory) :
    Admits start.storages.size flat (Spares start.storages.size memory) :=
  (lasts_spares underway.course.length).admits_any

/-- Work on a new vector leaves the slices alone. -/
theorem collected (underway : Underway start done memory) {after : Memory}
    {further : List Warning} {lent : List Address} (since : Carries start.Has start base)
    (before : Evolves warned lent base memory) (later : Evolves further lent base after)
    (spares : Spares start.storages.size memory after) : Underway start done after := by
  refine ⟨underway.begun,
    since.trans later.carries fun _ has => Nat.lt_of_lt_of_le has since.length,
    underway.course.undisturbed ⟨spares, fun address _ => ?_⟩, underway.opened⟩
  rw [later.steady.readers, before.steady.readers]

theorem computed {action : Action Value} {condition : Value → Prop}
    (underway : Underway start done memory)
    (since : Carries start.Has start base) (before : Evolves warned [] base memory)
    {tree : Tree} {further : List Warning}
    (computes : action.Ends memory (Computes True base atWork tree further))
    (spares : action.Maintains (Spares start.storages.size memory) condition) :
    action.Leads memory fun _ after => Underway start done after :=
  (computes.and_leads (spares memory (.refl _ memory))).leads.imp fun _ _ both =>
    underway.collected since before both.1.evolves both.2.1

theorem further_none (underway : Underway start done memory) :
    Underway start (done ++ []) memory := by
  rw [List.append_nil]
  exact underway

theorem opens (underway : Underway start done memory) {after : Memory} {address : Address}
    (living : start.Lives address) (carries : Carries memory.Has memory after)
    (flat : after.excess address = 0)
    (sliced : Memory.slice address memory = some ((after.contents address).toArray, after)) :
    Underway start (done ++ [.opens (start.sliceOf address)]) after := by
  have since := underway.carried carries
  have told := sliceOf_of_carries since (owners_inside living) flat
  rw [told]
  refine ⟨underway.begun, since, .opens underway.course (owners_inside living) sliced,
    fun slice member => ?_⟩
  rcases List.mem_append.mp member with before | last
  · exact underway.opened slice before
  · cases List.mem_singleton.mp last
    exact ⟨told.symm, living⟩

theorem closes (underway : Underway start done memory) {after : Memory} {address : Address}
    (old : address < start.storages.size) (carries : Carries memory.Has memory after)
    (lent : memory.readers address ≠ 0) (closed : unslice address memory = some ((), after)) :
    Underway start (done ++ [.closes address]) after := by
  refine ⟨underway.begun, underway.carried carries, .closes underway.course old lent closed,
    fun slice member => ?_⟩
  rcases List.mem_append.mp member with before | last
  · exact underway.opened slice before
  · cases List.mem_singleton.mp last

end Underway

/-! ### Slices -/

theorem slice_follows (sound : Sound True memory atWork) (underway : Underway start done memory)
    {address : Address} (alive : memory.owners address ≠ 0) (living : start.Lives address) :
    (slice address).Leads memory fun _ after =>
      Underway start (done ++ [.opens (start.sliceOf address)]) after := by
  intro result after opened
  obtain ⟨rfl, _, evolves, flat⟩ := (slice_ends sound alive).leads _ _ opened
  exact underway.opens living evolves.carries flat opened

theorem unslice_follows {address : Address} (sound : Sound True memory atWork)
    (underway : Underway start done memory) (old : address < start.storages.size)
    (lent : memory.readers address ≠ 0) :
    (unslice address).Leads memory fun _ after =>
      Underway start (done ++ [.closes address]) after := by
  intro result after closed
  refine underway.closes old ?_ lent closed
  rw [unslice_eq_some closed]
  exact carries_lend sound address _

/-- Work on a slice is done between opening it and giving it back. -/
theorem reading_follows {α : Type} {address : Address} {work : Array Value → Action α}
    {further : List Access} (sound : Sound True memory atWork)
    (underway : Underway start done memory) (alive : memory.owners address ≠ 0)
    (living : start.Lives address)
    (works : ∀ lent, Sound True lent atWork → Evolves [] [address] memory lent →
      lent.excess address = 0 → Underway start (done ++ [.opens (start.sliceOf address)]) lent →
      (work (lent.contents address).toArray).Leads lent fun _ after =>
        (∃ others, Sound True after others) ∧ after.readers address ≠ 0 ∧
          Underway start (done ++ [.opens (start.sliceOf address)] ++ further) after) :
    (reading address work).Leads memory fun _ after =>
      Underway start (done ++ .opens (start.sliceOf address) :: (further ++ [.closes address]))
        after := by
  refine ((slice_ends sound alive).and_leads
    (slice_follows sound underway alive living)).leads.bind fun slice lent both => ?_
  obtain ⟨⟨rfl, lentSound, opened, flat⟩, begun⟩ := both
  refine (works lent lentSound opened flat begun).bind fun result worked reached => ?_
  obtain ⟨⟨others, workedSound⟩, reading, reached⟩ := reached
  refine (unslice_follows workedSound reached (owners_inside living) reading).bind
    fun _ closed last => .pure ?_
  rw [List.append_assoc, List.append_assoc] at last
  exact last

/-! ### Rows -/

theorem mem_rowStorages {rows : List Value} {row : Address} :
    row ∈ rowStorages rows ↔ .vector row ∈ rows := by
  refine List.mem_filterMap.trans ⟨?_, fun member => ⟨_, member, rfl⟩⟩
  rintro ⟨value, member, found⟩
  cases value with
  | vector address => exact Option.some.inj found ▸ member
  | _ => contradiction

theorem rowStorages_subset {rows : List Value} : ∀ row ∈ rowStorages rows, row ∈ handles rows :=
  fun _ member => mem_handles.mpr (Or.inl (mem_rowStorages.mp member))

/-- The rows are among the elements of a vector at work, which is flat. -/
theorem readRows_follows {holder : Address} {matrix : List Value} {items : List Tree}
    (sound : Sound True memory atWork) (underway : Underway start done memory)
    (member : holder ∈ atWork) (stores : Memory.Stores memory holder matrix items)
    {rows : List Value} (held : ∀ row ∈ rowStorages rows, row ∈ handles matrix)
    (living : ∀ row ∈ rowStorages rows, start.Lives row) :
    (readRows rows).Leads memory fun _ after =>
      Underway start (done ++ (rowStorages rows).map fun row => .opens (start.sliceOf row))
        after := by
  induction rows generalizing memory done with
  | nil => exact .pure underway.further_none
  | cons row rows inductionHypothesis =>
    cases row with
    | vector address =>
      have alive := stores.alive sound (sound.owned.alive_of_mem member) address
        (held address List.mem_cons_self)
      refine ((slice_ends sound alive).and_leads (slice_follows sound underway alive
        (living address List.mem_cons_self))).leads.bind fun slice opened both => ?_
      obtain ⟨⟨_, openedSound, evolves, _⟩, begun⟩ := both
      refine (inductionHypothesis openedSound begun (stores.carried evolves.carries)
        (fun row member => held row (List.mem_cons_of_mem _ member))
        fun row member => living row (List.mem_cons_of_mem _ member)).bind
          fun _ after last => .pure ?_
      rw [List.append_assoc] at last
      exact last
    | _ =>
      exact (inductionHypothesis sound underway stores held living).bind fun _ _ last => .pure last

theorem closeRows_follows {before : Memory} {lent : List Address} {rows : List Value}
    (sound : Sound True memory atWork)
    (evolves : Evolves warned (rowStorages rows ++ lent) before memory)
    (underway : Underway start done memory)
    (old : ∀ row ∈ rowStorages rows, row < start.storages.size) :
    (closeRows rows).Leads memory fun _ after =>
      Underway start (done ++ (rowStorages rows).map .closes) after := by
  induction rows generalizing memory done with
  | nil => exact .pure underway.further_none
  | cons row rows inductionHypothesis =>
    cases row with
    | vector address =>
      refine ((unslice_ends sound evolves).and_leads (unslice_follows sound underway
        (old address List.mem_cons_self) evolves.readers_ne_zero)).leads.bind
          fun _ closed both => ?_
      obtain ⟨⟨closedSound, whole, _⟩, begun⟩ := both
      have last := inductionHypothesis closedSound whole begun
        fun row member => old row (List.mem_cons_of_mem _ member)
      rw [List.append_assoc] at last
      exact last
    | _ => exact inductionHypothesis sound evolves underway old

/-- Sums are put in a new vector. -/
theorem ofSums_follows (sound : Sound True memory atWork) (underway : Underway start done memory)
    (sums : Except Warning (List Float)) :
    (ofSums sums).Leads memory fun _ after => Underway start done after := by
  have spares := ofSums_maintains underway.admits (fun _ => rfl) sums
  exact underway.computed underway.carries (.refl sound) (ofSums_ends sound sums) spares

/-- While something is computed, all rows are being read. -/
theorem withRows_follows {holder : Address} {matrix : List Value} {items : List Tree}
    (sound : Sound True memory atWork) (underway : Underway start done memory)
    (member : holder ∈ atWork) (stores : Memory.Stores memory holder matrix items)
    (living : ∀ row ∈ handles matrix, start.Lives row)
    (compute : List Row → Except Warning (List Float)) :
    (do
      let rows ← readRows matrix
      let product ← ofSums (compute rows)
      closeRows matrix
      return product : Action Value).Leads memory fun _ after =>
        Underway start (done ++ rowAccesses start matrix) after := by
  have rowsLive : ∀ row ∈ rowStorages matrix, start.Lives row :=
    fun row member => living row (rowStorages_subset row member)
  refine ((readRows_ends sound member stores (fun _ member => member) stores.each).and_leads
    (readRows_follows sound underway member stores rowStorages_subset rowsLive)).leads.bind
      fun rows opened ⟨⟨_, openedSound, evolves⟩, begun⟩ => ?_
  refine ((ofSums_ends openedSound (compute rows)).and_leads
    (ofSums_follows openedSound begun (compute rows))).leads.bind
      fun product computed ⟨computes, continued⟩ => ?_
  refine (closeRows_follows computes.sound (evolves.trans computes.evolves) continued
    fun row member => owners_inside (rowsLive row member)).bind fun _ _ last => .pure ?_
  rw [List.append_assoc] at last
  exact last

/-! ### Matrices -/

variable {left right : List Value} {xs ys found : List Tree} {product : Address}

theorem abandon_follows (collects : Collects True base atWork warned [] found product memory)
    (since : Carries start.Has start base) (underway : Underway start done memory) (row : Nat) :
    (abandon product row).Leads memory fun _ after => Underway start done after := by
  have spares := abandon_maintains underway.admits product row
  exact underway.computed since collects.evolves (abandon_ends collects row) spares

theorem append_follows {lent : List Address}
    (collects : Collects True base atWork warned lent found product memory)
    (since : Carries start.Has start base) {image : Value} {tree : Tree} {further : List Warning}
    {imaged : Memory}
    (computes : Computes True memory (product :: atWork) tree further image imaged)
    (underway : Underway start done imaged) :
    (append product image).Leads imaged fun _ after => Underway start done after := by
  have beyond := Nat.le_trans since.length collects.fresh
  have spares := underway.admits.append beyond computes.direct (flat_takes [image]) imaged
    (.refl _ imaged)
  refine ((collects.append computes).and_leads spares).leads.imp
    fun _ last ⟨⟨collected, _⟩, spares, _⟩ => ?_
  have before := collects.evolves.trans computes.evolves
  rw [List.append_nil] at before
  exact underway.collected since before collected.evolves spares

/-- A row is being read until its product is appended, beside all rows of the other matrix. What is
computed is of no matter here. -/
theorem readingRow_follows {a b entries : Address}
    (collects : Collects True base atWork warned [] found product memory)
    (since : Carries start.Has start base) (underway : Underway start done memory)
    (inA : a ∈ atWork) (inB : b ∈ atWork) (storesA : Memory.Stores memory a left xs)
    (storesB : Memory.Stores memory b right ys) (livingB : ∀ row ∈ handles right, start.Lives row)
    (held : entries ∈ handles left) (living : start.Lives entries) :
    (reading entries fun elements => do
      append product (← vectorTimesMatrix elements.toList right)).Ends memory fun grown after =>
        (∃ tree further,
          Collects True base atWork (warned ++ further) [] (found ++ [tree]) grown after) ∧
          Underway start (done ++ .opens (start.sliceOf entries) ::
            (rowAccesses start right ++ [.closes entries])) after := by
  have inRight := List.mem_cons_of_mem product inB
  have alive : ∀ later, Sound True later (product :: atWork) → Carries memory.Has memory later →
      later.owners entries ≠ 0 := fun later sound carries =>
    (storesA.carried carries).alive sound
      (sound.owned.alive_of_mem (List.mem_cons_of_mem _ inA)) entries held
  have aliveNow := alive memory collects.sound (.refl collects.sound.enclosed)
  have multiplies : ∀ lent, Sound True lent (product :: atWork) →
      Evolves [] [entries] memory lent → lent.excess entries = 0 →
      (vectorTimesMatrix (lent.contents entries).toArray.toList right).Ends lent
        (Yields True False lent (product :: atWork) (.undefined, [])) := by
    intro lent lentSound opened flat
    obtain ⟨trees, stores⟩ :=
      Stores.of_flat lentSound (alive lent lentSound opened.carries) flat
    rw [List.toList_toArray]
    exact (vectorTimesMatrix_ends lentSound inRight (storesB.carried opened.carries)
      stores.each).imp fun _ _ ⟨tree, further, computes, _⟩ =>
        ⟨tree, further, computes, fun _ => False.elim⟩
  have grows : (reading entries fun elements => do
      append product (← vectorTimesMatrix elements.toList right)).Ends memory fun grown after =>
        ∃ tree further,
          Collects True base atWork (warned ++ further) [] (found ++ [tree]) grown after ∧
            (True → False → (tree, further) = (.undefined, [])) :=
    collects.reading False (.undefined, []) aliveNow multiplies
  refine (grows.imp fun _ _ ⟨tree, further, collected, _⟩ => ⟨tree, further, collected⟩).and_leads
    (reading_follows collects.sound underway aliveNow living
    fun lent lentSound opened flat begun => ?_)
  refine ((multiplies lent lentSound opened flat).and_leads (withRows_follows lentSound begun
    inRight (storesB.carried opened.carries) livingB _)).leads.bind fun image imaged both => ?_
  obtain ⟨⟨tree, further, computes, _⟩, reached⟩ := both
  have lending := collects.lend lentSound opened
  refine ((lending.append computes).and_leads
    (append_follows lending since computes reached)).leads.imp fun grown last both => ?_
  obtain ⟨⟨collected, _⟩, continued⟩ := both
  exact ⟨⟨_, collected.sound⟩, collected.evolves.readers_ne_zero, continued⟩

/-- The product is collected since a memory in which the operands are being read already, and the
course began before that. -/
theorem rowProducts_follows {a b : Address} (inA : a ∈ atWork) (inB : b ∈ atWork)
    (storesA : Memory.Stores base a left xs) (storesB : Memory.Stores base b right ys)
    (livingA : ∀ row ∈ handles left, start.Lives row)
    (livingB : ∀ row ∈ handles right, start.Lives row) {rows : List Value}
    (held : ∀ row ∈ rows, row ∈ left) (row : Nat) (since : Carries start.Has start base)
    (collects : Collects True base atWork warned [] found product memory)
    (underway : Underway start done memory) :
    (rowProducts right product row rows).Leads memory fun _ after =>
      Underway start (done ++ matrixAccesses start right rows) after := by
  induction rows generalizing memory row warned found product done with
  | nil => exact .pure underway.further_none
  | cons first rows inductionHypothesis =>
    have abandoned := abandon_follows collects since underway.further_none row
    cases first with
    | vector entries =>
      have inLeft : entries ∈ handles left := mem_handles.mpr (Or.inl (held _ List.mem_cons_self))
      have living := livingA entries inLeft
      refine .get_bind ?_
      rw [underway.size_eq living, matrixAccesses]
      by_cases fits : start.size entries = right.length
      · rw [if_pos fits, if_pos fits]
        have carried := collects.evolves.carries
        refine (readingRow_follows collects since underway inA inB (storesA.carried carried)
          (storesB.carried carried) livingB inLeft living).leads.bind fun grown last both => ?_
        obtain ⟨⟨_, _, collected⟩, continued⟩ := both
        have tail := inductionHypothesis
          (fun row member => held row (List.mem_cons_of_mem _ member)) (row + 1) collected continued
        rw [List.append_assoc] at tail
        exact tail
      · rw [if_neg fits, if_neg fits]
        exact abandoned
    | _ => exact abandoned

theorem matrixTimesMatrix_follows {a b : Address} (sound : Sound True memory atWork)
    (underway : Underway start done memory) (inA : a ∈ atWork) (inB : b ∈ atWork)
    (storesA : Memory.Stores memory a left xs) (storesB : Memory.Stores memory b right ys)
    (livingA : ∀ row ∈ handles left, start.Lives row)
    (livingB : ∀ row ∈ handles right, start.Lives row) :
    (matrixTimesMatrix left right).Leads memory fun _ after =>
      Underway start (done ++ matrixAccesses start right left) after := by
  have spares := underway.admits.allocate #[] 0 rfl memory (.refl _ memory)
  refine ((Collects.start sound).and_leads spares).leads.bind
    fun product created ⟨collects, spares, _⟩ => ?_
  have begun := underway.collected underway.carries (.refl sound) collects.evolves spares
  exact rowProducts_follows inA inB storesA storesB livingA livingB (fun _ member => member) 0
    underway.carries collects begun

theorem refuse_follows (sound : Sound True memory atWork) (underway : Underway start done memory)
    (cause : Warning) :
    (refuse cause).Leads memory fun _ after => Underway start done after := by
  have spares := refuse_maintains underway.admits cause
  exact underway.computed underway.carries (.refl sound) (refuse_ends sound cause) spares

/-- The product of what two vectors store that are being read. -/
theorem ofElements_follows {a b : Address} (sound : Sound True memory atWork)
    (underway : Underway start done memory) (inA : a ∈ atWork) (inB : b ∈ atWork)
    (storesA : Memory.Stores memory a left xs) (storesB : Memory.Stores memory b right ys)
    (livingA : ∀ row ∈ handles left, start.Lives row)
    (livingB : ∀ row ∈ handles right, start.Lives row) :
    (ofElements left right).Leads memory fun _ after =>
      Underway start (done ++ elementAccesses start left right) after := by
  have idle := underway.further_none
  have width : ∀ {row : Address} {rows : List Value}, left = .vector row :: rows →
      memory.size row = start.size row := by
    rintro row rows rfl
    exact underway.size_eq (livingA row List.mem_cons_self)
  unfold ofElements
  split
  · split <;> exact .pure idle
  · rw [elementAccesses]
    split
    · exact withRows_follows sound underway inB storesB livingB _
    · exact refuse_follows sound idle _
  · refine .get_bind ?_
    rw [elementAccesses, width rfl]
    dsimp only
    split
    · exact withRows_follows sound underway inA storesA livingA _
    · exact refuse_follows sound idle _
  · refine .get_bind ?_
    rw [elementAccesses, width rfl]
    dsimp only
    split
    · exact matrixTimesMatrix_follows sound underway inA inB storesA storesB livingA livingB
    · exact refuse_follows sound idle _
  · rw [elementAccesses]
    · exact .pure idle
    all_goals assumption

/-- Work that gives back what it reads leaves a slice open that was opened before. -/
theorem reads_on {small : Prop} {address : Address} {action : Action Value}
    {expected : Tree × List Warning} {lent : Memory} (opened : Evolves [] [address] memory lent)
    (yields : action.Ends lent (Yields True small lent atWork expected))
    (follows : action.Leads lent fun _ after => Underway start done after) :
    action.Leads lent fun _ after =>
      (∃ others, Sound True after others) ∧ after.readers address ≠ 0 ∧
        Underway start done after :=
  (yields.and_leads follows).leads.imp fun _ _ ⟨⟨_, _, computes, _⟩, reached⟩ =>
    ⟨⟨_, computes.sound⟩, (opened.trans computes.evolves).readers_ne_zero, reached⟩

/-- Both operands are being read while what they store is worked on. -/
theorem ofVectors_follows {a b : Address} (sound : Sound True memory atWork) (inA : a ∈ atWork)
    (inB : b ∈ atWork) :
    (ofVectors a b).Leads memory fun _ after => Underway memory (accesses memory a b) after := by
  have livingA : memory.Lives a := sound.owned.alive_of_mem inA
  have livingB : memory.Lives b := sound.owned.alive_of_mem inB
  refine reading_follows sound (.of_sound sound) livingA livingA
    fun first firstSound openedA flatA begun => ?_
  have aliveA := firstSound.owned.alive_of_mem inA
  have aliveB := firstSound.owned.alive_of_mem inB
  obtain ⟨xs, storesA⟩ := Stores.of_flat firstSound aliveA flatA
  have slicedA := sliceOf_of_carries begun.carries (owners_inside livingA) flatA
  have computes : ∀ second, Sound True second atWork → Evolves [] [b] first second →
      second.excess b = 0 →
        (ofElements (first.contents a).toArray.toList (second.contents b).toArray.toList).Ends
          second (Yields True False second atWork (.undefined, [])) := by
    intro second secondSound openedB flatB
    obtain ⟨ys, storesB⟩ :=
      Stores.of_flat secondSound (secondSound.owned.alive_of_mem inB) flatB
    rw [List.toList_toArray, List.toList_toArray]
    exact (ofElements_ends secondSound inA inB (storesA.carried openedB.carries) storesB).imp
      fun _ _ ⟨tree, further, computes, _⟩ => ⟨tree, further, computes, fun _ => False.elim⟩
  refine reads_on openedA (reading_yields firstSound aliveB computes) ?_
  refine reading_follows firstSound begun aliveB livingB
    fun second secondSound openedB flatB continued => ?_
  obtain ⟨ys, storesB⟩ := Stores.of_flat secondSound (secondSound.owned.alive_of_mem inB) flatB
  have slicedB := sliceOf_of_carries continued.carries (owners_inside livingB) flatB
  refine reads_on openedB (computes second secondSound openedB flatB) ?_
  have told : elementAccesses memory (memory.sliceOf a).elements.toList
      (memory.sliceOf b).elements.toList =
        elementAccesses memory (first.contents a) (second.contents b) := by rw [slicedA, slicedB]
  rw [told, List.toList_toArray, List.toList_toArray]
  exact ofElements_follows secondSound continued inA inB (storesA.carried openedB.carries) storesB
    (begun.lives livingA) (continued.lives livingB)

end Product

/-! ### Products in a workspace -/

/-- What the product of two vectors does to the storages that it reads. -/
structure Product.LeavesSlices (memory : Memory) (a b : Address) : Prop where
  /-- The product ends, by a course of the accesses that the operands tell, and gives all slices
  back. -/
  ends : ((Value.vector a).times (.vector b)).Ends memory fun _ after =>
    memory.Course (accesses memory a b) after ∧ after.Idle
  /-- The slices hold the elements that the operands and rows have as vectors, as long as words can
  count these. -/
  listed : ∀ slice, .opens slice ∈ accesses memory a b →
    ∃ elements, memory.list slice.storage = some elements ∧
      (elements.size < 2 ^ 64 → slice.elements = elements)
  /-- At any point of the course, every slice opened so far is still what its storage stores. -/
  stored : ∀ {done : List Access} {middle : Memory}, done <+: accesses memory a b →
    memory.Course done middle → ∀ slice, .opens slice ∈ done → middle.Backs slice
  /-- A storage that is to be rewritten as a slice of it is opened is not being read, and was not
  read before. -/
  rewritten : ∀ {done : List Access} {slice : Slice} {middle : Memory},
    done ++ [.opens slice] <+: accesses memory a b → memory.Course done middle →
    middle.excess slice.storage ≠ 0 →
    middle.readers slice.storage = 0 ∧ slice.storage ∉ Access.openings done

namespace Workspace

variable {workspace : Workspace}

/-- In every workspace that is reached, the product of any two vectors leaves alone the storages of
which slices are being read, whatever storages the vectors share. -/
theorem products_leaveSlices (reached : workspace.Reached) (fits : workspace.memory.Fits)
    {a b : Address} (aliveA : workspace.memory.owners a ≠ 0)
    (aliveB : workspace.memory.owners b ≠ 0) :
    Product.LeavesSlices (workspace.memory.retain [.vector a, .vector b]) a b := by
  obtain ⟨followed, plain, represents⟩ := reached.represents
  have supports : ∀ value ∈ [Value.vector a, .vector b], workspace.memory.Supports value := by
    intro value member
    rcases List.mem_pair.mp member with rfl | rfl
    · exact .vector aliveA
    · exact .vector aliveB
  obtain ⟨sound, evolves⟩ := Memory.Supports.copied supports (reached.sound fits)
  have idle := Memory.idle_of_steady represents.idle evolves.steady
  have inA : a ∈ handles [.vector a, .vector b] ++ workspace.roots := List.mem_cons_self
  have inB : b ∈ handles [.vector a, .vector b] ++ workspace.roots :=
    List.mem_cons_of_mem _ List.mem_cons_self
  obtain ⟨_, _, showsA⟩ := sound.shows (sound.owned.alive_of_mem inA)
  obtain ⟨_, _, showsB⟩ := sound.shows (sound.owned.alive_of_mem inB)
  have ends := (Value.ofVectors_ends sound inA inB showsA.vector showsB.vector).and_leads
    (Product.ofVectors_follows sound inA inB)
  refine ⟨ends.imp fun _ after ⟨⟨_, _, computes, _⟩, underway⟩ =>
    ⟨underway.course, Memory.idle_of_steady idle computes.evolves.steady⟩, ?_, ?_, ?_⟩
  · obtain ⟨_, _, _, _, underway⟩ := ends
    intro slice opened
    obtain ⟨told, living⟩ := underway.opened slice opened
    rw [told]
    exact Memory.list_eq_sliceOf sound living
  · exact fun _ course slice opened => course.backs opened
  · intro done slice middle further course spliced
    obtain ⟨_, after, _, _, underway⟩ := ends
    have opened : .opens slice ∈ Product.accesses _ a b :=
      further.subset (List.mem_append_right _ List.mem_cons_self)
    exact ⟨course.readers_eq_zero idle (underway.course.old opened) spliced, course.unread spliced⟩

/-- A matrix is multiplied by itself, and by its rows, which all are one storage with a
placeholder. -/
theorem products_leaveSlices_shared :
    ∃ workspace : Workspace, workspace.Reached ∧ workspace.registers = [0, 2] ∧
      workspace.memory.contents 0 = [.number 1, .embedded 1] ∧
      workspace.memory.contents 2 = [.vector 0, .vector 0, .vector 0] ∧
      Product.LeavesSlices (workspace.memory.retain [.vector 2, .vector 2]) 2 2 ∧
      Product.LeavesSlices (workspace.memory.retain [.vector 2, .vector 0]) 2 0 := by
  have reached : ∃ reports workspace,
      run [.create, .append 0 (.number 1),
        .append 0 (.embedded (.vector [.number 2, .number 3])),
        .fill [.register 0, .register 0, .register 0]] empty =
          some (.ok (reports, workspace)) ∧ workspace.registers = [0, 2] ∧
        workspace.memory.contents 0 = [.number 1, .embedded 1] ∧
        workspace.memory.contents 2 = [.vector 0, .vector 0, .vector 0] ∧
        workspace.memory.owners 0 = 4 ∧ workspace.memory.owners 2 = 1 ∧
        workspace.memory.Fits :=
    ⟨_, _, rfl, rfl, rfl, rfl, rfl, rfl, rfl⟩
  obtain ⟨reports, workspace, ran, registers, row, matrix, rowOwners, matrixOwners, fits⟩ := reached
  have aliveRow : workspace.memory.owners 0 ≠ 0 := rowOwners ▸ Nat.succ_ne_zero 3
  have aliveMatrix : workspace.memory.owners 2 ≠ 0 := matrixOwners ▸ Nat.succ_ne_zero 0
  exact ⟨workspace, ⟨_, _, ran⟩, registers, row, matrix,
    products_leaveSlices ⟨_, _, ran⟩ fits aliveMatrix aliveMatrix,
    products_leaveSlices ⟨_, _, ran⟩ fits aliveMatrix aliveRow⟩

/-- The square of a vector of `2 ^ 64 + 3` elements reads a slice that holds placeholders
instead. -/
theorem square_reads_placeholders :
    ∃ (workspace : Workspace) (slice : Slice) (elements : Array Value), workspace.Reached ∧
      workspace.memory.Fits ∧ workspace.memory.owners 66 ≠ 0 ∧
      .opens slice ∈ Product.accesses (workspace.memory.retain [.vector 66, .vector 66]) 66 66 ∧
      (workspace.memory.retain [.vector 66, .vector 66]).list slice.storage = some elements ∧
      slice.elements ≠ elements := by
  obtain ⟨workspace, reached, outgrown⟩ := exists_outgrown
  have alive := outgrown.alive reached (by decide : 66 < 70)
  let copied := workspace.memory.retain [.vector 66, .vector 66]
  have reowned := workspace.memory.reowned_retain [.vector 66, .vector 66]
  have supports : ∀ value ∈ [Value.vector 66, .vector 66], workspace.memory.Supports value :=
    fun value member => by
      rcases List.mem_pair.mp member with rfl | rfl <;> exact .vector alive
  obtain ⟨sound, _⟩ := Memory.Supports.copied supports (reached.sound outgrown.fits)
  obtain ⟨elements, items, shows⟩ :=
    sound.shows (sound.owned.alive_of_mem (List.mem_cons_self : 66 ∈ _))
  refine ⟨workspace, copied.sliceOf 66, elements.toArray, reached, outgrown.fits, alive,
    List.mem_cons_self, Memory.list_eq shows.inside shows.expands, fun same => ?_⟩
  have stored : .embedded 0 ∈ copied.contents 66 := reowned.contents 66 ▸ outgrown.hides
  have sliced : (copied.sliceOf 66).elements.toList = copied.contents 66 := by
    rw [Memory.sliceOf, if_pos ((reowned.excess 66).trans outgrown.spliced)]
    rfl
  rw [← sliced, same] at stored
  exact nomatch shows.expands.direct _ stored

end Workspace

end SolidScript
