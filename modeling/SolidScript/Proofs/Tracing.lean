/-
This file follows the flattening of storages one by one. Work that appends nothing changes the
storages that were there in no other way, flattens each of them once at most, and reports each time
how many elements there are. What an action does to storages is told apart from what it means: it
holds wherever the action comes to an end, whatever the storages refer to.
-/

import SolidScript.Proofs.Operating

namespace SolidScript

namespace Memory

/-- The storages below the base that were flattened one after another since the first memory, with
changes in between that spare all of them. -/
inductive Rewrites (base : Nat) (before : Memory) : List Address → Memory → Prop
  | none : Rewrites base before [] before
  | spares {rewritten : List Address} {middle after : Memory}
      (rewrites : Rewrites base before rewritten middle) (spares : Spares base middle after) :
      Rewrites base before rewritten after
  | flatten {rewritten : List Address} {middle after : Memory} {address : Address}
      (rewrites : Rewrites base before rewritten middle) (old : address < base)
      (spliced : middle.excess address ≠ 0)
      (flattened : Memory.flatten address middle = some ((), after)) :
      Rewrites base before (rewritten ++ [address]) after

/-- What such changes come to: each storage was flattened once at most, and only if it had
placeholders, with its elements counted in the report; the others are as they were. -/
structure Rewritten (base : Nat) (before : Memory) (rewritten : List Address) (after : Memory) :
    Prop where
  once : rewritten.Nodup
  length : before.storages.size ≤ after.storages.size
  old : ∀ address ∈ rewritten, address < base
  spliced : ∀ address ∈ rewritten, before.excess address ≠ 0
  flat : ∀ address ∈ rewritten, after.excess address = 0
  spared : ∀ address < base, address ∉ rewritten →
    after.contents address = before.contents address ∧ after.excess address = before.excess address
  traced : after.flattenings = before.flattenings ++ rewritten.map after.size

variable {base : Nat} {before middle after : Memory} {rewritten : List Address} {address : Address}

/-! ### One storage -/

theorem excess_inside (spliced : before.excess address ≠ 0) : address < before.storages.size := by
  refine Nat.lt_of_not_le fun outside => spliced ?_
  rw [excess, storage_of_outside _ _ outside]
  rfl

/-! ### All storages -/

theorem Rewritten.none (base : Nat) (memory : Memory) : Rewritten base memory [] memory where
  once := List.nodup_nil
  length := Nat.le_refl _
  old _ member := absurd member List.not_mem_nil
  spliced _ member := absurd member List.not_mem_nil
  flat _ member := absurd member List.not_mem_nil
  spared _ _ _ := ⟨rfl, rfl⟩
  traced := (List.append_nil _).symm

theorem Rewritten.spares (done : Rewritten base before rewritten middle)
    (spares : Spares base middle after) : Rewritten base before rewritten after where
  once := done.once
  length := Nat.le_trans done.length spares.length
  old := done.old
  spliced := done.spliced
  flat address member := by
    rw [spares.excess address (done.old address member)]
    exact done.flat address member
  spared address below apart := by
    rw [spares.contents below, spares.excess address below]
    exact done.spared address below apart
  traced := by
    rw [spares.flattenings, done.traced]
    refine congrArg (before.flattenings ++ ·) (List.map_congr_left fun address member => ?_)
    exact (spares.size (done.old address member)).symm

/-- A storage that has placeholders was not flattened before. -/
theorem Rewritten.flatten (done : Rewritten base before rewritten middle) (below : address < base)
    (spliced : middle.excess address ≠ 0)
    (flattened : Memory.flatten address middle = some ((), after)) :
    Rewritten base before (rewritten ++ [address]) after := by
  have fresh : address ∉ rewritten := fun member => spliced (done.flat address member)
  rcases flatten_eq_some flattened with ⟨flat, _⟩ | ⟨elements, _, rfl⟩
  · exact absurd flat spliced
  have inside := excess_inside spliced
  have others : ∀ other ∈ rewritten, other ≠ address := fun other member same =>
    fresh (same ▸ member)
  have self := contents_rewrite_self elements inside
  refine ⟨?_, ?_, fun other member => ?_, fun other member => ?_, fun other member => ?_,
    fun other belowOther apart => ?_, ?_⟩
  · exact List.nodup_append.mpr ⟨done.once, List.pairwise_singleton _ _,
      fun other member another same => List.mem_singleton.mp same ▸ others other member⟩
  · rw [length_rewrite]
    exact done.length
  · rcases List.mem_append.mp member with old | new
    · exact done.old other old
    · exact List.mem_singleton.mp new ▸ below
  · rcases List.mem_append.mp member with old | new
    · exact done.spliced other old
    · rw [List.mem_singleton.mp new, ← (done.spared address below fresh).2]
      exact spliced
  · rcases List.mem_append.mp member with old | new
    · rw [excess_rewrite_of_ne elements (others other old)]
      exact done.flat other old
    · rw [List.mem_singleton.mp new]
      exact excess_rewrite_self elements inside
  · have different : other ≠ address := fun same =>
      apart (List.mem_append_right _ (List.mem_singleton.mpr same))
    rw [contents_rewrite_of_ne elements different, excess_rewrite_of_ne elements different]
    exact done.spared other belowOther fun member => apart (List.mem_append_left _ member)
  · rw [flattenings_rewrite, done.traced, List.map_append, List.append_assoc]
    refine congrArg (before.flattenings ++ ·) (congrArg₂ (· ++ ·) ?_ ?_)
    · refine List.map_congr_left fun other member => (size_congr ?_ ?_).symm
      · exact contents_rewrite_of_ne elements (others other member)
      · exact excess_rewrite_of_ne elements (others other member)
    · rw [List.map_singleton, size_of_flat (excess_rewrite_self elements inside), self,
        Array.length_toList, Array.size, Nat.toUInt64, UInt64.toNat_ofNat']

theorem Rewrites.done (rewrites : Rewrites base before rewritten after) :
    Rewritten base before rewritten after := by
  induction rewrites with
  | none => exact .none base before
  | spares _ spares inductionHypothesis => exact inductionHypothesis.spares spares
  | flatten _ old spliced flattened inductionHypothesis =>
    exact inductionHypothesis.flatten old spliced flattened

/-! ### Actions that flatten -/

/-- All that happened to the storages below the base is that some were flattened. New storages hold
no placeholders. -/
def Traced (base : Nat) (start memory : Memory) : Prop :=
  memory.Shaped base Memory.flat ∧ ∃ rewritten, Rewrites base start rewritten memory

variable {start : Memory}

theorem traced_refl (memory : Memory) : Traced memory.storages.size memory memory :=
  ⟨memory.shaped_size, [], .none⟩

theorem admits_traced (inside : base ≤ start.storages.size) :
    Admits base Memory.flat (Traced base start) := by
  refine Lasts.admits ⟨?_, ?_⟩ (Nat.le_refl base)
  · rintro memory ⟨rewritten, rewrites⟩
    exact Nat.le_trans inside rewrites.done.length
  · rintro before after ⟨rewritten, rewrites⟩ spares
    exact ⟨rewritten, rewrites.spares spares⟩

/-- Whatever is flattened was there at the start, since new storages are flat. -/
theorem flatten_traced (address : Address) :
    (flatten address).Maintains (Traced base start) fun _ => True := by
  rintro before ⟨shaped, rewritten, rewrites⟩ _ after flattened
  refine ⟨?_, trivial⟩
  rcases flatten_eq_some flattened with ⟨_, rfl⟩ | ⟨elements, spliced, rfl⟩
  · exact ⟨shaped, rewritten, rewrites⟩
  · have old : address < base := Nat.lt_of_not_le fun beyond => spliced (shaped address beyond)
    refine ⟨fun other beyond => ?_, _, rewrites.flatten old spliced flattened⟩
    have different : other ≠ address := Nat.ne_of_gt (Nat.lt_of_lt_of_le old beyond)
    exact (excess_rewrite_of_ne elements different).trans (shaped other beyond)

section

variable (inside : base ≤ start.storages.size)

include inside

theorem slice_traced (address : Address) :
    (slice address).Maintains (Traced base start) fun _ => True :=
  slice_maintains (admits_traced inside).alike (flatten_traced address)

theorem unslice_traced (address : Address) :
    (unslice address).Maintains (Traced base start) fun _ => True :=
  unslice_maintains (admits_traced inside).alike address

theorem reading_traced {α : Type} (address : Address) {work : Array Value → Action α}
    {condition : α → Prop}
    (works : ∀ elements, (work elements).Maintains (Traced base start) condition) :
    (reading address work).Maintains (Traced base start) condition :=
  reading_maintains (admits_traced inside).alike (flatten_traced address) works

theorem element_traced (address : Address) (position : Nat) :
    (element address position).Maintains (Traced base start) fun _ => True :=
  element_maintains (admits_traced inside).alike (flatten_traced address) position

end

end Memory

/-! ### Products -/

namespace Product

open Memory

section

variable {base : Nat} {shape : Shape} {invariant : Memory → Prop}
  (admits : Admits base shape invariant)

include admits

theorem warn_maintains (cause : Warning) : (warn cause).Maintains invariant fun _ => True :=
  .modify fun _ holds => admits.alike holds (.of_storages rfl rfl)

/-- A product is never an embedded vector. -/
theorem refuse_maintains (cause : Warning) :
    (refuse cause).Maintains invariant fun result => result.isEmbedded = false :=
  (warn_maintains admits cause).bind fun _ _ => .pure rfl

theorem ofSums_maintains (fits : ∀ stored, shape stored 0)
    (sums : Except Warning (List Float)) :
    (ofSums sums).Maintains invariant fun result => result.isEmbedded = false := by
  cases sums with
  | error cause => exact refuse_maintains admits cause
  | ok sums =>
    have none : (sums.map Value.number).any Value.isEmbedded = false := by
      rw [List.any_map, List.any_eq_false]
      exact fun _ _ => Bool.false_ne_true
    have made : (newVector (sums.map .number)).Maintains invariant fun _ => True := by
      rw [newVector, none]
      exact (admits.allocate _ 0 (fits _)).imp fun _ _ => trivial
    exact made.bind fun _ _ => .pure rfl

theorem abandon_maintains (product : Address) (row : Nat) :
    (abandon product row).Maintains invariant fun result => result.isEmbedded = false :=
  (warn_maintains admits _).bind fun _ _ =>
    .bind (.modify fun _ holds => admits.released [.vector product] holds) fun _ _ => .pure rfl

end

variable {base : Nat} {start : Memory} (inside : base ≤ start.storages.size)

include inside

theorem readRows_traced (rows : List Value) :
    (readRows rows).Maintains (Traced base start) fun _ => True := by
  induction rows with
  | nil => exact .pure trivial
  | cons row rows inductionHypothesis =>
    cases row with
    | vector address =>
      exact (slice_traced inside address).bind fun _ _ =>
        inductionHypothesis.bind fun _ _ => .pure trivial
    | _ => exact inductionHypothesis.bind fun _ _ => .pure trivial

theorem closeRows_traced (rows : List Value) :
    (closeRows rows).Maintains (Traced base start) fun _ => True := by
  induction rows with
  | nil => exact .pure trivial
  | cons row rows inductionHypothesis =>
    cases row with
    | vector address => exact (unslice_traced inside address).bind fun _ _ => inductionHypothesis
    | _ => exact inductionHypothesis

theorem withRows_traced (matrix : List Value)
    (compute : List Row → Except Warning (List Float)) :
    (do
      let rows ← readRows matrix
      let product ← ofSums (compute rows)
      closeRows matrix
      return product : Action Value).Maintains (Traced base start)
        fun result => result.isEmbedded = false :=
  (readRows_traced inside matrix).bind fun rows _ =>
    (ofSums_maintains (admits_traced inside) (fun _ => rfl) (compute rows)).bind fun _ direct =>
      (closeRows_traced inside matrix).bind fun _ _ => .pure direct

/-- The product grows from the base on, where nothing is flattened. -/
theorem rowProducts_traced (matrix : List Value) {product : Address} (beyond : base ≤ product)
    (row : Nat) (rows : List Value) :
    (rowProducts matrix product row rows).Maintains (Traced base start) fun _ => True := by
  induction rows generalizing product row with
  | nil => exact .pure trivial
  | cons first rows inductionHypothesis =>
    have given : (abandon product row).Maintains (Traced base start) fun _ => True :=
      (abandon_maintains (admits_traced inside) product row).imp fun _ _ => trivial
    cases first with
    | vector entries =>
      refine .get_bind fun memory => ?_
      by_cases fits : memory.size entries = matrix.length
      · rw [if_pos fits]
        refine (reading_traced inside entries fun elements =>
          (withRows_traced inside matrix _).bind fun image direct =>
            (admits_traced inside).append beyond direct (flat_takes [image])).bind
              fun grown beyondGrown => ?_
        exact inductionHypothesis beyondGrown (row + 1)
      · rw [if_neg fits]
        exact given
    | _ => exact given

theorem matrixTimesMatrix_traced (left right : List Value) :
    (matrixTimesMatrix left right).Maintains (Traced base start) fun _ => True :=
  ((admits_traced inside).allocate #[] 0 rfl).bind fun _ beyond =>
    rowProducts_traced inside right beyond 0 left

theorem ofElements_traced (left right : List Value) :
    (ofElements left right).Maintains (Traced base start) fun _ => True := by
  have undefined : (pure .undefined : Action Value).Maintains (Traced base start)
      fun _ => True := .pure trivial
  have refused : ∀ cause, (refuse cause).Maintains (Traced base start) fun _ => True :=
    fun cause => (refuse_maintains (admits_traced inside) cause).imp fun _ _ => trivial
  have rows : ∀ matrix (compute : List Row → Except Warning (List Float)), (do
      let rows ← readRows matrix
      let product ← ofSums (compute rows)
      closeRows matrix
      return product : Action Value).Maintains (Traced base start) fun _ => True :=
    fun matrix compute => (withRows_traced inside matrix compute).imp fun _ _ => trivial
  unfold ofElements
  split
  · split
    · exact .pure trivial
    · exact undefined
  · split
    · exact rows _ _
    · exact refused _
  · refine .get_bind fun memory => ?_
    dsimp only
    split
    · exact rows _ _
    · exact refused _
  · refine .get_bind fun memory => ?_
    dsimp only
    split
    · exact matrixTimesMatrix_traced inside _ _
    · exact refused _
  · exact undefined

theorem ofVectors_traced (a b : Address) :
    (ofVectors a b).Maintains (Traced base start) fun _ => True :=
  reading_traced inside a fun _ => reading_traced inside b fun _ => ofElements_traced inside _ _

end Product

/-! ### Access by position -/

namespace Value

variable {base : Nat} {start : Memory}

open Memory

theorem newText_traced (inside : base ≤ start.storages.size) (content : String) :
    (newText content).Maintains (Traced base start) fun _ => True := by
  rintro before traced _ _ ⟨⟩
  exact ⟨(admits_traced inside).alike traced (.of_storages rfl rfl), trivial⟩

theorem elementAt_traced (inside : base ≤ start.storages.size) (value : Value) (position : Nat) :
    (value.elementAt position).Maintains (Traced base start) fun _ => True := by
  cases value with
  | text content =>
    unfold elementAt
    dsimp only
    split
    · exact newText_traced inside _
    · exact .pure trivial
  | vector address => exact element_traced inside address position
  | embedded address => exact element_traced inside address position
  | range =>
    unfold elementAt
    dsimp only
    split <;> exact .pure trivial
  | _ => exact .pure trivial

theorem index_traced (inside : base ≤ start.storages.size) (value position : Value) :
    (value.index position).Maintains (Traced base start) fun _ => True := by
  cases position with
  | number => exact elementAt_traced inside value _
  | _ => exact .pure trivial

theorem readingElements_traced (inside : base ≤ start.storages.size) {α : Type} (value : Value)
    (work : List Value → Option α) :
    (value.readingElements work).Maintains (Traced base start) fun _ => True := by
  cases value with
  | vector address => exact reading_traced inside address fun _ => .pure trivial
  | _ => exact .pure trivial

theorem tripleOr?_traced (inside : base ≤ start.storages.size) (value : Value) (third : Float) :
    (value.tripleOr? third).Maintains (Traced base start) fun _ => True := by
  refine (readingElements_traced inside value _).bind fun found _ => ?_
  cases found with
  | some components => exact .pure trivial
  | none => exact readingElements_traced inside value _

end Value

end SolidScript
