/-
This file says which changes of memory spare the storages below a base: those storages store what
they stored, and nothing was flattened. An invariant admits growth if it outlasts the changes of
owners, reports and identities, new storages, and the growth of storages from the base on. Under
such an invariant vectors are copied before they are written, so that what was there before is
spared, without regard to what the storages mean.
-/

import SolidScript.Proofs.Outcome
import SolidScript.Proofs.Storage

namespace SolidScript

def Event.flattened? : Event → Option Nat
  | warning _ => none
  | flattened size => some size

namespace Memory

/-- The sizes of the vectors that were flattened, the earliest first. -/
def flattenings (memory : Memory) : List Nat :=
  (memory.events.filterMap Event.flattened?).reverse

/-! ### Changes that spare storages -/

/-- All storages store what they stored, and nothing was flattened. -/
structure Alike (before after : Memory) : Prop where
  length : after.storages.size = before.storages.size
  elements : ∀ address, (after.storage address).elements = (before.storage address).elements
  excess : ∀ address, after.excess address = before.excess address
  flattenings : after.flattenings = before.flattenings

/-- The storages below the base store what they stored, and nothing was flattened. -/
structure Spares (base : Nat) (before after : Memory) : Prop where
  length : before.storages.size ≤ after.storages.size
  elements : ∀ address < base,
    (after.storage address).elements = (before.storage address).elements
  excess : ∀ address < base, after.excess address = before.excess address
  flattenings : after.flattenings = before.flattenings

theorem Reowned.alike {before after : Memory} (reowned : Reowned before after) :
    Alike before after where
  length := reowned.length
  elements := reowned.elements
  excess := reowned.excess
  flattenings := congrArg (fun events => (events.filterMap Event.flattened?).reverse) reowned.events

theorem Alike.of_storages {before after : Memory} (same : after.storages = before.storages)
    (flattenings : after.flattenings = before.flattenings) : Alike before after := by
  have storage : ∀ address, after.storage address = before.storage address :=
    fun address => congrArg (fun storages => storages.getD address default) same
  exact ⟨congrArg Array.size same, fun address => congrArg Storage.elements (storage address),
    fun address => congrArg (fun storage => storage.excess.toNat) (storage address), flattenings⟩

namespace Spares

variable {base : Nat} {before middle after : Memory}

theorem of_alike (alike : Alike before after) : Spares base before after where
  length := Nat.le_of_eq alike.length.symm
  elements address _ := alike.elements address
  excess address _ := alike.excess address
  flattenings := alike.flattenings

theorem refl (base : Nat) (memory : Memory) : Spares base memory memory :=
  ⟨Nat.le_refl _, fun _ _ => rfl, fun _ _ => rfl, rfl⟩

theorem trans (one : Spares base before middle) (two : Spares base middle after) :
    Spares base before after where
  length := Nat.le_trans one.length two.length
  elements address inside := (two.elements address inside).trans (one.elements address inside)
  excess address inside := (two.excess address inside).trans (one.excess address inside)
  flattenings := two.flattenings.trans one.flattenings

theorem mono {greater : Nat} (spares : Spares greater before after) (smaller : base ≤ greater) :
    Spares base before after where
  length := spares.length
  elements address inside := spares.elements address (Nat.lt_of_lt_of_le inside smaller)
  excess address inside := spares.excess address (Nat.lt_of_lt_of_le inside smaller)
  flattenings := spares.flattenings

/-- A new storage is beyond all that were there. -/
theorem add (inside : base ≤ before.storages.size) (storage : Storage) :
    Spares base before (before.add storage) := by
  have old : ∀ address < base, (before.add storage).storage address = before.storage address :=
    fun address below => before.storage_add_of_ne storage
      (Nat.ne_of_lt (Nat.lt_of_lt_of_le below inside))
  refine ⟨?_, fun address below => congrArg Storage.elements (old address below),
    fun address below => congrArg (fun storage => storage.excess.toNat) (old address below), rfl⟩
  rw [length_add]
  exact Nat.le_succ _

/-- A change from the base on spares what lies below. -/
theorem change {address : Address} (beyond : base ≤ address) (update : Storage → Storage) :
    Spares base before (before.change address update) := by
  have old : ∀ other < base, (before.change address update).storage other =
      before.storage other :=
    fun other below => before.storage_change_of_ne update
      (Nat.ne_of_lt (Nat.lt_of_lt_of_le below beyond))
  exact ⟨Nat.le_of_eq (before.length_change address update).symm,
    fun other below => congrArg Storage.elements (old other below),
    fun other below => congrArg (fun storage => storage.excess.toNat) (old other below), rfl⟩

theorem contents (spares : Spares base before after) {address : Address} (inside : address < base) :
    after.contents address = before.contents address :=
  congrArg Array.toList (spares.elements address inside)

theorem size (spares : Spares base before after) {address : Address} (below : address < base) :
    after.size address = before.size address :=
  size_congr (spares.contents below) (spares.excess address below)

end Spares

/-! ### Shapes of storages -/

/-- What storages may hold: their stored elements, and how many elements are hidden. -/
abbrev Shape := Array Value → Nat → Prop

/-- Nothing is hidden. -/
def flat : Shape := fun _ excess => excess = 0

/-- Storages may hold anything. -/
def loose : Shape := fun _ _ => True

/-- All storages of the shape are of it still with the given elements at their end. -/
def Shape.Takes (shape : Shape) (added : List Value) (hidden : UInt64) : Prop :=
  ∀ elements (excess : UInt64), shape elements excess.toNat →
    shape (elements ++ added) (excess + hidden).toNat

/-- All storages from an address on are of the shape. -/
def Shaped (memory : Memory) (first : Address) (shape : Shape) : Prop :=
  ∀ address, first ≤ address → shape (memory.storage address).elements (memory.excess address)

theorem flat_takes (added : List Value) : Shape.Takes flat added 0 := by
  intro elements excess none
  rw [UInt64.add_zero]
  exact none

theorem loose_takes (added : List Value) (hidden : UInt64) : Shape.Takes loose added hidden :=
  fun _ _ _ => trivial

/-- A memory is flat beyond its storages. -/
theorem shaped_size (memory : Memory) : memory.Shaped memory.storages.size flat := by
  intro address outside
  rw [excess, storage_of_outside _ _ outside]
  rfl

variable {base first : Nat} {shape : Shape} {before after : Memory}

theorem Shaped.alike (shaped : before.Shaped first shape) (alike : Alike before after) :
    after.Shaped first shape := by
  intro address beyond
  rw [alike.elements, alike.excess]
  exact shaped address beyond

theorem Shaped.add (shaped : before.Shaped first shape) {storage : Storage}
    (fits : shape storage.elements storage.excess.toNat) :
    (before.add storage).Shaped first shape := by
  intro address beyond
  by_cases fresh : address = before.storages.size
  · rw [excess, fresh, before.storage_add_fresh]
    exact fits
  · rw [excess, before.storage_add_of_ne storage fresh]
    exact shaped address beyond

theorem Shaped.grow (shaped : before.Shaped first shape) {address : Address} {added : List Value}
    {hidden : UInt64} (takes : shape.Takes added hidden) :
    (before.change address (Storage.extended added hidden)).Shaped first shape := by
  intro other beyond
  by_cases inside : other = address ∧ address < before.storages.size
  · obtain ⟨rfl, inside⟩ := inside
    rw [excess, storage_change_self _ _ _ inside]
    exact takes _ _ (shaped other beyond)
  · have same : (before.change address (Storage.extended added hidden)).storage other =
        before.storage other := by
      by_cases changed : other = address
      · subst changed
        have outside := Nat.le_of_not_lt fun below => inside ⟨rfl, below⟩
        rw [storage_of_outside _ _ outside, storage_of_outside _ _ (by rwa [length_change])]
      · exact storage_change_of_ne _ _ changed
    rw [excess, same]
    exact shaped other beyond

/-- Flatness from the base on is shown above and below a greater base. -/
theorem Shaped.of_spares {greater : Nat} (shaped : before.Shaped base shape)
    (spares : Spares greater before after) (new : after.Shaped greater shape) :
    after.Shaped base shape := by
  intro address beyond
  rcases Nat.lt_or_ge address greater with inside | outside
  · rw [spares.elements address inside, spares.excess address inside]
    exact shaped address beyond
  · exact new address outside

/-! ### Invariants that admit growth -/

/-- A property of memory that outlasts every change that spares the storages below the base. -/
structure Lasts (base : Nat) (holds : Memory → Prop) : Prop where
  inside : ∀ {memory}, holds memory → base ≤ memory.storages.size
  spares : ∀ {before after}, holds before → Spares base before after → holds after

/-- An invariant that holds on while vectors from the base on are made, copied and grown, as far as
the shape allows it. -/
structure Admits (base : Nat) (shape : Shape) (invariant : Memory → Prop) : Prop where
  inside : ∀ {memory}, invariant memory → base ≤ memory.storages.size
  alike : ∀ {before after}, invariant before → Alike before after → invariant after
  made : ∀ {memory} (stored : Array Value) (excess : UInt64), invariant memory →
    shape stored excess.toNat → invariant (memory.add ⟨stored, excess, 1, 0⟩)
  copied : ∀ {memory} (address : Address), invariant memory → base ≤ address →
    invariant (memory.add
      ⟨(memory.storage address).elements, (memory.storage address).excess, 1, 0⟩)
  grown : ∀ {memory address added hidden}, invariant memory → base ≤ address →
    shape.Takes added hidden →
      invariant (memory.change address (Storage.extended added hidden))

/-- A shape of storages is an invariant beside every property that outlasts such changes. -/
theorem Lasts.admits {holds : Memory → Prop} (lasts : Lasts base holds) (lower : first ≤ base) :
    Admits base shape fun memory => memory.Shaped first shape ∧ holds memory where
  inside invariant := lasts.inside invariant.2
  alike := by
    rintro before after ⟨shaped, held⟩ alike
    exact ⟨shaped.alike alike, lasts.spares held (.of_alike alike)⟩
  made := by
    rintro memory stored excess ⟨shaped, held⟩ fits
    exact ⟨shaped.add fits, lasts.spares held (.add (lasts.inside held) _)⟩
  copied := by
    rintro memory address ⟨shaped, held⟩ beyond
    exact ⟨shaped.add (shaped address (Nat.le_trans lower beyond)),
      lasts.spares held (.add (lasts.inside held) _)⟩
  grown := by
    rintro memory address added hidden ⟨shaped, held⟩ beyond takes
    exact ⟨shaped.grow takes, lasts.spares held (.change beyond _)⟩

/-- A property that outlasts such changes asks for no shape of the storages. -/
theorem Lasts.admits_any {holds : Memory → Prop} (lasts : Lasts base holds) :
    Admits base shape holds where
  inside := lasts.inside
  alike held alike := lasts.spares held (.of_alike alike)
  made _ _ held _ := lasts.spares held (.add (lasts.inside held) _)
  copied _ held _ := lasts.spares held (.add (lasts.inside held) _)
  grown held beyond _ := lasts.spares held (.change beyond _)

/-- The storages below a base were spared since some memory. -/
theorem lasts_spares {base : Nat} {start : Memory} (inside : base ≤ start.storages.size) :
    Lasts base (Spares base start) where
  inside spared := Nat.le_trans inside spared.length
  spares := Spares.trans

/-- Memory gained flat vectors at most: all storages that were there store what they stored, and
nothing was flattened. -/
def Adds (before after : Memory) : Prop :=
  after.Shaped before.storages.size flat ∧ Spares before.storages.size before after

theorem Adds.refl (memory : Memory) : Adds memory memory :=
  ⟨memory.shaped_size, .refl _ memory⟩

theorem Adds.trans {before middle after : Memory} (one : Adds before middle)
    (two : Adds middle after) : Adds before after :=
  ⟨one.1.of_spares two.2 two.1, one.2.trans (two.2.mono one.2.length)⟩

theorem Adds.of_alike {before after : Memory} (alike : Alike before after) : Adds before after :=
  ⟨before.shaped_size.alike alike, .of_alike alike⟩

theorem admits_adds (start : Memory) : Admits start.storages.size flat (Adds start) :=
  (lasts_spares (Nat.le_refl _)).admits (Nat.le_refl _)

/-! ### Writing under such an invariant -/

namespace Admits

variable {invariant : Memory → Prop} {memory : Memory}

theorem retained (admits : Admits base shape invariant) (values : List Value)
    (holds : invariant memory) : invariant (memory.retain values) :=
  admits.alike holds (memory.reowned_retain values).alike

theorem released (admits : Admits base shape invariant) (values : List Value)
    (holds : invariant memory) : invariant (memory.release values) :=
  admits.alike holds (memory.reowned_release values).alike

theorem allocate (admits : Admits base shape invariant) (stored : Array Value) (excess : UInt64)
    (fits : shape stored excess.toNat) :
    (Memory.allocate stored excess).Maintains invariant fun result => base ≤ result := by
  intro before holds result after reached
  cases (allocate_eq stored excess before).symm.trans reached
  exact ⟨admits.made stored excess holds fits, admits.inside holds⟩

/-- The storage to write to lies from the base on, if the given one does. -/
theorem own (admits : Admits base shape invariant) {address : Address} (beyond : base ≤ address) :
    (Memory.own address).Maintains invariant fun result => base ≤ result := by
  intro before holds result after reached
  unfold Memory.own at reached
  by_cases unique : before.owners address = 1
  · rw [if_pos unique] at reached
    cases reached
    exact ⟨holds, beyond⟩
  · rw [if_neg unique] at reached
    cases reached
    have reowned := before.reowned_retain (before.storage address).elements.toList
    have retained := admits.retained (before.storage address).elements.toList holds
    have copied := admits.copied address retained beyond
    rw [reowned.elements, UInt64.toNat_inj.mp (reowned.excess address)] at copied
    exact ⟨admits.released _ copied, admits.inside retained⟩

theorem put (admits : Admits base shape invariant) {address : Address} {added : List Value}
    {hidden : UInt64} (beyond : base ≤ address) (takes : shape.Takes added hidden) :
    (Memory.put address added hidden).Maintains invariant fun result => base ≤ result :=
  (admits.own beyond).bind fun _ beyondTarget =>
    .bind (.modify fun _ holds => admits.grown holds beyondTarget takes)
      fun _ _ => .pure beyondTarget

/-- A value that is no embedded one is stored as it is. -/
theorem append (admits : Admits base shape invariant) {address : Address} {value : Value}
    (beyond : base ≤ address) (direct : value.isEmbedded = false) (takes : shape.Takes [value] 0) :
    (Memory.append address value).Maintains invariant fun result => base ≤ result := by
  cases value with
  | embedded => contradiction
  | _ => exact admits.put beyond takes

end Admits

/-! ### Slices under an invariant -/

section

variable {invariant : Memory → Prop}

/-- The memory with another number of readers stores the same. -/
theorem alike_readers (memory : Memory) (address : Address) (readers : Nat) :
    Alike memory (memory.change address (Storage.withReaders readers)) where
  length := memory.length_change address _
  elements _ := storage_change_keeps Storage.elements _ _ _ _ fun _ => rfl
  excess _ := congrArg UInt64.toNat (storage_change_keeps Storage.excess _ _ _ _ fun _ => rfl)
  flattenings := rfl

variable (alike : ∀ {before after}, invariant before → Alike before after → invariant after)

include alike

theorem unslice_maintains (address : Address) :
    (unslice address).Maintains invariant fun _ => True :=
  .modify fun memory holds => alike holds (memory.alike_readers address _)

variable {address : Address} (flattens : (flatten address).Maintains invariant fun _ => True)

include flattens

theorem slice_maintains : (slice address).Maintains invariant fun _ => True := by
  refine flattens.bind fun _ _ => ?_
  rintro before holds _ _ ⟨⟩
  exact ⟨alike holds (before.alike_readers address _), trivial⟩

theorem reading_maintains {α : Type} {work : Array Value → Action α} {condition : α → Prop}
    (works : ∀ elements, (work elements).Maintains invariant condition) :
    (reading address work).Maintains invariant condition :=
  (slice_maintains alike flattens).bind fun elements _ => (works elements).bind fun _ holds =>
    (unslice_maintains alike address).bind fun _ _ => .pure holds

theorem element_maintains (position : Nat) :
    (element address position).Maintains invariant fun _ => True := by
  have reads : (reading address fun elements => return elements[position]?.getD .undefined
      : Action Value).Maintains invariant fun _ => True :=
    reading_maintains alike flattens fun _ => .pure trivial
  refine reads.bind fun found _ => .bind (.modify fun memory holds => ?_) fun _ _ => .pure trivial
  exact alike holds (memory.reowned_retain [found]).alike

end

end Memory

end SolidScript
