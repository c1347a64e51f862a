/-
This file states the invariant of memory. Every storage that has owners shows elements that denote
trees, and no placeholder in it stands for an empty storage; owners are counted right; and a storage
of which a slice is being read is flat. That counters are right as well is part of the invariant
only as far as one can be sure of it: a vector of too many elements to be counted may have taken an
element out of another one by a wrong count.
-/

import SolidScript.Proofs.Outcome
import SolidScript.Proofs.Ownership
import SolidScript.Proofs.Reading
import SolidScript.Proofs.Sparing
import SolidScript.Proofs.Tallying

namespace SolidScript

open Value (handles)

/-- A storage shows its elements, its placeholders are worth their place, and its counter is right
if one can be sure. -/
structure Formed (sure : Prop) (memory : Memory) (address : Address) : Prop where
  shows : ∃ elements items, Shows memory address elements items
  /-- Only stored elements can hide others. -/
  filled : memory.excess address ≠ 0 → memory.contents address ≠ []
  solid : ∀ inner, .embedded inner ∈ memory.contents address → memory.contents inner ≠ []
  tallied : sure → memory.Tallied address

/-- The invariant of memory while the given handles are at work. -/
structure Sound (sure : Prop) (memory : Memory) (atWork : List Address) : Prop where
  owned : memory.Owned atWork
  formed : ∀ address, memory.owners address ≠ 0 → Formed sure memory address
  /-- A storage of which a slice is being read is flat. -/
  quiet : ∀ address, memory.readers address ≠ 0 → memory.excess address = 0
  closed : ∀ address, ∀ handle ∈ handles (memory.contents address), handle < memory.storages.size
  /-- Arrays that are no longer than arrays can be are counted right. -/
  fitted : memory.Fits → sure

namespace Memory

/-- The storages of a memory, those without owners included. -/
def Has (memory : Memory) (address : Address) : Prop := address < memory.storages.size

/-- The storages of a memory that have owners. -/
def Lives (memory : Memory) (address : Address) : Prop := memory.owners address ≠ 0

/-- Only storages of the memory are denoted. -/
theorem has_of_denotes {memory : Memory} {value : Value} {tree : Tree}
    (denotes : Denotes memory value tree) : ∀ handle ∈ handles [value], memory.Has handle := by
  intro handle member
  cases denotes with
  | vector inside | embedded inside => exact List.mem_singleton.mp member ▸ inside
  | _ => contradiction

/-- No memory, no handles. -/
theorem sound_empty {sure : Prop} (holds : sure) : Sound sure Memory.empty [] where
  owned _ := rfl
  formed _ alive := absurd rfl alive
  quiet _ _ := rfl
  closed _ _ member := absurd member List.not_mem_nil
  fitted _ := holds

end Memory

/-- If no placeholder stands for an empty storage, there are no fewer elements than stored ones. -/
theorem Expands.length_le {memory : Memory} {kept : Address → Prop} {stored elements : List Value}
    (expands : Expands memory stored elements)
    (closed : ∀ address, kept address → ∀ handle ∈ handles (memory.contents address), kept handle)
    (filled : ∀ address, kept address → ∀ inner, .embedded inner ∈ memory.contents address →
      memory.contents inner ≠ [])
    (start : ∀ handle ∈ handles stored, kept handle)
    (solid : ∀ inner, .embedded inner ∈ stored → memory.contents inner ≠ []) :
    stored.length ≤ elements.length := by
  induction expands with
  | nil => exact Nat.le_refl _
  | plain _ _ inductionHypothesis =>
    rw [handles_cons] at start
    exact Nat.succ_le_succ (inductionHypothesis
      (fun handle member => start handle (List.mem_append_right _ member))
      fun inner member => solid inner (List.mem_cons_of_mem _ member))
  | @splice address stored inner elements _ _ _ innerHypothesis restHypothesis =>
    have keptAddress : kept address := start address List.mem_cons_self
    have within := innerHypothesis (closed address keptAddress) (filled address keptAddress)
    have rest := restHypothesis
      (fun handle member => start handle (List.mem_cons_of_mem _ member))
      fun inner member => solid inner (List.mem_cons_of_mem _ member)
    have some' := List.length_pos_iff.mpr (solid address List.mem_cons_self)
    rw [List.length_cons, List.length_append]
    omega

namespace Sound

variable {sure : Prop} {memory : Memory} {atWork : List Address}

theorem enclosed (sound : Sound sure memory atWork) : Enclosed memory memory.Has where
  inside _ has := has
  closed address _ := sound.closed address

/-- The storages that have owners refer to one another only. -/
theorem enclosed_alive (sound : Sound sure memory atWork) : Enclosed memory memory.Lives where
  inside _ := Memory.owners_inside
  closed _ alive _ := sound.owned.alive_of_held alive

theorem of_count (sound : Sound sure memory atWork) (others : List Address)
    (same : ∀ address, atWork.count address = others.count address) : Sound sure memory others where
  owned := sound.owned.of_count others same
  formed := sound.formed
  quiet := sound.quiet
  closed := sound.closed
  fitted := sound.fitted

/-- One may be less sure. -/
theorem mono (sound : Sound sure memory atWork) {other : Prop} (implies : other → sure)
    (fitted : memory.Fits → other) : Sound other memory atWork where
  owned := sound.owned
  formed address alive :=
    have formed := sound.formed address alive
    ⟨formed.shows, formed.filled, formed.solid, fun holds => formed.tallied (implies holds)⟩
  quiet := sound.quiet
  closed := sound.closed
  fitted := fitted

/-- If few elements are added, or arrays are no longer than arrays can be, one is as sure as
before. -/
theorem of_few (sound : Sound sure memory atWork) {few : Prop} :
    Sound (sure ∧ (few ∨ memory.Fits)) memory atWork :=
  sound.mono And.left fun fits => ⟨sound.fitted fits, Or.inr fits⟩

theorem shows (sound : Sound sure memory atWork) {address : Address}
    (alive : memory.owners address ≠ 0) : ∃ elements items, Shows memory address elements items :=
  (sound.formed address alive).shows

/-- The elements of a storage that has owners refer to storages that have owners. -/
theorem alive_of_shows (sound : Sound sure memory atWork) {address : Address}
    (alive : memory.owners address ≠ 0) {elements : List Value} {items : List Tree}
    (shows : Shows memory address elements items) :
    ∀ handle ∈ handles elements, memory.owners handle ≠ 0 :=
  shows.expands.handles_of sound.enclosed_alive.closed (sound.enclosed_alive.closed address alive)

/-- If one can be sure, the counters of all storages that have owners are right. -/
theorem counts (sound : Sound sure memory atWork) (holds : sure) : memory.Counts memory.Lives where
  closed := sound.enclosed_alive.closed
  tallied address alive := (sound.formed address alive).tallied holds

/-- What a flat storage of few elements shows is what it stores. -/
theorem contents_of_flat (sound : Sound sure memory atWork) (holds : sure) {address : Address}
    (alive : memory.owners address ≠ 0) (flat : memory.excess address = 0) {elements : List Value}
    {items : List Tree} (shows : Shows memory address elements items)
    (few : items.length < 2 ^ 64) : memory.contents address = elements :=
  shows.contents_of_flat (sound.counts holds) alive flat few

/-- Stored elements of which none is an empty placeholder stand for as many elements at least. -/
theorem length_le (sound : Sound sure memory atWork) {stored elements : List Value}
    (alive : ∀ handle ∈ handles stored, memory.owners handle ≠ 0)
    (solid : ∀ inner, .embedded inner ∈ stored → memory.contents inner ≠ [])
    (expands : Expands memory stored elements) : stored.length ≤ elements.length :=
  expands.length_le sound.enclosed_alive.closed
    (fun address living => (sound.formed address living).solid) alive solid

theorem length_le_of_shows (sound : Sound sure memory atWork) {address : Address}
    (alive : memory.owners address ≠ 0) {elements : List Value}
    (expands : Expands memory (memory.contents address) elements) :
    (memory.contents address).length ≤ elements.length :=
  sound.length_le (sound.enclosed_alive.closed address alive) (sound.formed address alive).solid
    expands

/-- A storage of which the size is not zero stores something. -/
theorem contents_ne_nil (sound : Sound sure memory atWork) {address : Address}
    (alive : memory.owners address ≠ 0) (some' : memory.size address ≠ 0) :
    memory.contents address ≠ [] := by
  intro none
  have flat : memory.excess address = 0 := by
    by_contra hides
    exact (sound.formed address alive).filled hides none
  rw [memory.size_of_flat flat, none] at some'
  exact some' rfl

end Sound

/-! ### Carried storages -/

namespace Sound

variable {sure : Prop} {before after : Memory} {atWork : List Address} {kept : Address → Prop}
  {address : Address}

/-- A storage that is carried keeps its size. -/
theorem size_of_carries (sound : Sound sure before atWork) (carries : Carries kept before after)
    (keptAddress : kept address) (alive : before.owners address ≠ 0) (holds : sure) :
    after.size address = before.size address := by
  cases carries.relaid address keptAddress with
  | same contents excess => exact Memory.size_congr contents excess
  | flattened _ flat expands =>
    rw [Memory.size_of_flat flat, (sound.counts holds).size_eq_mod alive expands]

theorem hidden_of_carries (sound : Sound sure before atWork) (carries : Carries kept before after)
    {stored : List Value} (keptStored : ∀ handle ∈ handles stored, kept handle)
    (alive : ∀ handle ∈ handles stored, before.owners handle ≠ 0) (holds : sure) :
    after.hidden stored = before.hidden stored :=
  Memory.hidden_congr fun inner member =>
    have handle := mem_handles.mpr (Or.inr member)
    sound.size_of_carries carries (keptStored inner handle) (alive inner handle) holds

theorem contents_of_carries (sound : Sound sure before atWork) (carries : Carries kept before after)
    (keptAddress : kept address) (alive : before.owners address ≠ 0)
    (some' : before.contents address ≠ []) : after.contents address ≠ [] := by
  cases carries.relaid address keptAddress with
  | same contents _ => rwa [contents]
  | flattened _ _ expands =>
    have more := sound.length_le_of_shows alive expands
    have positive := List.length_pos_iff.mpr some'
    exact List.length_pos_iff.mp (Nat.lt_of_lt_of_le positive more)

/-- A carried storage stays formed. -/
theorem formed_of_carries (sound : Sound sure before atWork) (carries : Carries kept before after)
    (keptAddress : kept address) (alive : before.owners address ≠ 0) :
    Formed sure after address := by
  obtain ⟨⟨elements, items, shows⟩, filled, solid, tallied⟩ := sound.formed address alive
  have keptStored := carries.enclosed.closed address keptAddress
  have aliveStored := sound.enclosed_alive.closed address alive
  have shown := carries.shows shows keptAddress
  cases carries.relaid address keptAddress with
  | same contents excess =>
    refine ⟨⟨elements, items, shown⟩, fun hides => ?_, fun inner stored => ?_, fun holds => ?_⟩
    · rw [contents]
      exact filled (excess ▸ hides)
    · rw [contents] at stored
      have handle := mem_handles.mpr (Or.inr stored)
      exact sound.contents_of_carries carries (keptStored inner handle) (aliveStored inner handle)
        (solid inner stored)
    · refine ⟨fun inner stored => ?_, ?_⟩
      · rw [contents] at stored
        have handle := mem_handles.mpr (Or.inr stored)
        have alive := aliveStored inner handle
        rw [sound.size_of_carries carries (keptStored inner handle) alive holds]
        exact (tallied holds).large inner stored
      · rw [contents, excess, sound.hidden_of_carries carries keptStored aliveStored holds]
        exact (tallied holds).excess
  | flattened _ flat expands =>
    refine ⟨⟨elements, items, shown⟩, fun hides => absurd flat hides, fun inner stored => ?_,
      fun _ => .of_direct flat expands.direct⟩
    exact absurd (expands.direct _ stored) (by simp [Value.isEmbedded])

end Sound

/-! ### What operations leave as it was -/

def Event.warning? : Event → Option Warning
  | warning cause => some cause
  | flattened _ => none

/-- The warnings of a memory, the latest first. -/
def Memory.warnings (memory : Memory) : List Warning := memory.events.filterMap Event.warning?

/-- Apart from the storages themselves, nothing changed but that warnings were added and slices of
storages are being read. No storage became shorter. -/
structure Steady (warned : List Warning) (lent : List Address) (before after : Memory) : Prop where
  grown : Memory.Grown before after
  readers : ∀ address, after.readers address = before.readers address + lent.count address
  closures : after.closures = before.closures
  warnings : after.warnings = warned.reverse ++ before.warnings

namespace Steady

theorem refl (memory : Memory) : Steady [] [] memory memory :=
  ⟨fun _ => Nat.le_refl _, fun _ => rfl, rfl, rfl⟩

theorem trans {before middle after : Memory} {warned later : List Warning}
    {lent further : List Address} (one : Steady warned lent before middle)
    (two : Steady later further middle after) :
    Steady (warned ++ later) (lent ++ further) before after where
  grown address := Nat.le_trans (one.grown address) (two.grown address)
  readers address := by
    rw [two.readers, one.readers, List.count_append, Nat.add_assoc]
  closures := two.closures.trans one.closures
  warnings := by
    rw [two.warnings, one.warnings, List.reverse_append, List.append_assoc]

theorem of_reowned {before after : Memory} (reowned : Memory.Reowned before after) :
    Steady [] [] before after where
  grown address := Nat.le_of_eq (congrArg List.length (reowned.contents address).symm)
  readers := reowned.readers
  closures := reowned.closures
  warnings := congrArg (List.filterMap _) reowned.events

end Steady

/-- No storage was flattened, if no array is longer than arrays can be. -/
structure Silent (before after : Memory) : Prop where
  grown : Memory.Grown before after
  flattenings : after.Fits → after.flattenings = before.flattenings

theorem Silent.refl (memory : Memory) : Silent memory memory :=
  ⟨fun _ => Nat.le_refl _, fun _ => rfl⟩

theorem Silent.trans {before middle after : Memory} (one : Silent before middle)
    (two : Silent middle after) : Silent before after where
  grown address := Nat.le_trans (one.grown address) (two.grown address)
  flattenings fits := (two.flattenings fits).trans (one.flattenings (fits.of_grown two.grown))

theorem Silent.of_reowned {before after : Memory} (reowned : Memory.Reowned before after) :
    Silent before after :=
  ⟨(Steady.of_reowned reowned).grown, fun _ => reowned.alike.flattenings⟩

/-- Nothing was warned of, no slice was lent, and no storage was flattened. -/
structure Calm (before after : Memory) : Prop extends Steady [] [] before after where
  silent : Silent before after

namespace Calm

variable {before middle after : Memory}

theorem refl (memory : Memory) : Calm memory memory := ⟨.refl memory, .refl memory⟩

theorem trans (one : Calm before middle) (two : Calm middle after) : Calm before after where
  toSteady := one.toSteady.trans two.toSteady
  silent := one.silent.trans two.silent

/-- Nothing was flattened at all. -/
theorem of_steady (steady : Steady [] [] before after)
    (same : after.flattenings = before.flattenings) : Calm before after :=
  ⟨steady, steady.grown, fun _ => same⟩

theorem of_reowned (reowned : Memory.Reowned before after) : Calm before after :=
  ⟨.of_reowned reowned, .of_reowned reowned⟩

end Calm

/-- All storages that were there are carried over. Their sizes stay the same, if no array is longer
than arrays can be. -/
structure Evolves (warned : List Warning) (lent : List Address) (before after : Memory) : Prop where
  carries : Carries before.Has before after
  sizes : after.Fits → ∀ address, before.Has address → after.size address = before.size address
  steady : Steady warned lent before after

namespace Evolves

variable {before middle after : Memory}

theorem refl {sure : Prop} {atWork : List Address} (sound : Sound sure before atWork) :
    Evolves [] [] before before where
  carries := .refl sound.enclosed
  sizes _ _ _ := rfl
  steady := .refl before

theorem trans {warned later : List Warning} {lent further : List Address}
    (one : Evolves warned lent before middle) (two : Evolves later further middle after) :
    Evolves (warned ++ later) (lent ++ further) before after where
  carries := one.carries.trans two.carries fun _ has => Nat.lt_of_lt_of_le has one.carries.length
  sizes fits address has :=
    have later := Nat.lt_of_lt_of_le has one.carries.length
    (two.sizes fits address later).trans (one.sizes (fits.of_grown two.steady.grown) address has)
  steady := one.steady.trans two.steady

theorem of_reowned {sure : Prop} {atWork : List Address} (sound : Sound sure before atWork)
    (reowned : Memory.Reowned before after) : Evolves [] [] before after where
  carries := .of_reowned sound.enclosed reowned
  sizes _ address _ := Memory.size_congr (reowned.contents address) (reowned.excess address)
  steady := .of_reowned reowned

variable {warned : List Warning} {lent : List Address}

/-- Whatever a value denoted it denotes. -/
theorem denotes (evolves : Evolves warned lent before after) {value : Value} {tree : Tree}
    (denotes : Denotes before value tree) : Denotes after value tree :=
  evolves.carries.denotes denotes (Memory.has_of_denotes denotes)

theorem each (evolves : Evolves warned lent before after) {values : List Value} {items : List Tree}
    (each : List.Forall₂ (Denotes before) values items) :
    List.Forall₂ (Denotes after) values items :=
  each.imp fun _ _ => evolves.denotes

/-- Whatever a walk followed it follows. -/
theorem follows (evolves : Evolves warned lent before after) {walk : Walk} {items : List Tree}
    (follows : Follows before walk items) : Follows after walk items :=
  follows.carried evolves.carries follows.1

theorem shows (evolves : Evolves warned lent before after) {address : Address}
    {elements : List Value} {items : List Tree} (shows : Shows before address elements items) :
    Shows after address elements items :=
  evolves.carries.shows shows shows.inside

/-- A memory of which the arrays have the lengths of arrays had such ones before. -/
theorem fits (evolves : Evolves warned lent before after) (fits : after.Fits) : before.Fits :=
  fits.of_grown evolves.steady.grown

end Evolves

/-- What the given handles lead to means what it meant. -/
structure Keeps (atWork : List Address) (before after : Memory) : Prop where
  denotes : ∀ value tree, (∀ handle ∈ handles [value], handle ∈ atWork) →
    Denotes before value tree → Denotes after value tree
  follows : ∀ walk items, (∀ level ∈ walk, level.storage ∈ atWork) →
    Follows before walk items → Follows after walk items

namespace Keeps

variable {atWork : List Address} {before middle after : Memory}

theorem trans (one : Keeps atWork before middle) (two : Keeps atWork middle after) :
    Keeps atWork before after where
  denotes value tree start denotes :=
    two.denotes value tree start (one.denotes value tree start denotes)
  follows walk items start follows :=
    two.follows walk items start (one.follows walk items start follows)

theorem refl (atWork : List Address) (memory : Memory) : Keeps atWork memory memory where
  denotes _ _ _ denotes := denotes
  follows _ _ _ follows := follows

/-- Fewer handles lead to less. -/
theorem of_subset {others : List Address} (keeps : Keeps atWork before after)
    (subset : ∀ address ∈ others, address ∈ atWork) : Keeps others before after where
  denotes value tree start :=
    keeps.denotes value tree fun handle member => subset _ (start handle member)
  follows walk items start :=
    keeps.follows walk items fun level member => subset _ (start level member)

theorem of_carries {kept : Address → Prop} (carries : Carries kept before after)
    (start : ∀ address ∈ atWork, kept address) : Keeps atWork before after where
  denotes _ _ within denotes :=
    carries.denotes denotes fun handle member => start handle (within handle member)
  follows _ _ within follows :=
    follows.carried carries fun level member => start level.storage (within level member)

theorem of_evolves {sure : Prop} {warned : List Warning} {lent : List Address}
    (evolves : Evolves warned lent before after) (sound : Sound sure before atWork) :
    Keeps atWork before after :=
  of_carries evolves.carries fun _ member => Memory.owners_inside (sound.owned.alive_of_mem member)

theorem vector (keeps : Keeps atWork before after) {address : Address} {tree : Tree}
    (member : address ∈ atWork) (denotes : Denotes before (.vector address) tree) :
    Denotes after (.vector address) tree :=
  keeps.denotes _ _ (fun _ inHandles => List.mem_singleton.mp inHandles ▸ member) denotes

theorem each (keeps : Keeps atWork before after) {values : List Value} {items : List Tree}
    (start : ∀ handle ∈ handles values, handle ∈ atWork)
    (each : List.Forall₂ (Denotes before) values items) :
    List.Forall₂ (Denotes after) values items := by
  refine forall₂_imp_of_mem each fun value member item _ denotes => ?_
  refine keeps.denotes value item (fun handle inValue => start handle ?_) denotes
  exact (handles_sublist (List.singleton_sublist.mpr member)).subset inValue

end Keeps

/-! ### Keeping the invariant -/

namespace Sound

variable {sure : Prop} {before after : Memory} {atWork others : List Address}

theorem fitted_of_grown (sound : Sound sure before atWork) (grown : Memory.Grown before after)
    (fits : after.Fits) : sure :=
  sound.fitted (fits.of_grown grown)

/-- A change of owners that counts right keeps the invariant, if it gives no storage an owner that
had none. -/
theorem of_reowned (sound : Sound sure before atWork) (reowned : Memory.Reowned before after)
    (owned : after.Owned others)
    (alive : ∀ address, after.owners address ≠ 0 → before.owners address ≠ 0) :
    Sound sure after others where
  owned := owned
  formed address owners :=
    sound.formed_of_carries (.of_reowned sound.enclosed_alive reowned) (alive address owners)
      (alive address owners)
  quiet address := by
    rw [reowned.readers, reowned.excess]
    exact sound.quiet address
  closed address := by
    rw [reowned.contents, reowned.length]
    exact sound.closed address
  fitted := sound.fitted_of_grown (Steady.of_reowned reowned).grown

/-- A change of one storage keeps the invariant, if it holds of that storage afterwards. -/
theorem of_others {kept : Address → Prop} (sound : Sound sure before atWork)
    (carries : Carries kept before after) {address : Address}
    (apart : ∀ other, other ≠ address → before.owners other ≠ 0 → kept other)
    (same : ∀ other, other ≠ address → after.storage other = before.storage other)
    (owned : after.Owned others) (formed : after.owners address ≠ 0 → Formed sure after address)
    (quiet : after.readers address ≠ 0 → after.excess address = 0)
    (closed : ∀ handle ∈ handles (after.contents address), handle < after.storages.size)
    (grown : Memory.Grown before after) : Sound sure after others := by
  refine ⟨owned, fun other alive => ?_, fun other lent => ?_, fun other handle member => ?_,
    sound.fitted_of_grown grown⟩
  · by_cases changed : other = address
    · subst changed
      exact formed alive
    · rw [Memory.owners, same other changed] at alive
      exact sound.formed_of_carries carries (apart other changed alive) alive
  · by_cases changed : other = address
    · subst changed
      exact quiet lent
    · rw [Memory.readers, same other changed] at lent
      rw [Memory.excess, same other changed]
      exact sound.quiet other lent
  · by_cases changed : other = address
    · subst changed
      exact closed handle member
    · rw [Memory.contents, same other changed] at member
      exact Nat.lt_of_lt_of_le (sound.closed other handle member) carries.length

theorem retain (sound : Sound sure before atWork) (values : List Value)
    (alive : ∀ handle ∈ handles values, before.owners handle ≠ 0) :
    Sound sure (before.retain values) (handles values ++ atWork) :=
  sound.of_reowned (before.reowned_retain values) (sound.owned.retain values alive)
    fun _ => Memory.alive_of_retain alive

theorem release (values : List Value) (sound : Sound sure before (handles values ++ atWork)) :
    Sound sure (before.release values) atWork :=
  sound.of_reowned (before.reowned_release values) (sound.owned.release values)
    fun _ => Memory.alive_of_release

/-- The elements of the storage that the last handle gives up are at work instead. -/
theorem unwrap {address : Address} (sound : Sound sure before (address :: atWork))
    (unique : before.owners address = 1) :
    Sound sure (before.setOwners address 0) (handles (before.contents address) ++ atWork) := by
  refine sound.of_reowned (before.reowned_setOwners address 0) (sound.owned.unwrap unique) ?_
  intro other alive
  have fewer : (before.setOwners address 0).owners other ≤ before.owners other :=
    Memory.owners_setOwners_le (Nat.zero_le _) other
  omega

end Sound

/-! ### Reports and identities -/

section Storages

variable {sure : Prop} {before after : Memory} {atWork : List Address}

/-- A change that leaves all storages as they are carries them. -/
theorem Carries.of_storages (sound : Sound sure before atWork)
    (same : after.storages = before.storages)
    (registers : ∀ range, before.Registers range → after.Registers range) :
    Carries before.Has before after where
  enclosed := sound.enclosed
  registers := registers
  length := Nat.le_of_eq (congrArg Array.size same).symm
  relaid address _ := by
    have storage : after.storage address = before.storage address :=
      congrArg (fun storages => storages.getD address default) same
    exact .same (congrArg (fun storage => storage.elements.toList) storage)
      (congrArg (fun storage => storage.excess.toNat) storage)

theorem Sound.of_storages (sound : Sound sure before atWork)
    (same : after.storages = before.storages)
    (registers : ∀ range, before.Registers range → after.Registers range) :
    Sound sure after atWork := by
  have carries := Carries.of_storages sound same registers
  have storage : ∀ address, after.storage address = before.storage address := fun address =>
    congrArg (fun storages => storages.getD address default) same
  refine ⟨fun address => ?_, fun address alive => ?_, fun address lent => ?_, fun address => ?_,
    fun fits => sound.fitted (by rwa [Memory.Fits, same] at fits)⟩
  · have held : after.held address = before.held address :=
      congrArg (fun storages => (storages.toList.map (Storage.holds address)).foldr (· + ·) 0) same
    rw [Memory.owners, storage, held]
    exact sound.owned address
  · rw [Memory.owners, storage] at alive
    exact sound.formed_of_carries carries (Memory.owners_inside alive) alive
  · rw [Memory.readers, storage] at lent
    rw [Memory.excess, storage]
    exact sound.quiet address lent
  · rw [Memory.contents, storage, same]
    exact sound.closed address

/-- Such a change evolves memory if it adds nothing but warnings and identities of texts and
ranges. -/
theorem Evolves.of_storages {warned : List Warning} (sound : Sound sure before atWork)
    (same : after.storages = before.storages)
    (registers : ∀ range, before.Registers range → after.Registers range)
    (closures : after.closures = before.closures)
    (warnings : after.warnings = warned.reverse ++ before.warnings) :
    Evolves warned [] before after where
  carries := .of_storages sound same registers
  sizes _ address _ :=
    congrArg (fun storages => (storages.getD address default).size.toNat) same
  steady := by
    refine ⟨fun address => Nat.le_of_eq ?_, fun address => ?_, closures, warnings⟩
    · exact congrArg (fun storages => (storages.getD address default).elements.toList.length)
        same.symm
    · exact congrArg (fun storages => (storages.getD address default).readers) same

end Storages

theorem Memory.warn_ends {sure : Prop} {atWork : List Address} {memory : Memory}
    (sound : Sound sure memory atWork) (cause : Warning) :
    (Memory.warn cause).Ends memory fun _ after =>
      Sound sure after atWork ∧ Evolves [cause] [] memory after :=
  .modify ⟨sound.of_storages rfl fun _ registered => registered,
    .of_storages sound rfl (fun _ registered => registered) rfl rfl⟩

end SolidScript
