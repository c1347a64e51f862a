/-
This file proves what appending does. The vector that grows shows its elements and the new ones
afterwards, and whatever other handles lead to means what it meant: the storage is changed in place
only where no other handle refers to it, and a storage that a single handle at work refers to is
reached from nowhere else.
-/

import SolidScript.Proofs.Flattening

namespace SolidScript

open Value (handles)

namespace Memory

variable {sure : Prop} {memory : Memory} {atWork : List Address} {address : Address}

/-! ### What storages hold -/

/-- What a storage is to hold: stored elements with the elements and trees they stand for, and a
word that counts what they hide, if one can be sure of their sizes. -/
structure Stands (sure : Prop) (memory : Memory) (stored : List Value) (hidden : UInt64)
    (elements : List Value) (items : List Tree) : Prop where
  expands : Expands memory stored elements
  each : List.Forall₂ (Denotes memory) elements items
  filled : hidden ≠ 0 → stored ≠ []
  solid : ∀ inner, .embedded inner ∈ stored → memory.contents inner ≠ []
  large : sure → ∀ inner, .embedded inner ∈ stored → 2 ≤ memory.size inner
  counted : sure → hidden.toNat = memory.hidden stored % 2 ^ 64

namespace Stands

variable {before after : Memory} {stored elements others more : List Value}
  {items moreItems : List Tree} {hidden further : UInt64}

theorem of_direct {values : List Value} (direct : ∀ value ∈ values, value.isEmbedded = false)
    (each : List.Forall₂ (Denotes memory) values items) :
    Stands sure memory values 0 values items where
  expands := .of_direct memory values direct
  each := each
  filled hides := absurd rfl hides
  solid _ member := absurd (direct _ member) (by simp [Value.isEmbedded])
  large _ _ member := absurd (direct _ member) (by simp [Value.isEmbedded])
  counted _ := by
    rw [hidden_of_direct direct]
    rfl

/-- A storage holds what stands for what it shows. -/
theorem of_shows (sound : Sound sure memory atWork) (alive : memory.owners address ≠ 0)
    (shows : Shows memory address elements items) :
    Stands sure memory (memory.contents address) (memory.storage address).excess elements
      items where
  expands := shows.expands
  each := shows.each
  filled hides := (sound.formed address alive).filled fun none => hides (UInt64.toNat_inj.mp none)
  solid := (sound.formed address alive).solid
  large holds := ((sound.formed address alive).tallied holds).large
  counted holds := ((sound.formed address alive).tallied holds).excess

/-- Elements are stored behind others. Their words are added. -/
theorem append (one : Stands sure memory stored hidden elements items)
    (two : Stands sure memory others further more moreItems) :
    Stands sure memory (stored ++ others) (hidden + further) (elements ++ more)
      (items ++ moreItems) where
  expands := one.expands.append two.expands
  each := List.rel_append one.each two.each
  filled hides none := by
    obtain ⟨noStored, noOthers⟩ := List.append_eq_nil_iff.mp none
    have first : hidden = 0 := by_contra fun some' => one.filled some' noStored
    have second : further = 0 := by_contra fun some' => two.filled some' noOthers
    exact hides (by rw [first, second]; rfl)
  solid inner member := (List.mem_append.mp member).elim (one.solid inner) (two.solid inner)
  large holds inner member :=
    (List.mem_append.mp member).elim (one.large holds inner) (two.large holds inner)
  counted holds := by
    rw [UInt64.toNat_add, one.counted holds, two.counted holds, hidden_append, ← Nat.add_mod]

/-- What stored elements stand for outlasts a change of memory that carries them. -/
theorem carried {kept : Address → Prop} (stands : Stands sure before stored hidden elements items)
    (sound : Sound sure before atWork) (carries : Carries kept before after)
    (keptStored : ∀ handle ∈ handles stored, kept handle)
    (alive : ∀ handle ∈ handles stored, before.owners handle ≠ 0) :
    Stands sure after stored hidden elements items where
  expands := carries.expands stands.expands keptStored
  each := carries.each stands.each
    (stands.expands.handles_of carries.enclosed.closed keptStored)
  filled := stands.filled
  solid inner member :=
    have handle := mem_handles.mpr (Or.inr member)
    sound.contents_of_carries carries (keptStored inner handle) (alive inner handle)
      (stands.solid inner member)
  large holds inner member := by
    have handle := mem_handles.mpr (Or.inr member)
    rw [sound.size_of_carries carries (keptStored inner handle) (alive inner handle) holds]
    exact stands.large holds inner member
  counted holds := by
    rw [sound.hidden_of_carries carries keptStored alive holds]
    exact stands.counted holds

theorem evolved {warned : List Warning} {lent : List Address}
    (stands : Stands sure before stored hidden elements items) (sound : Sound sure before atWork)
    (evolves : Evolves warned lent before after)
    (alive : ∀ handle ∈ handles stored, before.owners handle ≠ 0) :
    Stands sure after stored hidden elements items :=
  stands.carried sound evolves.carries (fun handle member => owners_inside (alive handle member))
    alive

theorem shows (stands : Stands sure memory stored hidden elements items)
    (inside : address < memory.storages.size) (contents : memory.contents address = stored) :
    Shows memory address elements items where
  inside := inside
  expands := contents ▸ stands.expands
  each := stands.each

theorem formed (stands : Stands sure memory stored hidden elements items)
    (inside : address < memory.storages.size) (contents : memory.contents address = stored)
    (excess : (memory.storage address).excess = hidden) : Formed sure memory address := by
  refine ⟨⟨elements, items, stands.shows inside contents⟩, fun hides => ?_, ?_,
    fun holds => ⟨?_, ?_⟩⟩
  · rw [contents]
    refine stands.filled fun none => hides ?_
    rw [Memory.excess, excess, none]
    rfl
  · rw [contents]
    exact stands.solid
  · rw [contents]
    exact stands.large holds
  · rw [contents, Memory.excess, excess]
    exact stands.counted holds

end Stands

/-! ### New storages -/

theorem carries_add (sound : Sound sure memory atWork) (storage : Storage) :
    Carries memory.Has memory (memory.add storage) where
  enclosed := sound.enclosed
  registers _ registered := registered
  length := Nat.le_of_lt (by rw [length_add]; exact Nat.lt_succ_self _)
  relaid other has := by
    have old := memory.storage_add_of_ne storage (Nat.ne_of_lt has)
    exact .same (congrArg (fun storage => storage.elements.toList) old)
      (congrArg (fun storage => storage.excess.toNat) old)

theorem size_add_of_has (storage : Storage) {other : Address} (has : memory.Has other) :
    (memory.add storage).size other = memory.size other :=
  congrArg (·.size.toNat) (memory.storage_add_of_ne storage (Nat.ne_of_lt has))

theorem grown_add (memory : Memory) (storage : Storage) : Grown memory (memory.add storage) := by
  intro other
  by_cases fresh : other = memory.storages.size
  · rw [contents, storage_of_outside _ _ (Nat.le_of_eq fresh.symm)]
    exact Nat.zero_le _
  · rw [contents, contents, storage_add_of_ne _ _ fresh]

theorem readers_add (storage : Storage) (idle : storage.readers = 0) (other : Address) :
    (memory.add storage).readers other = memory.readers other := by
  by_cases fresh : other = memory.storages.size
  · subst fresh
    have new := congrArg Storage.readers (memory.storage_add_fresh storage)
    have outside := congrArg Storage.readers (memory.storage_of_outside _ (Nat.le_refl _))
    exact (new.trans idle).trans outside.symm
  · exact congrArg Storage.readers (memory.storage_add_of_ne storage fresh)

/-- A new storage takes stored elements over. -/
theorem allocate_ends (stored : Array Value) {elements : List Value} {items : List Tree}
    {hidden : UInt64} (sound : Sound sure memory (handles stored.toList ++ atWork))
    (stands : Stands sure memory stored.toList hidden elements items) :
    (allocate stored hidden).Ends memory fun result after =>
      result = memory.storages.size ∧ Sound sure after (result :: atWork) ∧
        Evolves [] [] memory after ∧ Shows after result elements items ∧
        after.owners result = 1 ∧ Calm memory after := by
  have carries := carries_add sound ⟨stored, hidden, 1, 0⟩
  have steady : Steady [] [] memory (memory.add ⟨stored, hidden, 1, 0⟩) :=
    ⟨memory.grown_add _, readers_add _ rfl, rfl, rfl⟩
  have evolves : Evolves [] [] memory (memory.add ⟨stored, hidden, 1, 0⟩) :=
    ⟨carries, fun _ other has => size_add_of_has _ has, steady⟩
  have new := memory.storage_add_fresh ⟨stored, hidden, 1, 0⟩
  have contents : (memory.add ⟨stored, hidden, 1, 0⟩).contents memory.storages.size =
      stored.toList := congrArg (fun storage => storage.elements.toList) new
  have inside : memory.storages.size < (memory.add ⟨stored, hidden, 1, 0⟩).storages.size := by
    rw [length_add]
    exact Nat.lt_succ_self _
  have alive : ∀ handle ∈ handles stored.toList, memory.owners handle ≠ 0 :=
    fun handle member => sound.owned.alive_of_mem (List.mem_append_left _ member)
  have held := stands.evolved sound evolves alive
  refine .intro _ _ (allocate_eq stored hidden memory) ⟨rfl, ?_, evolves,
    held.shows inside contents, congrArg Storage.owners new, .of_steady steady rfl⟩
  refine sound.of_others carries (fun other _ => owners_inside)
    (fun other old => memory.storage_add_of_ne _ old) (sound.owned.add hidden)
    (fun _ => held.formed inside contents (congrArg Storage.excess new)) (fun lent => ?_)
    (fun handle member => ?_) (memory.grown_add _)
  · exact absurd (congrArg Storage.readers new) lent
  · rw [contents] at member
    rw [length_add]
    exact Nat.lt_succ_of_lt (owners_inside (alive handle member))

/-! ### Growing in place -/

/-- The storages with owners that are not the one of an only handle refer to one another only. -/
theorem enclosed_apart (sound : Sound sure memory (address :: atWork)) :
    Enclosed memory fun other =>
      memory.owners other ≠ 0 ∧ (other = address → memory.owners address ≠ 1) where
  inside _ kept := owners_inside kept.1
  closed other kept handle member := by
    refine ⟨sound.owned.alive_of_held kept.1 member, ?_⟩
    rintro rfl unique
    exact sound.owned.not_held List.mem_cons_self unique kept.1 member

/-- The other handles at work lead to such storages. -/
theorem apart_of_mem (sound : Sound sure memory (address :: atWork)) {other : Address}
    (member : other ∈ atWork) :
    memory.owners other ≠ 0 ∧ (other = address → memory.owners address ≠ 1) := by
  refine ⟨sound.owned.alive_of_mem (List.mem_cons_of_mem _ member), ?_⟩
  rintro rfl unique
  exact sound.owned.not_mem_of_unique unique member

variable {added elements more : List Value} {items moreItems : List Tree} {hidden : UInt64}

theorem contents_extended (added : List Value) (hidden : UInt64)
    (inside : address < memory.storages.size) :
    (memory.change address (Storage.extended added hidden)).contents address =
      memory.contents address ++ added := by
  rw [contents, storage_change_self _ _ _ inside]
  exact Array.toList_appendList

theorem carries_extended (added : List Value) (hidden : UInt64) {kept : Address → Prop}
    (enclosed : Enclosed memory kept) (spared : ¬ kept address) :
    Carries kept memory (memory.change address (Storage.extended added hidden)) where
  enclosed := enclosed
  registers _ registered := registered
  length := Nat.le_of_eq (memory.length_change address _).symm
  relaid other member := by
    have old := memory.storage_change_of_ne (Storage.extended added hidden)
      fun same : other = address => spared (same ▸ member)
    exact .same (congrArg (fun storage => storage.elements.toList) old)
      (congrArg (fun storage => storage.excess.toNat) old)

theorem steady_extended (added : List Value) (hidden : UInt64)
    (inside : address < memory.storages.size) :
    Steady [] [] memory (memory.change address (Storage.extended added hidden)) where
  grown other := by
    by_cases same : other = address
    · subst same
      rw [contents_extended added hidden inside, List.length_append]
      exact Nat.le_add_right _ _
    · rw [contents, contents, storage_change_of_ne _ _ same]
  readers _ := storage_change_keeps Storage.readers _ _ _ _ fun _ => rfl
  closures := rfl
  warnings := rfl

/-- What a storage with only one handle stores, and what is appended to it, lies apart from it. -/
theorem apart_of_stored (sound : Sound sure memory (address :: handles added ++ atWork))
    (unique : memory.owners address = 1) :
    ∀ handle ∈ handles (memory.contents address ++ added),
      memory.owners handle ≠ 0 ∧ (handle = address → memory.owners address ≠ 1) := by
  have alive : memory.owners address ≠ 0 := by omega
  intro handle member
  rw [handles_append] at member
  rcases List.mem_append.mp member with stored | new
  · refine ⟨sound.owned.alive_of_held alive stored, ?_⟩
    rintro rfl
    exact absurd stored (sound.owned.not_held List.mem_cons_self unique alive)
  · exact apart_of_mem sound (List.mem_append_left _ new)

/-- A storage that only one handle refers to grows in place. -/
theorem stands_extended (sound : Sound sure memory (address :: handles added ++ atWork))
    (unique : memory.owners address = 1) (shows : Shows memory address elements items)
    (stands : Stands sure memory added hidden more moreItems) :
    Stands sure (memory.change address (Storage.extended added hidden))
      (memory.contents address ++ added) ((memory.storage address).excess + hidden)
      (elements ++ more) (items ++ moreItems) := by
  have alive : memory.owners address ≠ 0 := by omega
  have stored := apart_of_stored sound unique
  have carries := carries_extended added hidden (enclosed_apart sound)
    fun kept => kept.2 rfl unique
  exact ((Stands.of_shows sound alive shows).append stands).carried sound carries stored
    fun handle member => (stored handle member).1

theorem shows_extended (sound : Sound sure memory (address :: handles added ++ atWork))
    (unique : memory.owners address = 1) (shows : Shows memory address elements items)
    (stands : Stands sure memory added hidden more moreItems) :
    Shows (memory.change address (Storage.extended added hidden)) address (elements ++ more)
      (items ++ moreItems) := by
  refine (stands_extended sound unique shows stands).shows ?_
    (contents_extended added hidden shows.inside)
  rw [length_change]
  exact shows.inside

theorem sound_extended (sound : Sound sure memory (address :: handles added ++ atWork))
    (unique : memory.owners address = 1) (shows : Shows memory address elements items)
    (stands : Stands sure memory added hidden more moreItems)
    (idle : hidden = 0 ∨ memory.readers address = 0) :
    Sound sure (memory.change address (Storage.extended added hidden)) (address :: atWork) := by
  have alive : memory.owners address ≠ 0 := by omega
  have carries := carries_extended added hidden (enclosed_apart sound)
    fun kept => kept.2 rfl unique
  have contents := contents_extended added hidden shows.inside
  have new := memory.storage_change_self address (Storage.extended added hidden) shows.inside
  refine sound.of_others carries (fun other apart living => ⟨living, fun same => absurd same apart⟩)
    (fun other apart => memory.storage_change_of_ne _ apart)
    (sound.owned.change alive rfl fun other => ?_) (fun _ => ?_) (fun lent => ?_)
    (fun handle member => ?_) (steady_extended added hidden shows.inside).grown
  · have trade : (handles ((memory.storage address).elements ++ added).toList).count other =
        (handles (memory.contents address)).count other + (handles added).count other := by
      rw [Array.toList_appendList, handles_append, List.count_append]
      rfl
    show (handles ((memory.storage address).elements ++ added).toList).count other + _ = _
    rw [trade]
    simp only [List.count_append, List.count_cons]
    omega
  · refine (stands_extended sound unique shows stands).formed ?_ contents
      (congrArg Storage.excess new)
    rw [length_change]
    exact shows.inside
  · have before : memory.readers address ≠ 0 := fun none =>
      lent ((congrArg Storage.readers new).trans none)
    have flat : (memory.storage address).excess = 0 :=
      UInt64.toNat_inj.mp (sound.quiet address before)
    have grown : (memory.change address (Storage.extended added hidden)).excess address =
        ((memory.storage address).excess + hidden).toNat :=
      congrArg (fun storage => storage.excess.toNat) new
    rw [grown, flat, idle.resolve_right before]
    rfl
  · rw [contents] at member
    rw [length_change]
    exact owners_inside (apart_of_stored sound unique handle member).1

/-! ### Copying before writing -/

/-- The storage to write to has one handle and shows the same. Unless it is the given one, it is
new. -/
theorem own_ends (sound : Sound sure memory (address :: atWork))
    (shows : Shows memory address elements items) :
    (own address).Ends memory fun target after =>
      Sound sure after (target :: atWork) ∧ Evolves [] [] memory after ∧
        Shows after target elements items ∧ after.owners target = 1 ∧
        (target = address ∧ memory.owners address = 1 ∨ target = memory.storages.size) ∧
        Calm memory after := by
  by_cases unique : memory.owners address = 1
  · refine .intro address memory ?_
      ⟨sound, .refl sound, shows, unique, Or.inl ⟨rfl, unique⟩, .refl memory⟩
    rw [own, if_pos unique]
  · have alive := sound.owned.alive_of_mem List.mem_cons_self
    have retained := sound.retain (memory.storage address).elements.toList fun handle member =>
      sound.owned.alive_of_held alive member
    have reowned := memory.reowned_retain (memory.storage address).elements.toList
    have evolves := Evolves.of_reowned sound reowned
    have stands := (Stands.of_shows sound alive shows).evolved sound evolves
      fun _ => sound.owned.alive_of_held alive
    obtain ⟨copy, copied, found, fresh, copySound, further, copyShows, single, calm⟩ :=
      allocate_ends _ retained stands
    have releases := copied.reowned_release [.vector address]
    have dropped := copySound.of_count (address :: copy :: atWork)
      fun other => by simp only [List.count_cons]; omega
    have last := Evolves.of_reowned copySound releases
    have fewer := copied.owners_release_le [.vector address] copy
    have still := (Sound.release [.vector address] dropped).owned.alive_of_mem
      List.mem_cons_self
    refine .intro copy (copied.release [.vector address]) ?_
      ⟨Sound.release [.vector address] dropped, (evolves.trans further).trans last,
        last.shows copyShows, ?_, Or.inr (fresh.trans reowned.length),
        ((Calm.of_reowned reowned).trans calm).trans (.of_reowned releases)⟩
    · rw [own, if_neg unique]
      show (allocate _ (memory.storage address).excess _ >>= _) = _
      rw [found]
      rfl
    · omega

/-! ### Growing -/

/-- The vector that grew shows the given elements. The storages of every set that the old vector is
apart from are carried, and so are those of every other set if the old vector has other handles. -/
structure Extends (sure : Prop) (before : Memory) (atWork : List Address) (address : Address)
    (elements : List Value) (items : List Tree) (result : Address) (after : Memory) : Prop where
  sound : Sound sure after (result :: atWork)
  shows : Shows after result elements items
  steady : Calm before after
  carries : ∀ kept, Enclosed before kept → (kept address → before.owners address ≠ 1) →
    Carries kept before after
  sizes : after.Fits → ∀ other, before.Has other → (other = address → before.owners address ≠ 1) →
    after.size other = before.size other
  place : result = address ∨ before.storages.size ≤ result

theorem put_ends (sound : Sound sure memory (address :: handles added ++ atWork))
    (shows : Shows memory address elements items)
    (stands : Stands sure memory added hidden more moreItems)
    (idle : hidden = 0 ∨ memory.readers address = 0) :
    (put address added hidden).Ends memory
      (Extends sure memory atWork address (elements ++ more) (items ++ moreItems)) := by
  refine (own_ends sound shows).bind
    fun target owned ⟨ownedSound, evolves, ownedShows, unique, place, calm⟩ => ?_
  have alive : ∀ handle ∈ handles added, memory.owners handle ≠ 0 := fun handle member =>
    sound.owned.alive_of_mem (List.mem_cons_of_mem _ (List.mem_append_left _ member))
  have ownedStands := stands.evolved sound evolves alive
  have ownedIdle : hidden = 0 ∨ owned.readers target = 0 := by
    refine idle.imp id fun none => ?_
    rw [evolves.steady.readers]
    rcases place with ⟨rfl, _⟩ | rfl
    · exact none
    · exact congrArg Storage.readers (memory.storage_of_outside _ (Nat.le_refl _))
  refine .modify_bind (.pure ?_)
  refine ⟨sound_extended ownedSound unique ownedShows ownedStands ownedIdle,
    shows_extended ownedSound unique ownedShows ownedStands, ?_, ?_, ?_, ?_⟩
  · exact calm.trans (.of_steady (steady_extended added hidden ownedShows.inside) rfl)
  · intro kept enclosed spared
    have carries := evolves.carries.mono enclosed enclosed.inside
    refine carries.trans (carries_extended added hidden carries.enclosed_after fun keptTarget => ?_)
      fun _ member => member
    rcases place with ⟨rfl, single⟩ | rfl
    · exact spared keptTarget single
    · exact Nat.lt_irrefl _ (enclosed.inside _ keptTarget)
  · intro fits other has spared
    have apart : other ≠ target := by
      rintro rfl
      rcases place with ⟨rfl, single⟩ | rfl
      · exact spared rfl single
      · exact Nat.lt_irrefl _ has
    have storage := owned.storage_change_of_ne (Storage.extended added hidden) apart
    exact (congrArg (·.size.toNat) storage).trans (evolves.sizes
      (fits.of_grown (steady_extended added hidden ownedShows.inside).grown) other has)
  · exact place.imp And.left fun fresh => Nat.le_of_eq fresh.symm

/-! ### Appending to a vector -/

/-- The vector that results has the given items, and nothing else that handles at work lead to
means anything else. Counters that were right are so still, if few elements were added, or at least
no array is longer than arrays can be. -/
structure Grows (sure few : Prop) (before : Memory) (atWork : List Address) (items : List Tree)
    (result : Address) (after : Memory) : Prop where
  sound : Sound (sure ∧ (few ∨ after.Fits)) after (result :: atWork)
  denotes : Denotes after (.vector result) (.vector items)
  steady : Calm before after
  keeps : Keeps atWork before after

/-- The vector that results has the expected items, if those that were added are few enough to be
counted. -/
def GrowsTo (sure few : Prop) (before : Memory) (atWork : List Address) (expected : List Tree)
    (result : Address) (after : Memory) : Prop :=
  ∃ items, Grows sure few before atWork items result after ∧ (sure → few → items = expected)

theorem Extends.grows {few : Prop} {before after : Memory} {result : Address}
    (extends' : Extends sure before atWork address elements items result after) (added : List Value)
    (sound : Sound sure before (address :: handles added ++ atWork)) :
    Grows sure few before atWork items result after where
  sound := extends'.sound.of_few
  denotes := extends'.shows.vector
  steady := extends'.steady
  keeps := .of_carries (extends'.carries _ (enclosed_apart sound) fun kept => kept.2 rfl)
    fun _ member => apart_of_mem sound (List.mem_append_right _ member)

namespace Grows

variable {few : Prop} {before middle after : Memory} {result : Address}

/-- A vector that does not grow. -/
theorem refl (sound : Sound sure memory (address :: atWork))
    (denotes : Denotes memory (.vector address) (.vector items)) :
    Grows sure few memory atWork items address memory :=
  ⟨sound.of_few, denotes, .refl memory, .refl atWork memory⟩

/-- What happens before to other storages does not matter. -/
theorem trans_left {first second : Prop} (keeps : Keeps atWork before middle)
    (steady : Calm before middle)
    (grows : Grows (sure ∧ (first ∨ middle.Fits)) second middle atWork items result after)
    (implies : sure → few → first ∧ second) : Grows sure few before atWork items result after where
  sound := by
    refine grows.sound.mono ?_ fun fits => ⟨(grows.sound.fitted fits).1.1, Or.inr fits⟩
    rintro ⟨holds, little | fits⟩
    · obtain ⟨one, two⟩ := implies holds little
      exact ⟨⟨holds, Or.inl one⟩, Or.inl two⟩
    · exact ⟨⟨holds, Or.inr (fits.of_grown grows.steady.grown)⟩, Or.inr fits⟩
  denotes := grows.denotes
  steady := steady.trans grows.steady
  keeps := keeps.trans grows.keeps

/-- A value that is not needed any more is given up. -/
theorem release (values : List Value)
    (grows : Grows sure few before (handles values ++ atWork) items result after) :
    Grows sure few before atWork items result (after.release values) := by
  have reowned := after.reowned_release values
  have evolves := Evolves.of_reowned grows.sound reowned
  have sound := grows.sound.of_count (handles values ++ result :: atWork)
    fun other => by simp only [List.count_append, List.count_cons]; omega
  have released := sound.release values
  refine ⟨released.mono (fun ⟨holds, short⟩ => ⟨holds, short.imp_right evolves.fits⟩)
      fun fits => ⟨(released.fitted fits).1, Or.inr fits⟩,
    evolves.denotes grows.denotes, grows.steady.trans (.of_reowned reowned), ?_⟩
  exact (grows.keeps.of_subset fun _ member => List.mem_append_right _ member).trans
    ((Keeps.of_evolves evolves grows.sound).of_subset fun _ member =>
      List.mem_cons_of_mem _ (List.mem_append_right _ member))

theorem growsTo (grows : Grows sure few before atWork items result after) :
    GrowsTo sure few before atWork items result after :=
  ⟨items, grows, fun _ _ => rfl⟩

end Grows

namespace GrowsTo

variable {before middle after : Memory} {result : Address} {few : Prop}
  {expected others : List Tree}

theorem trans_left {first second : Prop} (keeps : Keeps atWork before middle)
    (steady : Calm before middle)
    (grows : GrowsTo (sure ∧ (first ∨ middle.Fits)) second middle atWork expected result after)
    (same : sure → few → first ∧ second ∧ expected = others) :
    GrowsTo sure few before atWork others result after := by
  obtain ⟨items, grows, exact'⟩ := grows
  refine ⟨items, grows.trans_left keeps steady fun holds little => ?_, fun holds little => ?_⟩
  · obtain ⟨one, two, _⟩ := same holds little
    exact ⟨one, two⟩
  · obtain ⟨one, two, rfl⟩ := same holds little
    exact exact' ⟨holds, Or.inl one⟩ two

/-- What was looked at before, or allocated, does not matter. -/
theorem trans_evolves {rest : List Address} (evolves : Evolves [] [] before middle)
    (calm : Calm before middle) (sound : Sound sure before rest)
    (subset : ∀ handle ∈ atWork, handle ∈ rest)
    (grows : GrowsTo sure few middle atWork expected result after) :
    GrowsTo sure few before atWork expected result after := by
  obtain ⟨items, grows, exact'⟩ := grows
  refine ⟨items, ⟨grows.sound, grows.denotes, calm.trans grows.steady, ?_⟩, exact'⟩
  exact ((Keeps.of_evolves evolves sound).of_subset subset).trans grows.keeps

end GrowsTo

/-- A single value that is no placeholder is stored as it is. -/
theorem put_direct_ends {value : Value} {item : Tree}
    (sound : Sound sure memory (address :: handles [value] ++ atWork))
    (shows : Shows memory address elements items) (direct : value.isEmbedded = false)
    (denotes : Denotes memory value item) :
    (put address [value] 0).Ends memory
      (Extends sure memory atWork address (elements ++ [value]) (items ++ [item])) := by
  have all : ∀ other ∈ [value], other.isEmbedded = false :=
    fun other member => List.mem_singleton.mp member ▸ direct
  exact put_ends sound shows (.of_direct all (.cons denotes .nil)) (Or.inl rfl)

/-- A value that is stored may be stored again. A placeholder is not counted then. -/
theorem stands_of_stored (sound : Sound sure memory atWork) (alive : memory.owners address ≠ 0)
    {value : Value} (stored : value ∈ memory.contents address)
    (direct : sure → value.isEmbedded = false) :
    ∃ elements trees, Stands sure memory [value] 0 elements trees := by
  by_cases placeholder : value.isEmbedded = true
  · cases value with
    | embedded inner =>
      obtain ⟨elements, trees, shows⟩ := sound.shows
        (sound.owned.alive_of_held alive (mem_handles.mpr (Or.inr stored)))
      have expands := Expands.splice shows.inside shows.expands .nil
      rw [List.append_nil] at expands
      refine ⟨elements, trees, expands, shows.each, fun hides => absurd rfl hides, ?_,
        fun holds => absurd (direct holds) (by simp [Value.isEmbedded]),
        fun holds => absurd (direct holds) (by simp [Value.isEmbedded])⟩
      intro other member
      cases List.mem_singleton.mp member
      exact (sound.formed address alive).solid inner stored
    | _ => contradiction
  · obtain ⟨tree, denotes⟩ := denotes_of_stored sound alive stored
    refine ⟨[value], [tree], .of_direct (fun other member => ?_) (.cons denotes .nil)⟩
    cases List.mem_singleton.mp member
    exact Bool.eq_false_iff.mpr placeholder

/-- To access a storage without excess flattens nothing. -/
theorem element_silent (address : Address) (position : Nat) :
    (element address position).Leads memory fun _ after =>
      memory.excess address = 0 → after.flattenings = memory.flattenings := by
  by_cases flat : memory.excess address = 0
  · have flattens : (flatten address).Maintains (fun middle =>
        middle.flattenings = memory.flattenings ∧ middle.excess address = 0) fun _ => True := by
      rintro middle ⟨same, none⟩ _ after reached
      rw [flatten, if_pos none] at reached
      cases reached
      exact ⟨⟨same, none⟩, trivial⟩
    have reads := element_maintains (fun holds alike =>
      ⟨alike.flattenings.trans holds.1, (alike.excess address).trans holds.2⟩) flattens position
    exact (reads memory ⟨rfl, flat⟩).imp fun _ _ holds _ => holds.1.1
  · intro _ _ _ none
    exact absurd none flat

section

variable {other : Address} {only : Value} {rest : List Value} {trees : List Tree}

/-- The first element of a flat storage of the size one is no placeholder, if words can count the
elements or if arrays have the lengths of arrays. -/
theorem direct_of_single (sound : Sound sure memory atWork) (alive : memory.owners other ≠ 0)
    (stores : Stores memory other (only :: rest) trees) (shows : Shows memory other more moreItems)
    (single : memory.size other = 1) (holds : sure)
    (countable : moreItems.length < 2 ^ 64 ∨ memory.Fits) : only.isEmbedded = false := by
  rcases countable with few | fits
  · obtain ⟨same, _⟩ := stores.eq_of_shows sound alive holds shows few
    exact shows.expands.direct only (same ▸ List.mem_cons_self)
  · have tallied := (sound.formed other alive).tallied holds
    exact tallied.direct_of_size_eq_one stores.flat single (fits.length_lt other) only
      (stores.contents ▸ List.mem_cons_self)

/-- It is the only one, if words can count the elements. -/
theorem contents_of_single (sound : Sound sure memory atWork) (alive : memory.owners other ≠ 0)
    (stores : Stores memory other (only :: rest) trees) (shows : Shows memory other more moreItems)
    (single : memory.size other = 1) (holds : sure) (few : moreItems.length < 2 ^ 64) :
    memory.contents other = [only] := by
  obtain ⟨_, same⟩ := stores.eq_of_shows sound alive holds shows few
  have counted := shows.size_eq (sound.counts holds) alive few
  have length := stores.each.length_eq
  rw [same, ← counted, single, List.length_cons] at length
  rw [stores.contents, List.length_eq_zero_iff.mp (Nat.succ.inj length)]

end

/-- A vector of the size one gives its first element. -/
theorem embed_one_ends {other : Address}
    (sound : Sound sure memory (address :: other :: atWork))
    (shows : Shows memory address elements items) (otherShows : Shows memory other more moreItems)
    (single : memory.size other = 1) :
    (do
      let only ← element other 0
      let target ← put address [only] 0
      modify (·.release [.embedded other])
      return target : Action Address).Ends memory
        (GrowsTo sure (moreItems.length < 2 ^ 64) memory atWork (items ++ moreItems)) := by
  have member : other ∈ address :: other :: atWork := List.mem_cons_of_mem _ List.mem_cons_self
  have alive := sound.owned.alive_of_mem member
  refine ((element_ends sound member 0).and_leads (element_silent other 0)).bind ?_
  rintro only copied ⟨⟨copiedSound, evolves, values, trees, stores, found⟩, silent⟩
  have living : copied.owners other ≠ 0 :=
    copiedSound.owned.alive_of_mem (List.mem_append_right _ member)
  have some' : values ≠ [] := stores.contents ▸
    sound.contents_of_carries evolves.carries otherShows.inside alive
      (sound.contents_ne_nil alive (by omega))
  obtain ⟨first, rest, rfl⟩ := List.exists_cons_of_ne_nil some'
  have same : only = first := found
  subst same
  have copiedShows := evolves.shows otherShows
  have copiedSingle : sure → copied.size other = 1 := fun holds =>
    (sound.size_of_carries evolves.carries otherShows.inside alive holds).trans single
  have fitting : Sound (sure ∧ (moreItems.length < 2 ^ 64 ∨ copied.Fits)) copied
      (handles [only] ++ address :: other :: atWork) := copiedSound.of_few
  obtain ⟨added, addedTrees, stands⟩ := stands_of_stored fitting living
    (stores.contents ▸ List.mem_cons_self : only ∈ copied.contents other) fun holds =>
      direct_of_single copiedSound living stores copiedShows (copiedSingle holds.1) holds.1 holds.2
  have ordered := fitting.of_count
    (address :: handles [only] ++ handles [.embedded other] ++ atWork)
    fun handle => by simp [List.count_append, List.count_cons]; omega
  rw [List.append_assoc] at ordered
  refine (put_ends ordered (evolves.shows shows) stands (Or.inl rfl)).bind
    fun target grown extends' => ?_
  refine .modify_bind (.pure ⟨_, ((extends'.grows [only] ordered).release _).trans_left ?_
    ⟨evolves.steady, evolves.steady.grown, fun fits => silent ?_⟩
    fun _ few => ⟨few, few⟩, ?_⟩)
  · exact (Keeps.of_evolves evolves sound).of_subset fun _ member =>
      List.mem_cons_of_mem _ (List.mem_cons_of_mem _ member)
  · have size := evolves.sizes fits other (owners_inside alive)
    rw [size_of_flat stores.flat, Nat.mod_eq_of_lt (fits.length_lt other), single] at size
    have tallied := (sound.formed other alive).tallied (sound.fitted (evolves.fits fits))
    exact tallied.flat_of_size_eq_one single (size ▸ evolves.steady.grown other)
  · intro holds few
    have shown := stands.shows copiedShows.inside
      (contents_of_single copiedSound living stores copiedShows (copiedSingle holds) holds few)
    rw [Tree.vector.inj (shown.vector.unique copiedShows.vector)]

theorem embed_ends {other : Address} (sound : Sound sure memory (address :: other :: atWork))
    (shows : Shows memory address elements items) (otherShows : Shows memory other more moreItems)
    (idle : memory.readers address = 0) :
    (embed address other).Ends memory
      (GrowsTo sure (moreItems.length < 2 ^ 64) memory atWork (items ++ moreItems)) := by
  have alive : memory.owners other ≠ 0 :=
    sound.owned.alive_of_mem (List.mem_cons_of_mem _ List.mem_cons_self)
  refine .get_bind ?_
  match known : memory.size other with
  | 0 =>
    have swapped := sound.of_count (handles [.embedded other] ++ address :: atWork)
      fun handle => by simp [List.count_cons]; omega
    have evolves := Evolves.of_reowned sound (memory.reowned_release [.embedded other])
    refine .modify_bind (.pure ⟨items, ⟨(swapped.release _).of_few,
      evolves.denotes shows.vector, .of_reowned (memory.reowned_release [.embedded other]), ?_⟩,
      fun holds few => ?_⟩)
    · exact (Keeps.of_evolves evolves sound).of_subset fun _ member =>
        List.mem_cons_of_mem _ (List.mem_cons_of_mem _ member)
    · have counted := otherShows.size_eq (sound.counts holds) alive few
      rw [List.eq_nil_of_length_eq_zero (counted.symm.trans known), List.append_nil]
  | 1 => exact embed_one_ends sound shows otherShows known
  | size + 2 =>
    have stands : Stands sure memory [.embedded other] (size + 1).toUInt64 more moreItems := by
      have expands := Expands.splice otherShows.inside otherShows.expands Expands.nil
      rw [List.append_nil] at expands
      refine ⟨expands, otherShows.each, fun _ => List.cons_ne_nil _ _, fun inner member => ?_,
        fun _ inner member => ?_, fun _ => ?_⟩
      · cases List.mem_singleton.mp member
        exact sound.contents_ne_nil alive (by omega)
      · cases List.mem_singleton.mp member
        omega
      · show (UInt64.ofNat (size + 1)).toNat = (memory.size other - 1 + 0) % 2 ^ 64
        rw [UInt64.toNat_ofNat', known]
        rfl
    exact (put_ends sound shows stands (Or.inr idle)).imp
      fun result after extends' => (extends'.grows [.embedded other] sound).growsTo

/-- Appending a value adds its parts to the vector. -/
theorem append_ends (value : Value) {tree : Tree}
    (sound : Sound sure memory (address :: handles [value] ++ atWork))
    (denotes : Denotes memory (.vector address) (.vector items))
    (valueDenotes : Denotes memory value tree) (idle : memory.readers address = 0) :
    (append address value).Ends memory
      (GrowsTo sure (tree.parts.length < 2 ^ 64) memory atWork (items ++ tree.parts)) := by
  obtain ⟨elements, shows⟩ := Shows.of_vector denotes
  cases value with
  | embedded other =>
    obtain ⟨more, moreItems, rfl, otherShows⟩ := denotes_embedded_iff.mp valueDenotes
    exact embed_ends sound shows otherShows idle
  | _ =>
    refine (put_direct_ends sound shows rfl valueDenotes).imp fun result after extends' => ?_
    cases valueDenotes
    exact (extends'.grows _ sound).growsTo

/-- Between two operations, no slice is being read. -/
def Idle (memory : Memory) : Prop := ∀ address, memory.readers address = 0

theorem idle_of_steady {before after : Memory} {warned : List Warning} (idle : before.Idle)
    (steady : Steady warned [] before after) : after.Idle :=
  fun address => (steady.readers address).trans (idle address)

/-- Appending values one after another adds the parts of all. -/
theorem extend_ends {values : List Value} {trees : List Tree}
    (sound : Sound sure memory (address :: handles values ++ atWork))
    (denotes : Denotes memory (.vector address) (.vector items))
    (each : List.Forall₂ (Denotes memory) values trees) (idle : memory.Idle) :
    (extend address values).Ends memory
      (GrowsTo sure (∀ tree ∈ trees, tree.parts.length < 2 ^ 64) memory atWork
        (items ++ trees.flatMap Tree.parts)) := by
  induction values generalizing sure memory address items trees with
  | nil =>
    cases each
    rw [List.flatMap_nil, List.append_nil]
    exact .pure (Grows.refl sound denotes).growsTo
  | cons value values inductionHypothesis =>
    cases each with
    | @cons _ tree _ trees head rest =>
      rw [handles_cons, List.cons_append, List.append_assoc] at sound
      refine (append_ends value sound denotes head (idle address)).bind ?_
      rintro result grown ⟨longer, grows, exact'⟩
      have further := inductionHypothesis grows.sound grows.denotes
        (grows.keeps.each (fun handle member => List.mem_append_left _ member) rest)
        (idle_of_steady idle grows.steady.toSteady)
      refine further.imp fun _ _ more => more.trans_left ?_ grows.steady fun holds few => ?_
      · exact grows.keeps.of_subset fun _ member => List.mem_append_right _ member
      · have short := few tree List.mem_cons_self
        rw [exact' holds short, List.flatMap_cons, List.append_assoc]
        exact ⟨short, fun other member => few other (List.mem_cons_of_mem _ member), rfl⟩

/-! ### New vectors -/

theorem create_ends (sound : Sound sure memory atWork) :
    create.Ends memory fun result after =>
      result = memory.storages.size ∧ Sound sure after (result :: atWork) ∧
        Evolves [] [] memory after ∧ Shows after result [] [] ∧ after.owners result = 1 ∧
        Calm memory after :=
  allocate_ends #[] sound (.of_direct (fun _ member => absurd member List.not_mem_nil) .nil)

/-- A vector of values that are no placeholders stores them as they are. -/
theorem newVector_direct_ends (values : List Value) {trees : List Tree}
    (sound : Sound sure memory (handles values ++ atWork))
    (direct : ∀ value ∈ values, value.isEmbedded = false)
    (each : List.Forall₂ (Denotes memory) values trees) :
    (newVector values).Ends memory fun result after =>
      result = memory.storages.size ∧ Sound sure after (result :: atWork) ∧
        Evolves [] [] memory after ∧ Shows after result values trees ∧
        after.owners result = 1 ∧ Calm memory after := by
  have none : values.any Value.isEmbedded = false := by
    rw [List.any_eq_false]
    intro value member embedded
    rw [direct value member] at embedded
    contradiction
  rw [newVector, none]
  exact allocate_ends values.toArray sound (.of_direct direct each)

theorem parts_of_direct {values : List Value} {trees : List Tree}
    (direct : ∀ value ∈ values, value.isEmbedded = false)
    (each : List.Forall₂ (Denotes memory) values trees) : trees.flatMap Tree.parts = trees := by
  induction each with
  | nil => rfl
  | @cons value tree values trees head _ inductionHypothesis =>
    have others := inductionHypothesis
      fun other member => direct other (List.mem_cons_of_mem _ member)
    have alone : tree.parts = [tree] := by
      cases head with
      | embedded => exact absurd (direct _ List.mem_cons_self) (by simp [Value.isEmbedded])
      | _ => rfl
    rw [List.flatMap_cons, others, alone]
    rfl

/-- A new vector of values has the parts of all. -/
theorem newVector_ends {values : List Value} {trees : List Tree}
    (sound : Sound sure memory (handles values ++ atWork))
    (each : List.Forall₂ (Denotes memory) values trees) (idle : memory.Idle) :
    (newVector values).Ends memory
      (GrowsTo sure (∀ tree ∈ trees, tree.parts.length < 2 ^ 64) memory atWork
        (trees.flatMap Tree.parts)) := by
  by_cases direct : ∀ value ∈ values, value.isEmbedded = false
  · rw [parts_of_direct direct each]
    refine (newVector_direct_ends values sound direct each).imp
      fun result after ⟨_, afterSound, evolves, shows, _, calm⟩ => Grows.growsTo ?_
    refine ⟨afterSound.of_few, shows.vector, calm, ?_⟩
    exact (Keeps.of_evolves evolves sound).of_subset fun _ member => List.mem_append_right _ member
  · have some' : values.any Value.isEmbedded = true := by
      rw [List.any_eq_true]
      simpa using direct
    rw [newVector, some', if_pos rfl]
    refine (create_ends sound).bind
      fun result created ⟨_, createdSound, evolves, shows, _, calm⟩ => ?_
    refine (extend_ends createdSound shows.vector (evolves.each each)
      (idle_of_steady idle evolves.steady)).imp fun _ _ grows => ?_
    exact grows.trans_evolves evolves calm sound fun _ member => List.mem_append_right _ member

/-! ### Joining vectors -/

/-- The elements that are taken out of a storage are at work instead of the handle to it. -/
theorem take_ends (sound : Sound sure memory (address :: atWork)) :
    (take address).Ends memory fun taken after =>
      taken = (memory.contents address, (memory.storage address).excess) ∧
        Sound sure after (handles (memory.contents address) ++ atWork) ∧ Reowned memory after := by
  by_cases unique : memory.owners address = 1
  · refine .intro _ (memory.setOwners address 0) ?_
      ⟨rfl, sound.unwrap unique, memory.reowned_setOwners address 0⟩
    rw [take, if_pos unique]
  · have alive := sound.owned.alive_of_mem List.mem_cons_self
    have retained := sound.retain (memory.contents address) fun _ => sound.owned.alive_of_held alive
    have ordered := retained.of_count
      (handles [.vector address] ++ (handles (memory.contents address) ++ atWork))
      fun handle => by simp only [handles_vector, handles_nil, List.count_append, List.count_cons,
        List.count_nil]; omega
    have copied := memory.reowned_retain (memory.contents address)
    refine .intro _ ((memory.retain (memory.contents address)).release [.vector address]) ?_
      ⟨rfl, ordered.release _, copied.trans (Memory.reowned_release _ _)⟩
    rw [take, if_neg unique]

/-- Joining two vectors. The first one gives way to the other one if it is empty. -/
theorem concatenate_ends {other : Address} (sound : Sound sure memory (address :: other :: atWork))
    (denotes : Denotes memory (.vector address) (.vector items))
    (otherDenotes : Denotes memory (.vector other) (.vector moreItems))
    (idle : memory.readers address = 0) :
    (concatenate address other).Ends memory
      (GrowsTo sure (items.length < 2 ^ 64) memory atWork (items ++ moreItems)) := by
  obtain ⟨elements, shows⟩ := Shows.of_vector denotes
  refine .get_bind ?_
  by_cases empty : memory.size address = 0
  · have evolves := Evolves.of_reowned sound (memory.reowned_release [.vector address])
    rw [if_pos empty]
    refine .modify_bind (.pure ⟨moreItems, ⟨(sound.release [.vector address]).of_few,
      evolves.denotes otherDenotes, .of_reowned (memory.reowned_release [.vector address]), ?_⟩,
      fun holds few => ?_⟩)
    · exact (Keeps.of_evolves evolves sound).of_subset fun _ member =>
        List.mem_cons_of_mem _ (List.mem_cons_of_mem _ member)
    · have alive := sound.owned.alive_of_mem List.mem_cons_self
      have counted := shows.size_eq (sound.counts holds) alive few
      rw [List.eq_nil_of_length_eq_zero (counted.symm.trans empty), List.nil_append]
  · rw [if_neg empty]
    obtain ⟨more, otherShows⟩ := Shows.of_vector otherDenotes
    have swapped := sound.of_count (other :: address :: atWork)
      fun handle => by simp only [List.count_cons]; omega
    have aliveOther := swapped.owned.alive_of_mem List.mem_cons_self
    refine (take_ends swapped).bind fun taken after ⟨same, afterSound, reowned⟩ => ?_
    subst same
    have evolves := Evolves.of_reowned sound reowned
    have stands := (Stands.of_shows sound aliveOther otherShows).evolved sound evolves
      fun _ => sound.owned.alive_of_held aliveOther
    have ordered := afterSound.of_count (address :: handles (memory.contents other) ++ atWork)
      fun handle => by simp only [List.count_append, List.count_cons]; omega
    refine (put_ends ordered (evolves.shows shows) stands ?_).imp fun result grown extends' => ?_
    · exact Or.inr ((reowned.readers address).trans idle)
    · have subset : ∀ handle ∈ atWork, handle ∈ address :: other :: atWork := fun _ member =>
        List.mem_cons_of_mem _ (List.mem_cons_of_mem _ member)
      exact (extends'.grows _ ordered).growsTo.trans_evolves evolves (.of_reowned reowned) sound
        subset

theorem length_le_doubled (items : List Tree) (count : Nat) :
    items.length ≤ (Tree.doubled items count).length := by
  induction count generalizing items with
  | zero => exact Nat.le_refl _
  | succ count inductionHypothesis =>
    refine Nat.le_trans ?_ (inductionHypothesis (items ++ items))
    rw [List.length_append]
    exact Nat.le_add_right _ _

theorem double_ends {count : Nat} (sound : Sound sure memory (address :: atWork))
    (denotes : Denotes memory (.vector address) (.vector items)) (idle : memory.Idle) :
    (double address count).Ends memory
      (GrowsTo sure ((Tree.doubled items count).length < 2 ^ 64) memory atWork
        (Tree.doubled items count)) := by
  induction count generalizing sure memory address items with
  | zero => exact .pure (Grows.refl sound denotes).growsTo
  | succ count inductionHypothesis =>
    have alive := sound.owned.alive_of_mem List.mem_cons_self
    have copied := sound.retain [.vector address] fun handle member =>
      List.mem_singleton.mp member ▸ alive
    have evolves := Evolves.of_reowned sound (memory.reowned_retain [.vector address])
    obtain ⟨elements, shows⟩ := Shows.of_vector (evolves.denotes denotes)
    refine .modify_bind ((append_ends (.embedded address) copied shows.vector
      shows.embedded ?_).bind ?_)
    · exact (evolves.steady.readers address).trans (idle address)
    · rintro result grown ⟨longer, grows, exact'⟩
      have steady := (Calm.of_reowned (memory.reowned_retain [.vector address])).trans grows.steady
      refine (inductionHypothesis grows.sound grows.denotes
        (idle_of_steady idle steady.toSteady)).imp
        fun _ _ further => further.trans_left ?_ steady fun holds few => ?_
      · exact ((Keeps.of_evolves evolves sound).of_subset fun _ member =>
          List.mem_cons_of_mem _ member).trans grows.keeps
      · have half := length_le_doubled (items ++ items) count
        rw [List.length_append] at half
        have whole : (Tree.doubled (items ++ items) count).length < 2 ^ 64 := few
        have short : items.length < 2 ^ 64 := by omega
        rw [exact' holds short]
        exact ⟨short, few, rfl⟩

theorem chain_ends {count : Nat} (sound : Sound sure memory (address :: atWork))
    (denotes : Denotes memory (.vector address) (.vector items)) (idle : memory.Idle) :
    (chain address count).Ends memory
      (GrowsTo sure ((Tree.chained items count).length < 2 ^ 64) memory atWork
        (Tree.chained items count)) := by
  induction count generalizing sure memory address items with
  | zero => exact .pure (Grows.refl sound denotes).growsTo
  | succ count inductionHypothesis =>
    have start : Sound sure memory (handles [.number 0] ++ address :: atWork) := sound
    refine (newVector_direct_ends [.number 0] start ?_ (.cons (.number 0) .nil)).bind
      fun head created ⟨_, createdSound, evolves, shows, _, calm⟩ => ?_
    · exact fun value member => List.mem_singleton.mp member ▸ rfl
    obtain ⟨elements, tailShows⟩ := Shows.of_vector (evolves.denotes denotes)
    refine (append_ends (.embedded address) createdSound shows.vector tailShows.embedded
      ((evolves.steady.readers head).trans (idle head))).bind ?_
    rintro result grown ⟨longer, grows, exact'⟩
    have steady := calm.trans grows.steady
    refine (inductionHypothesis grows.sound grows.denotes
      (idle_of_steady idle steady.toSteady)).imp
      fun _ _ further => further.trans_left ?_ steady fun holds few => ?_
    · exact ((Keeps.of_evolves evolves sound).of_subset fun _ member =>
        List.mem_cons_of_mem _ member).trans grows.keeps
    · have same : Tree.chained ([.number 0] ++ items) count = Tree.chained items (count + 1) := by
        rw [Tree.chained, Tree.chained, List.replicate_succ', List.append_assoc]
      have short : items.length < 2 ^ 64 := by
        rw [Tree.chained, List.length_append] at few
        omega
      rw [exact' holds short]
      exact ⟨short, same ▸ few, same⟩

end Memory

end SolidScript
