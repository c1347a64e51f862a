/-
This file proves that flattening a storage keeps the invariant and carries every storage, and that
access by position finds the elements that a storage shows. A slice is lent out until it is given
back; a storage that is lent out is flat, so that it is not rewritten in the meantime.
-/

import SolidScript.Proofs.Soundness

namespace SolidScript

open Value (handles)

namespace Memory

variable {sure : Prop} {memory : Memory} {atWork : List Address} {address : Address}

/-! ### Rewriting a storage -/

/-- The memory when the elements are found: that is reported, and they are copied. -/
def prepare (memory : Memory) (elements : Array Value) : Memory :=
  (memory.report (.flattened elements.size.toUInt64.toNat)).retain elements.toList

theorem reowned_prepare (memory : Memory) (elements : Array Value) :
    Reowned (memory.report (.flattened elements.size.toUInt64.toNat)) (memory.prepare elements) :=
  reowned_retain _ _

theorem reowned_rewrite (memory : Memory) (address : Address) (elements : Array Value) :
    Reowned ((memory.prepare elements).change address (Storage.flattened elements))
      (memory.rewrite address elements) :=
  reowned_release _ _

theorem contents_rewrite_self (elements : Array Value) (inside : address < memory.storages.size) :
    (memory.rewrite address elements).contents address = elements.toList := by
  have reowned := memory.reowned_prepare elements
  rw [(memory.reowned_rewrite address elements).contents, contents, storage_change_self]
  · rfl
  · rw [reowned.length]
    exact inside

theorem excess_rewrite_self (elements : Array Value) (inside : address < memory.storages.size) :
    (memory.rewrite address elements).excess address = 0 := by
  have reowned := memory.reowned_prepare elements
  rw [(memory.reowned_rewrite address elements).excess, excess, storage_change_self]
  · rfl
  · rw [reowned.length]
    exact inside

theorem contents_rewrite_of_ne (elements : Array Value) {other : Address}
    (different : other ≠ address) :
    (memory.rewrite address elements).contents other = memory.contents other := by
  have reowned := memory.reowned_prepare elements
  rw [(memory.reowned_rewrite address elements).contents, contents,
    storage_change_of_ne _ _ different]
  exact reowned.contents other

theorem excess_rewrite_of_ne (elements : Array Value) {other : Address}
    (different : other ≠ address) :
    (memory.rewrite address elements).excess other = memory.excess other := by
  have reowned := memory.reowned_prepare elements
  rw [(memory.reowned_rewrite address elements).excess, excess, storage_change_of_ne _ _ different]
  exact reowned.excess other

theorem length_rewrite (memory : Memory) (address : Address) (elements : Array Value) :
    (memory.rewrite address elements).storages.size = memory.storages.size := by
  have reowned := memory.reowned_prepare elements
  rw [(memory.reowned_rewrite address elements).length, length_change]
  exact reowned.length

theorem readers_rewrite (memory : Memory) (address other : Address) (elements : Array Value) :
    (memory.rewrite address elements).readers other = memory.readers other := by
  rw [(memory.reowned_rewrite address elements).readers]
  exact (storage_change_keeps Storage.readers _ address other (Storage.flattened elements)
    fun _ => rfl).trans ((memory.reowned_prepare elements).readers other)

theorem events_rewrite (memory : Memory) (address : Address) (elements : Array Value) :
    (memory.rewrite address elements).events =
      .flattened elements.size.toUInt64.toNat :: memory.events :=
  (memory.reowned_rewrite address elements).events.trans (memory.reowned_prepare elements).events

theorem flattenings_rewrite (memory : Memory) (address : Address) (elements : Array Value) :
    (memory.rewrite address elements).flattenings =
      memory.flattenings ++ [elements.size.toUInt64.toNat] := by
  rw [flattenings, events_rewrite]
  exact List.reverse_cons

/-- A storage that is flattened gets its elements; if it had no placeholders nothing happens. -/
theorem flatten_eq_some {after : Memory}
    (flattened : flatten address memory = some ((), after)) :
    (memory.excess address = 0 ∧ after = memory) ∨
      ∃ elements, memory.excess address ≠ 0 ∧ after = memory.rewrite address elements := by
  unfold flatten at flattened
  by_cases flat : memory.excess address = 0
  · rw [if_pos flat] at flattened
    cases flattened
    exact Or.inl ⟨flat, rfl⟩
  · rw [if_neg flat] at flattened
    obtain ⟨elements, _, idle⟩ := Option.bind_eq_some_iff.mp flattened
    by_cases lent : memory.readers address = 0
    · rw [if_pos lent] at idle
      cases idle
      exact Or.inr ⟨elements, flat, rfl⟩
    · rw [if_neg lent] at idle
      contradiction

theorem grown_rewrite (sound : Sound sure memory atWork) (alive : memory.owners address ≠ 0)
    {elements : Array Value} (expands : Expands memory (memory.contents address) elements.toList) :
    Grown memory (memory.rewrite address elements) := by
  intro other
  by_cases same : other = address
  · subst same
    rw [contents_rewrite_self elements (owners_inside alive)]
    exact sound.length_le_of_shows alive expands
  · rw [contents_rewrite_of_ne elements same]

theorem steady_rewrite (sound : Sound sure memory atWork) (alive : memory.owners address ≠ 0)
    {elements : Array Value} (expands : Expands memory (memory.contents address) elements.toList) :
    Steady [] [] memory (memory.rewrite address elements) where
  grown := grown_rewrite sound alive expands
  readers other := readers_rewrite memory address other elements
  closures :=
    (memory.reowned_rewrite address elements).closures.trans
      (memory.reowned_prepare elements).closures
  warnings := by
    rw [warnings, events_rewrite]
    rfl

/-- To rewrite a storage with what it shows carries every storage. -/
theorem evolves_rewrite (sound : Sound sure memory atWork) {elements : Array Value}
    {items : List Tree} (alive : memory.owners address ≠ 0)
    (shows : Shows memory address elements.toList items) (spliced : memory.excess address ≠ 0) :
    Evolves [] [] memory (memory.rewrite address elements) where
  steady := steady_rewrite sound alive shows.expands
  sizes fits other _ := by
    by_cases same : other = address
    · subst same
      have grown := grown_rewrite sound alive shows.expands
      have counts := sound.counts (sound.fitted_of_grown grown fits)
      rw [size_of_flat (excess_rewrite_self elements shows.inside),
        contents_rewrite_self elements shows.inside, counts.size_eq_mod alive shows.expands]
    · exact size_congr (contents_rewrite_of_ne elements same) (excess_rewrite_of_ne elements same)
  carries := by
    have reowned := memory.reowned_prepare elements
    have ranges : (memory.rewrite address elements).ranges = memory.ranges :=
      (memory.reowned_rewrite address elements).ranges.trans reowned.ranges
    refine ⟨sound.enclosed, fun range registered => ?_, Nat.le_of_eq (length_rewrite ..).symm,
      fun other _ => ?_⟩
    · rw [Registers, ranges]
      exact registered
    by_cases same : other = address
    · subst same
      refine .flattened spliced (excess_rewrite_self elements shows.inside) ?_
      rw [contents_rewrite_self elements shows.inside]
      exact shows.expands
    · exact .same (contents_rewrite_of_ne elements same) (excess_rewrite_of_ne elements same)

/-- Rewriting a storage gives no storage an owner that had none. -/
theorem alive_of_rewrite {elements : Array Value}
    (found : ∀ handle ∈ handles elements.toList, memory.owners handle ≠ 0) {other : Address}
    (alive : (memory.rewrite address elements).owners other ≠ 0) : memory.owners other ≠ 0 := by
  have changed := alive_of_release alive
  rw [owners, storage_change_keeps Storage.owners _ _ _ (Storage.flattened elements) fun _ => rfl]
    at changed
  have reported : ∀ handle ∈ handles elements.toList,
      (memory.report (.flattened elements.size.toUInt64.toNat)).owners handle ≠ 0 := found
  exact alive_of_retain reported changed

/-- The new elements are copied before the old ones are given up, so that none of them is lost. -/
theorem owned_rewrite (owned : memory.Owned atWork) {elements : Array Value}
    (alive : memory.owners address ≠ 0)
    (found : ∀ handle ∈ handles elements.toList, memory.owners handle ≠ 0) :
    (memory.rewrite address elements).Owned atWork := by
  have reported : (memory.report (.flattened elements.size.toUInt64.toNat)).Owned atWork := owned
  have retained : (memory.prepare elements).Owned (handles elements.toList ++ atWork) :=
    reported.retain elements.toList found
  have reowned := memory.reowned_prepare elements
  refine Owned.release (memory.contents address) (retained.change ?_ rfl fun other => ?_)
  · have more : memory.owners address ≤ (memory.prepare elements).owners address :=
      (memory.report _).owners_le_retain elements.toList address
    exact fun unowned => alive (Nat.eq_zero_of_le_zero (unowned ▸ more))
  · have old : (memory.prepare elements).contents address = memory.contents address :=
      reowned.contents address
    show (handles elements.toList).count other + _ = _
    rw [old, List.count_append, List.count_append]
    omega

theorem sound_rewrite (sound : Sound sure memory atWork) {elements : Array Value}
    {items : List Tree} (alive : memory.owners address ≠ 0)
    (shows : Shows memory address elements.toList items) (spliced : memory.excess address ≠ 0) :
    Sound sure (memory.rewrite address elements) atWork := by
  have evolves := evolves_rewrite sound alive shows spliced
  have found := sound.alive_of_shows alive shows
  refine ⟨owned_rewrite sound.owned alive found, fun other owners => ?_, fun other lent => ?_,
    fun other handle member => ?_, sound.fitted_of_grown evolves.steady.grown⟩
  · have before := alive_of_rewrite found owners
    exact sound.formed_of_carries evolves.carries (owners_inside before) before
  · rw [evolves.steady.readers] at lent
    exact evolves.carries.flat other (readers_inside lent) (sound.quiet other lent)
  · rw [length_rewrite]
    by_cases same : other = address
    · subst same
      rw [contents_rewrite_self elements shows.inside] at member
      exact owners_inside (found handle member)
    · rw [contents_rewrite_of_ne elements same] at member
      exact sound.closed other handle member

/-- After flattening, a storage is flat. -/
theorem flatten_ends (sound : Sound sure memory atWork) (alive : memory.owners address ≠ 0) :
    (flatten address).Ends memory fun _ after =>
      Sound sure after atWork ∧ Evolves [] [] memory after ∧ after.excess address = 0 := by
  by_cases flat : memory.excess address = 0
  · refine .intro () memory ?_ ⟨sound, .refl sound, flat⟩
    rw [flatten, if_pos flat]
  · have idle : memory.readers address = 0 := by
      by_contra lent
      exact flat (sound.quiet address lent)
    obtain ⟨elements, items, shows⟩ := sound.shows alive
    refine .intro () (memory.rewrite address elements.toArray) ?_
      ⟨sound_rewrite sound alive shows flat, evolves_rewrite sound alive shows flat,
        excess_rewrite_self _ shows.inside⟩
    rw [flatten, if_neg flat, list_eq shows.inside shows.expands]
    show (if memory.readers address = 0 then _ else _) = _
    rw [if_pos idle]

/-! ### Slices -/

/-- The memory with another number of slices of a storage being read. -/
def lend (memory : Memory) (address : Address) (readers : Nat) : Memory :=
  memory.change address (Storage.withReaders readers)

theorem contents_lend (readers : Nat) (other : Address) :
    (memory.lend address readers).contents other = memory.contents other :=
  congrArg Array.toList (storage_change_keeps Storage.elements _ _ _ _ fun _ => rfl)

theorem excess_lend (readers : Nat) (other : Address) :
    (memory.lend address readers).excess other = memory.excess other :=
  congrArg UInt64.toNat (storage_change_keeps Storage.excess _ _ _ _ fun _ => rfl)

theorem owners_lend (readers : Nat) (other : Address) :
    (memory.lend address readers).owners other = memory.owners other :=
  storage_change_keeps Storage.owners _ _ _ _ fun _ => rfl

theorem size_lend (readers : Nat) (other : Address) :
    (memory.lend address readers).size other = memory.size other :=
  size_congr (contents_lend readers other) (excess_lend readers other)

theorem readers_lend_self (inside : address < memory.storages.size) (readers : Nat) :
    (memory.lend address readers).readers address = readers :=
  congrArg Storage.readers (memory.storage_change_self address _ inside)

theorem readers_lend_of_ne (readers : Nat) {other : Address} (different : other ≠ address) :
    (memory.lend address readers).readers other = memory.readers other :=
  congrArg Storage.readers (memory.storage_change_of_ne _ different)

theorem carries_lend (sound : Sound sure memory atWork) (address : Address) (readers : Nat) :
    Carries memory.Has memory (memory.lend address readers) where
  enclosed := sound.enclosed
  registers _ registered := registered
  length := Nat.le_of_eq (memory.length_change address _).symm
  relaid other _ := .same (contents_lend readers other) (excess_lend readers other)

theorem grown_lend (memory : Memory) (address : Address) (readers : Nat) :
    Grown memory (memory.lend address readers) :=
  fun other => Nat.le_of_eq (congrArg List.length (contents_lend readers other).symm)

theorem sound_lend (sound : Sound sure memory atWork) (inside : address < memory.storages.size)
    {readers : Nat} (flat : readers = 0 ∨ memory.excess address = 0) :
    Sound sure (memory.lend address readers) atWork where
  owned other := by
    have changed := memory.total_change (Storage.holds other) address
      (Storage.withReaders readers) inside
    have same : ((memory.storage address).withReaders readers).holds other =
        (memory.storage address).holds other := rfl
    have counts := sound.owned other
    rw [owners_lend]
    unfold held lend at *
    omega
  formed other owners := by
    rw [owners_lend] at owners
    exact sound.formed_of_carries (carries_lend sound address readers) (owners_inside owners) owners
  quiet other lent := by
    rw [excess_lend]
    by_cases same : other = address
    · subst same
      rw [readers_lend_self inside] at lent
      exact flat.resolve_left lent
    · rw [readers_lend_of_ne readers same] at lent
      exact sound.quiet other lent
  closed other handle member := by
    rw [contents_lend] at member
    rw [lend, length_change]
    exact sound.closed other handle member
  fitted := sound.fitted_of_grown (memory.grown_lend address readers)

theorem steady_lend (inside : address < memory.storages.size) :
    Steady [] [address] memory (memory.lend address (memory.readers address + 1)) where
  grown := memory.grown_lend address _
  readers other := by
    by_cases same : other = address
    · subst same
      rw [readers_lend_self inside, List.count_singleton_self]
    · rw [readers_lend_of_ne _ same, List.count_eq_zero.mpr (by simpa using same), Nat.add_zero]
  closures := rfl
  warnings := rfl

/-- A slice holds all that a storage stores once it is flat. -/
theorem slice_ends (sound : Sound sure memory atWork) (alive : memory.owners address ≠ 0) :
    (slice address).Ends memory fun result after =>
      result = (after.contents address).toArray ∧ Sound sure after atWork ∧
        Evolves [] [address] memory after ∧ after.excess address = 0 := by
  refine (flatten_ends sound alive).bind fun _ flattened ⟨flatSound, evolves, flat⟩ => ?_
  have inside := Nat.lt_of_lt_of_le (owners_inside alive) evolves.carries.length
  refine .intro _ _ rfl ⟨?_, sound_lend flatSound inside (Or.inr flat), ?_, ?_⟩
  · exact Array.toList_inj.mp (contents_lend _ address).symm
  · exact evolves.trans ⟨carries_lend flatSound address _, fun _ other _ => size_lend _ other,
      steady_lend inside⟩
  · exact (excess_lend _ address).trans flat

/-- A slice that is given back is not lent any more. -/
theorem unslice_ends {before : Memory} {warned : List Warning} {lent : List Address}
    (sound : Sound sure memory atWork) (evolves : Evolves warned (address :: lent) before memory) :
    (unslice address).Ends memory fun _ after =>
      Sound sure after atWork ∧ Evolves warned lent before after ∧
        Carries memory.Has memory after := by
  have readers := evolves.steady.readers address
  rw [List.count_cons_self] at readers
  have inside : address < memory.storages.size := readers_inside (by omega)
  have carries := carries_lend sound address (memory.readers address - 1)
  refine .modify ⟨sound_lend sound inside ?_, ⟨?_, ?_, ?_, ?_, ?_, ?_⟩, carries⟩
  · exact Or.inr (sound.quiet address (by omega))
  · exact evolves.carries.trans carries fun _ has =>
      Nat.lt_of_lt_of_le has evolves.carries.length
  · exact fun fits other has => (size_lend _ other).trans
      (evolves.sizes (fits.of_grown (memory.grown_lend address _)) other has)
  · exact fun other => Nat.le_trans (evolves.steady.grown other) (memory.grown_lend address _ other)
  · intro other
    show (memory.lend address _).readers other = _
    by_cases same : other = address
    · subst same
      rw [readers_lend_self inside]
      omega
    · rw [readers_lend_of_ne _ same, evolves.steady.readers other,
        List.count_cons_of_ne (Ne.symm same)]
  · exact evolves.steady.closures
  · exact evolves.steady.warnings

/-- Work on a slice keeps what the work keeps. What it establishes must not depend on which slices
are being read. -/
theorem reading_ends {α : Type} {work : Array Value → Action α} (warned : List Warning)
    (given : α → List Address) (condition : α → Memory → Prop) (sound : Sound sure memory atWork)
    (alive : memory.owners address ≠ 0)
    (stable : ∀ result before after, Carries before.Has before after →
      condition result before → condition result after)
    (works : ∀ lent, Sound sure lent atWork → Evolves [] [address] memory lent →
      lent.excess address = 0 →
        (work (lent.contents address).toArray).Ends lent fun result after =>
          Sound sure after (given result ++ atWork) ∧ Evolves warned [] lent after ∧
            condition result after) :
    (reading address work).Ends memory fun result after =>
      Sound sure after (given result ++ atWork) ∧ Evolves warned [] memory after ∧
        condition result after := by
  refine (slice_ends sound alive).bind fun slice lent ⟨found, lentSound, opened, flat⟩ => ?_
  subst found
  refine (works lent lentSound opened flat).bind
    fun result worked ⟨workedSound, evolves, meets⟩ => ?_
  refine (unslice_ends workedSound (opened.trans evolves)).bind
    fun _ closed ⟨closedSound, whole, carries⟩ => ?_
  exact .pure ⟨closedSound, whole, stable result worked closed carries meets⟩

/-! ### Single elements -/

/-- The element at a position, or the undefined value where there is none. -/
def elementOf (elements : List Value) (position : Nat) : Value :=
  elements[position]?.getD .undefined

theorem handles_elementOf_subset (elements : List Value) (position : Nat) :
    ∀ handle ∈ handles [elementOf elements position], handle ∈ handles elements := by
  intro handle member
  unfold elementOf at member
  cases found : elements[position]? with
  | none =>
    rw [found] at member
    contradiction
  | some value =>
    rw [found] at member
    exact (handles_sublist (List.singleton_sublist.mpr (List.mem_of_getElem? found))).subset member

/-- The undefined value is no placeholder. -/
theorem direct_elementOf {elements : List Value}
    (direct : ∀ value ∈ elements, value.isEmbedded = false) (position : Nat) :
    (elementOf elements position).isEmbedded = false := by
  unfold elementOf
  cases found : elements[position]? with
  | none => rfl
  | some value => exact direct value (List.mem_of_getElem? found)

theorem denotes_elementOf {elements : List Value} {items : List Tree}
    (each : List.Forall₂ (Denotes memory) elements items) (position : Nat) :
    Denotes memory (elementOf elements position) (items[position]?.getD .undefined) := by
  unfold elementOf
  induction each generalizing position with
  | nil => exact .undefined
  | cons head _ inductionHypothesis =>
    cases position with
    | zero => exact head
    | succ position => exact inductionHypothesis position

/-! ### Stored values -/

/-- A flat storage stores the given values, and they denote the given trees. A storage with a wrong
count of its elements may be flat and store placeholders. -/
structure Stores (memory : Memory) (address : Address) (values : List Value)
    (trees : List Tree) : Prop where
  inside : address < memory.storages.size
  flat : memory.excess address = 0
  contents : memory.contents address = values
  each : List.Forall₂ (Denotes memory) values trees

/-- What a storage stores denotes something, placeholders included. -/
theorem denotes_of_stored (sound : Sound sure memory atWork) (alive : memory.owners address ≠ 0)
    {value : Value} (stored : value ∈ memory.contents address) :
    ∃ tree, Denotes memory value tree := by
  by_cases placeholder : value.isEmbedded = true
  · cases value with
    | embedded inner =>
      obtain ⟨_, _, innerShows⟩ := sound.shows
        (sound.owned.alive_of_held alive (mem_handles.mpr (Or.inr stored)))
      exact ⟨_, innerShows.embedded⟩
    | _ => contradiction
  · obtain ⟨elements, items, shows⟩ := sound.shows alive
    have found := shows.expands.mem_of_direct stored (Bool.eq_false_iff.mpr placeholder)
    exact exists_of_forall₂_of_mem shows.each found

namespace Stores

variable {values : List Value} {trees : List Tree}

theorem of_flat (sound : Sound sure memory atWork) (alive : memory.owners address ≠ 0)
    (flat : memory.excess address = 0) :
    ∃ trees, Stores memory address (memory.contents address) trees := by
  obtain ⟨trees, each⟩ := exists_forall₂_of_forall_mem fun value stored =>
    denotes_of_stored sound alive stored
  exact ⟨trees, owners_inside alive, flat, rfl, each⟩

/-- A flat storage is not rewritten. -/
theorem carried {before after : Memory} (stores : Stores before address values trees)
    (carries : Carries before.Has before after) : Stores after address values trees := by
  obtain ⟨inside, flat, contents, each⟩ := stores
  cases carries.relaid address inside with
  | same contents' excess =>
    refine ⟨Nat.lt_of_lt_of_le inside carries.length, excess.trans flat, contents'.trans contents,
      each.imp fun _ _ denotes => ?_⟩
    exact carries.denotes denotes (has_of_denotes denotes)
  | flattened spliced => exact absurd flat spliced

theorem alive (stores : Stores memory address values trees) (sound : Sound sure memory atWork)
    (owned : memory.owners address ≠ 0) : ∀ handle ∈ handles values, memory.owners handle ≠ 0 :=
  stores.contents ▸ sound.enclosed_alive.closed address owned

/-- A flat storage of few elements stores them. -/
theorem eq_of_shows (stores : Stores memory address values trees) (sound : Sound sure memory atWork)
    (owned : memory.owners address ≠ 0) (holds : sure) {elements : List Value} {items : List Tree}
    (shows : Shows memory address elements items) (few : items.length < 2 ^ 64) :
    values = elements ∧ trees = items := by
  have same : values = elements :=
    stores.contents.symm.trans (sound.contents_of_flat holds owned stores.flat shows few)
  subst same
  exact ⟨rfl, forall₂_right_unique_of_mem stores.each shows.each
    fun _ _ _ _ => Denotes.unique⟩

end Stores

/-- A slice holds what is stored once the storage is flat. -/
theorem elements_ends (sound : Sound sure memory atWork) (member : address ∈ atWork) :
    (reading address fun elements => return elements).Ends memory fun found after =>
      Sound sure after atWork ∧ Evolves [] [] memory after ∧
        ∃ values trees, Stores after address values trees ∧ found = values.toArray := by
  refine reading_ends [] (fun _ => []) (fun found after =>
    ∃ values trees, Stores after address values trees ∧ found = values.toArray) sound
    (sound.owned.alive_of_mem member) ?_ ?_
  · rintro found before after carries ⟨values, trees, stores, same⟩
    exact ⟨values, trees, stores.carried carries, same⟩
  · intro lent lentSound opened flat
    obtain ⟨trees, stores⟩ := Stores.of_flat lentSound (lentSound.owned.alive_of_mem member) flat
    exact .pure ⟨lentSound, .refl lentSound, _, trees, stores, rfl⟩

/-- Access by position finds an element that is stored once the storage is flat, and copies it. -/
theorem element_ends (sound : Sound sure memory atWork) (member : address ∈ atWork)
    (position : Nat) :
    (element address position).Ends memory fun found after =>
      Sound sure after (handles [found] ++ atWork) ∧ Evolves [] [] memory after ∧
        ∃ values trees, Stores after address values trees ∧ found = elementOf values position := by
  refine (reading_ends [] (fun _ => []) (fun found after =>
    ∃ values trees, Stores after address values trees ∧ found = elementOf values position) sound
    (sound.owned.alive_of_mem member) ?_ ?_).bind ?_
  · rintro found before after carries ⟨values, trees, stores, same⟩
    exact ⟨values, trees, stores.carried carries, same⟩
  · intro lent lentSound opened flat
    obtain ⟨trees, stores⟩ := Stores.of_flat lentSound (lentSound.owned.alive_of_mem member) flat
    refine .pure ⟨lentSound, .refl lentSound, _, trees, stores, ?_⟩
    rw [elementOf, List.getElem?_toArray]
  · rintro found after ⟨afterSound, evolves, values, trees, stores, rfl⟩
    have alive := stores.alive afterSound (afterSound.owned.alive_of_mem member)
    have copied := afterSound.retain [elementOf values position] fun handle inFound =>
      alive handle (handles_elementOf_subset values position handle inFound)
    have further := Evolves.of_reowned afterSound
      (after.reowned_retain [elementOf values position])
    exact .modify_bind (.pure ⟨copied, evolves.trans further, values, trees,
      stores.carried further.carries, rfl⟩)

end Memory

end SolidScript
