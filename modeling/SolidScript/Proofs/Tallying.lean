/-
This file is about the counters of storages. A placeholder counts as one stored element and hides
the others that it stands for, and the excess of a storage counts what its placeholders hide. The
counters are machine words, so all that is certain of a size is what a word keeps of the number of
elements. As long as there are fewer elements than a word can count, the size is their number, and
the storage is without excess exactly if it stores no placeholder.
-/

import SolidScript.Proofs.Meaning

namespace SolidScript

open Value (handles)

namespace Memory

/-! ### Hidden elements -/

/-- The elements beyond the first that a stored value stands for, as its size tells. -/
def hiddenBy (memory : Memory) : Value → Nat
  | .embedded inner => memory.size inner - 1
  | _ => 0

/-- The elements that stored values stand for beyond themselves. -/
def hidden (memory : Memory) (stored : List Value) : Nat :=
  (stored.map memory.hiddenBy).foldr (· + ·) 0

variable {memory : Memory}

theorem hidden_cons (memory : Memory) (value : Value) (stored : List Value) :
    memory.hidden (value :: stored) = memory.hiddenBy value + memory.hidden stored := rfl

theorem hidden_append (memory : Memory) (first second : List Value) :
    memory.hidden (first ++ second) = memory.hidden first + memory.hidden second := by
  rw [hidden, hidden, hidden, List.map_append, ← List.sum_eq_foldr, ← List.sum_eq_foldr,
    ← List.sum_eq_foldr, List.sum_append]

theorem hiddenBy_of_direct {value : Value} (direct : value.isEmbedded = false) :
    memory.hiddenBy value = 0 := by
  cases value with
  | embedded => contradiction
  | _ => rfl

theorem hidden_of_direct {values : List Value}
    (direct : ∀ value ∈ values, value.isEmbedded = false) : memory.hidden values = 0 := by
  induction values with
  | nil => rfl
  | cons value values inductionHypothesis =>
    rw [hidden_cons, hiddenBy_of_direct (direct value List.mem_cons_self),
      inductionHypothesis fun other member => direct other (List.mem_cons_of_mem _ member)]

theorem hiddenBy_le_hidden {stored : List Value} {value : Value} (member : value ∈ stored) :
    memory.hiddenBy value ≤ memory.hidden stored := by
  induction stored with
  | nil => exact absurd member List.not_mem_nil
  | cons first stored inductionHypothesis =>
    rw [hidden_cons]
    rcases List.mem_cons.mp member with rfl | later
    · exact Nat.le_add_right _ _
    · exact Nat.le_add_left_of_le (inductionHypothesis later)

/-- What stored values hide depends on the sizes of their placeholders alone. -/
theorem hidden_congr {before after : Memory} {stored : List Value}
    (same : ∀ inner, .embedded inner ∈ stored → after.size inner = before.size inner) :
    after.hidden stored = before.hidden stored := by
  refine congrArg (List.foldr (· + ·) 0) (List.map_congr_left fun value member => ?_)
  cases value with
  | embedded inner => exact congrArg (· - 1) (same inner member)
  | _ => rfl

theorem hiddenBy_embedded {address : Address} (large : 2 ≤ memory.size address) :
    memory.hiddenBy (.embedded address) + 1 = memory.size address := by
  show memory.size address - 1 + 1 = memory.size address
  omega

/-- A storage whose counter is right: each placeholder in it is of size two at least, and the excess
is what a word keeps of the number of elements that they hide. -/
structure Tallied (memory : Memory) (address : Address) : Prop where
  large : ∀ inner, .embedded inner ∈ memory.contents address → 2 ≤ memory.size inner
  excess : memory.excess address = memory.hidden (memory.contents address) % 2 ^ 64

/-- A storage without placeholders that hides nothing is tallied. -/
theorem Tallied.of_direct {address : Address} (flat : memory.excess address = 0)
    (direct : ∀ value ∈ memory.contents address, value.isEmbedded = false) :
    memory.Tallied address where
  large _ stored := absurd (direct _ stored) (by simp [Value.isEmbedded])
  excess := by rw [flat, hidden_of_direct direct, Nat.zero_mod]

/-- A storage that hides nothing and has the size one stores its only element itself. -/
theorem Tallied.direct_of_size_eq_one {address : Address} (tallied : memory.Tallied address)
    (flat : memory.excess address = 0) (single : memory.size address = 1)
    (short : (memory.contents address).length < 2 ^ 64) :
    ∀ value ∈ memory.contents address, value.isEmbedded = false := by
  rw [size_of_flat flat, Nat.mod_eq_of_lt short] at single
  obtain ⟨only, stored⟩ := List.length_eq_one_iff.mp single
  have counted := tallied.excess
  rw [flat, stored, hidden_cons] at counted
  rw [stored]
  intro value member
  cases List.mem_singleton.mp member
  cases only with
  | embedded inner =>
    have large := tallied.large inner (stored ▸ List.mem_cons_self)
    have bound := memory.size_lt inner
    have hides := hiddenBy_embedded large
    have nothing : memory.hidden [] = 0 := rfl
    omega
  | _ => rfl

/-- A storage of the size one that stores no more than one element hides nothing. -/
theorem Tallied.flat_of_size_eq_one {address : Address} (tallied : memory.Tallied address)
    (single : memory.size address = 1) (short : (memory.contents address).length ≤ 1) :
    memory.excess address = 0 := by
  have counted := tallied.excess
  have size := memory.size_eq_mod address
  match stored : memory.contents address with
  | [] => rw [counted, stored]; rfl
  | [value] =>
    rw [stored, hidden_cons] at counted
    rw [stored, List.length_singleton] at size
    have nothing : memory.hidden [] = 0 := rfl
    cases value with
    | embedded inner =>
      have large := tallied.large inner (stored ▸ List.mem_cons_self)
      have bound := memory.size_lt inner
      have hides := hiddenBy_embedded large
      omega
    | _ => exact counted
  | _ :: _ :: _ => rw [stored] at short; simp at short

/-- The arrays of all storages have lengths that a word can hold, as any array of a machine has. -/
def Fits (memory : Memory) : Prop :=
  memory.storages.toList.all (fun storage => storage.elements.size < 2 ^ 64) = true

instance (memory : Memory) : Decidable memory.Fits := inferInstanceAs (Decidable (_ = true))

theorem Fits.length_lt (fits : memory.Fits) (address : Address) :
    (memory.contents address).length < 2 ^ 64 := by
  by_cases inside : address < memory.storages.size
  · have each := List.all_eq_true.mp fits _ (Array.getElem_mem_toList inside)
    rw [contents, storage_eq_getElem _ _ inside, Array.length_toList]
    exact of_decide_eq_true each
  · rw [contents, storage_of_outside _ _ (Nat.le_of_not_lt inside)]
    exact Nat.two_pow_pos 64

theorem fits_of_length_lt (short : ∀ address, (memory.contents address).length < 2 ^ 64) :
    memory.Fits := by
  refine List.all_eq_true.mpr fun storage member => decide_eq_true ?_
  obtain ⟨address, inside, rfl⟩ := List.getElem_of_mem member
  have one := short address
  rw [contents, storage_eq_getElem _ _ (Array.length_toList ▸ inside), Array.length_toList] at one
  exact one

/-- A memory of which no storage stores fewer elements than before. -/
def Grown (before after : Memory) : Prop :=
  ∀ address, (before.contents address).length ≤ (after.contents address).length

theorem Fits.of_grown {before after : Memory} (fits : after.Fits) (grown : Grown before after) :
    before.Fits :=
  fits_of_length_lt fun address => Nat.lt_of_le_of_lt (grown address) (fits.length_lt address)

/-! ### Sizes -/

/-- All storages of a set are tallied, and they refer to one another only. -/
structure Counts (memory : Memory) (kept : Address → Prop) : Prop where
  closed : ∀ address, kept address → ∀ handle ∈ handles (memory.contents address), kept handle
  tallied : ∀ address, kept address → memory.Tallied address

end Memory

variable {memory : Memory} {kept : Address → Prop} {address : Address}
  {stored elements : List Value}

/-- Up to what a word keeps, placeholders hide as many elements as they stand for beyond the first.
The induction is on what they stand for, so the sizes of the storages further in are right. -/
theorem Expands.length_mod (expands : Expands memory stored elements)
    (counts : memory.Counts kept) (start : ∀ handle ∈ handles stored, kept handle)
    (large : ∀ inner, .embedded inner ∈ stored → 2 ≤ memory.size inner) :
    elements.length % 2 ^ 64 = (stored.length + memory.hidden stored) % 2 ^ 64 := by
  induction expands with
  | nil => rfl
  | plain direct _ inductionHypothesis =>
    rw [handles_cons] at start
    have rest := inductionHypothesis (fun handle member => start handle
      (List.mem_append_right _ member)) fun inner member => large inner
        (List.mem_cons_of_mem _ member)
    rw [List.length_cons, List.length_cons, Memory.hidden_cons, Memory.hiddenBy_of_direct direct]
    omega
  | @splice address stored inner elements inside hidden _ innerHypothesis restHypothesis =>
    have keptAddress : kept address := start address List.mem_cons_self
    have tallied := counts.tallied address keptAddress
    have within := innerHypothesis (counts.closed address keptAddress) tallied.large
    have rest := restHypothesis (fun handle member => start handle
      (List.mem_cons_of_mem _ member)) fun inner member => large inner
        (List.mem_cons_of_mem _ member)
    have size := memory.size_eq_mod address
    rw [tallied.excess, Nat.add_mod_mod, ← within] at size
    have hides := Memory.hiddenBy_embedded (large address List.mem_cons_self)
    rw [List.length_append, List.length_cons, Memory.hidden_cons]
    omega

namespace Memory.Counts

variable (counts : memory.Counts kept)

include counts

/-- A size is what a word keeps of the number of elements. -/
theorem size_eq_mod (keptAddress : kept address)
    (expands : Expands memory (memory.contents address) elements) :
    memory.size address = elements.length % 2 ^ 64 := by
  have tallied := counts.tallied address keptAddress
  rw [memory.size_eq_mod address, tallied.excess, Nat.add_mod_mod,
    expands.length_mod counts (counts.closed address keptAddress) tallied.large]

theorem size_eq (keptAddress : kept address)
    (expands : Expands memory (memory.contents address) elements)
    (few : elements.length < 2 ^ 64) : memory.size address = elements.length := by
  rw [counts.size_eq_mod keptAddress expands, Nat.mod_eq_of_lt few]

/-- Fewer elements than a word can count are as many as stored and hidden ones. -/
theorem length_eq (start : ∀ handle ∈ handles stored, kept handle)
    (large : ∀ inner, .embedded inner ∈ stored → 2 ≤ memory.size inner)
    (expands : Expands memory stored elements) (few : elements.length < 2 ^ 64) :
    elements.length = stored.length + memory.hidden stored := by
  induction expands with
  | nil => rfl
  | plain direct _ inductionHypothesis =>
    rw [handles_cons] at start
    rw [List.length_cons] at few
    have rest := inductionHypothesis (fun handle member => start handle
      (List.mem_append_right _ member)) (fun inner member => large inner
        (List.mem_cons_of_mem _ member)) (by omega)
    rw [List.length_cons, List.length_cons, Memory.hidden_cons, Memory.hiddenBy_of_direct direct]
    omega
  | @splice address stored inner elements inside hidden _ _ restHypothesis =>
    rw [List.length_append] at few
    have rest := restHypothesis (fun handle member => start handle
      (List.mem_cons_of_mem _ member)) (fun inner member => large inner
        (List.mem_cons_of_mem _ member)) (by omega)
    have size := counts.size_eq (start address List.mem_cons_self) hidden (by omega)
    have hides := Memory.hiddenBy_embedded (large address List.mem_cons_self)
    rw [List.length_append, List.length_cons, Memory.hidden_cons]
    omega

/-- A storage of few elements is flat exactly if it holds no placeholder. -/
theorem excess_eq_zero_iff (keptAddress : kept address)
    (expands : Expands memory (memory.contents address) elements)
    (few : elements.length < 2 ^ 64) :
    memory.excess address = 0 ↔
      ∀ value ∈ memory.contents address, value.isEmbedded = false := by
  have tallied := counts.tallied address keptAddress
  have length := counts.length_eq (counts.closed address keptAddress) tallied.large expands few
  rw [tallied.excess, Nat.mod_eq_of_lt (by omega)]
  constructor
  · intro none value member
    cases value with
    | embedded inner =>
      have large := tallied.large inner member
      have hides := Memory.hiddenBy_embedded large
      have hidesNothing := memory.hiddenBy_le_hidden member
      omega
    | _ => rfl
  · exact hidden_of_direct

/-- What a flat storage of few elements stands for is what it stores. -/
theorem contents_of_flat (keptAddress : kept address) (flat : memory.excess address = 0)
    (expands : Expands memory (memory.contents address) elements)
    (few : elements.length < 2 ^ 64) : memory.contents address = elements :=
  have direct := (counts.excess_eq_zero_iff keptAddress expands few).mp flat
  (Expands.of_direct memory _ direct).unique expands

end Memory.Counts

namespace Shows

variable {items : List Tree} (shows : Shows memory address elements items)
  (counts : memory.Counts kept) (keptAddress : kept address)

include shows counts keptAddress

theorem size_eq_mod : memory.size address = items.length % 2 ^ 64 := by
  rw [counts.size_eq_mod keptAddress shows.expands, shows.each.length_eq]

theorem size_eq (few : items.length < 2 ^ 64) : memory.size address = items.length := by
  rw [shows.size_eq_mod counts keptAddress, Nat.mod_eq_of_lt few]

theorem contents_of_flat (flat : memory.excess address = 0) (few : items.length < 2 ^ 64) :
    memory.contents address = elements :=
  counts.contents_of_flat keptAddress flat shows.expands (shows.each.length_eq ▸ few)

/-- Whatever is stored stands for elements, as no placeholder is of size zero. -/
theorem items_ne_nil (stored : memory.contents address ≠ []) : items ≠ [] := by
  have some' : elements ≠ [] := by
    have large := (counts.tallied address keptAddress).large
    have closed := counts.closed address keptAddress
    have expands := shows.expands
    cases contents : memory.contents address with
    | nil => contradiction
    | cons value rest =>
      rw [contents] at expands large closed
      cases expands with
      | plain => exact List.cons_ne_nil _ _
      | @splice inner _ hiddenElements _ _ hidden _ =>
        have size := counts.size_eq_mod (closed inner List.mem_cons_self) hidden
        have least := large inner List.mem_cons_self
        intro none
        rw [(List.append_eq_nil_iff.mp none).1] at size
        exact absurd (size ▸ least) (by decide)
  rintro rfl
  exact some' (List.forall₂_nil_right_iff.mp shows.each)

end Shows

end SolidScript
