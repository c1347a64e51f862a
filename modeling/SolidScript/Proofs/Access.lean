/-
This file proves what an index answers in every workspace that is reached, for vectors and texts of
every size. A number addresses the position that is its whole part. All other numbers are taken for
the last position of 32 bits, and so are all positions behind it, although something may stand
there: a sequence that is longer answers its last addressable item to every index that is none.
-/

import SolidScript.Proofs.Number.Leading
import SolidScript.Proofs.Pieces
import SolidScript.Proofs.Products
import SolidScript.Proofs.Strides

namespace SolidScript

/-! ### Addresses -/

theorem exists_parts {x : Float} (finite : x.isFinite = true) :
    ∃ negative mantissa exponent, Binary64.ofFloat x = .finite negative mantissa exponent := by
  rcases zero_or_isDouble finite with ⟨_, parts, _⟩ | ⟨_, _, _, parts, _⟩
  · exact ⟨_, _, _, parts⟩
  · exact ⟨_, _, _, parts⟩

/-- The position is the whole part of the double, which lies above `-1`. -/
structure Addresses (x : Float) (position : ℕ) : Prop where
  finite : x.isFinite = true
  above : -1 < amount x
  whole : ⌊amount x⌋₊ = position

theorem positionOf_eq (x : Float) :
    positionOf x =
      if x.isFinite = true ∧ -1 < amount x then min ⌊amount x⌋₊ farPosition else farPosition := by
  cases parts : Binary64.ofFloat x with
  | finite negative mantissa exponent =>
    have nonneg : (0 : ℚ) ≤ mantissa * 2 ^ exponent := by positivity
    have finite := isFinite_of_ofFloat parts
    rw [positionOf, amount, parts, Binary64.value]
    dsimp only
    rw [wholePart_eq_floor]
    generalize (mantissa * 2 ^ exponent : ℚ) = size at nonneg
    cases negative with
    | false =>
      rw [if_neg (by simp), if_neg Bool.false_ne_true, one_mul, if_pos ⟨finite, by linarith⟩]
    | true =>
      have whole : ⌊-size⌋₊ = 0 := Nat.floor_of_nonpos (neg_nonpos.mpr nonneg)
      have above : x.isFinite = true ∧ -1 < -size ↔ ⌊size⌋₊ = 0 := by
        rw [Nat.floor_eq_zero, neg_lt_neg_iff, and_iff_right finite]
      rw [Bool.true_and, if_pos (rfl : true = true), neg_one_mul, whole]
      by_cases none : ⌊size⌋₊ = 0
      · rw [if_pos (above.mpr none), none]
        rfl
      · rw [if_neg (mt above.mp none), if_pos (bne_iff_ne.mpr none)]
  | nan | infinite =>
    rw [positionOf, parts, if_neg]
    rintro ⟨finite, _⟩
    obtain ⟨_, _, _, found⟩ := exists_parts finite
    cases parts.symm.trans found

theorem farPosition_eq : farPosition = 2 ^ 32 - 1 := rfl

theorem Addresses.positionOf_eq {x : Float} {position : ℕ} (addresses : Addresses x position)
    (small : position < 2 ^ 32) : positionOf x = position := by
  have limit := farPosition_eq
  rw [SolidScript.positionOf_eq, if_pos ⟨addresses.finite, addresses.above⟩, addresses.whole]
  omega

theorem positionOf_of_not_addresses {x : Float}
    (none : ∀ position < 2 ^ 32, ¬ Addresses x position) : positionOf x = farPosition := by
  have limit := farPosition_eq
  rw [positionOf_eq]
  split
  next within =>
    have beyond : ¬ ⌊amount x⌋₊ < 2 ^ 32 := fun small =>
      none _ small ⟨within.1, within.2, rfl⟩
    omega
  next => rfl

/-! ### Sequences -/

/-- What stands at the positions of a text or a vector. -/
def Tree.sequence? : Tree → Option (List Tree)
  | text content =>
    some ((Grapheme.pieces content.toList).map fun piece => text (String.ofList piece))
  | vector items | embedded items => some items
  | _ => none

theorem Tree.elementAt_eq {tree : Tree} {items : List Tree} (sequence : tree.sequence? = some items)
    (position : ℕ) : tree.elementAt position = items[position]?.getD .undefined := by
  cases tree with
  | text content =>
    cases sequence
    rw [elementAt, pieceAt?_eq, List.getElem?_map, Option.map_map]
    rfl
  | vector | embedded =>
    cases sequence
    rfl
  | _ => cases sequence

/-! ### Indices -/

/-- An index that addresses a position below `2 ^ 32` answers the item there, and the undefined
value behind the last item. All other indices answer the same. -/
structure Memory.Indexes (memory : Memory) (value : Value) (items : List Tree) (elsewhere : Tree) :
    Prop where
  number : ∀ x position, Addresses x position → position < 2 ^ 32 →
    memory.Gives [value] (value.index (.number x)) (items[position]?.getD .undefined)
  noPosition : ∀ x, (∀ position < 2 ^ 32, ¬ Addresses x position) →
    memory.Gives [value] (value.index (.number x)) elsewhere
  position : ∀ position < 2 ^ 32,
    memory.Gives [value] (value.indexAt position) (items[position]?.getD .undefined)
  beyond : ∀ position, 2 ^ 32 ≤ position → memory.Gives [value] (value.indexAt position) elsewhere

theorem Memory.Gives.unique {memory : Memory} {operands : List Value} {action : Action Value}
    {tree other : Tree} (first : memory.Gives operands action tree)
    (second : memory.Gives operands action other) : tree = other := by
  obtain ⟨result, after, found, denotes⟩ := first
  obtain ⟨_, _, same, denotesOther⟩ := second
  cases found.symm.trans same
  exact denotes.unique denotesOther

namespace Workspace

variable {workspace : Workspace} {value : Value} {tree : Tree}

theorem Reached.gives_elementAt (reached : workspace.Reached) (fits : workspace.memory.Fits)
    (offers : workspace.memory.Offers value tree) (countable : workspace.memory.Countable value)
    (position : ℕ) :
    workspace.memory.Gives [value] (value.elementAt position) (tree.elementAt position) := by
  obtain ⟨sound, evolves⟩ := Memory.Supports.copied (List.forall_mem_singleton.mpr offers.supports)
    (reached.sound fits)
  refine (Value.elementAt_ends sound (fun _ => List.mem_append_left _)
    (evolves.denotes offers.denotes) position).imp ?_
  rintro result after ⟨_, _, _, denotes, _, exact'⟩
  cases (exact' trivial (countable.evolved offers.denotes evolves)).2
  exact denotes

/-- In every workspace that is reached, an index that is no position answers what stands at the last
position of 32 bits. This is the undefined value unless the sequence is longer. A vector may have as
many elements as words can count. -/
theorem indexes_iff (reached : workspace.Reached) (fits : workspace.memory.Fits)
    {items : List Tree} (offers : workspace.memory.Offers value tree)
    (countable : workspace.memory.Countable value) (sequence : tree.sequence? = some items)
    (elsewhere : Tree) :
    workspace.memory.Indexes value items elsewhere ↔
      items[2 ^ 32 - 1]?.getD .undefined = elsewhere := by
  have elements : ∀ position, workspace.memory.Gives [value] (value.elementAt position)
      (items[position]?.getD .undefined) := by
    intro position
    rw [← Tree.elementAt_eq sequence]
    exact reached.gives_elementAt fits offers countable position
  have within : ∀ position < 2 ^ 32, min position farPosition = position := by
    intro position small
    have limit := farPosition_eq
    omega
  have far : ∀ position, 2 ^ 32 ≤ position → min position farPosition = farPosition := by
    intro position large
    have limit := farPosition_eq
    omega
  constructor
  · intro indexes
    have beyond := indexes.beyond (2 ^ 32) le_rfl
    rw [Value.indexAt, far _ le_rfl] at beyond
    exact (elements farPosition).unique beyond
  · rintro rfl
    refine ⟨fun x position addresses small => ?_, fun x none => ?_, fun position small => ?_,
      fun position large => ?_⟩
    · rw [Value.index, addresses.positionOf_eq small]
      exact elements position
    · rw [Value.index, positionOf_of_not_addresses none]
      exact elements farPosition
    · rw [Value.indexAt, within position small]
      exact elements position
    · rw [Value.indexAt, far position large]
      exact elements farPosition

/-- Half a number below zero still addresses the first item, which hides in a placeholder. What is
no number addresses none. -/
theorem indexes_iff_hidden :
    ∃ (workspace : Workspace) (a : Value), workspace.Reached ∧
      workspace.memory.Offers a (.vector [.number 1, .number 2, .number 3]) ∧
      workspace.memory.Indexes a [.number 1, .number 2, .number 3] .undefined ∧
      workspace.memory.Gives [a] (a.index (.number (-0.5))) (.number 1) ∧
      workspace.memory.Gives [a] (a.index (.number (0 / 0))) .undefined := by
  obtain ⟨workspace, a, _, reached, fits, offersSmall, _⟩ := exists_offers_fitting
    [.create, .append 0 (.embedded (.vector [.number 1, .number 2])), .append 0 (.number 3),
      .create] ⟨_, _, rfl, rfl⟩ ⟨_, _, rfl, rfl⟩
  have offers := offersSmall.toOffers
  have countable : workspace.memory.Countable a := .of_few (by decide) offers.denotes
  have indexes := (indexes_iff reached fits offers countable rfl .undefined).mpr rfl
  have half : amount (-0.5) = -1 / 2 := by
    rw [amount, show Binary64.ofFloat (-0.5) = .finite true (2 ^ 52) (-53) by decide +kernel,
      Binary64.value]
    norm_num
  have addresses : Addresses (-0.5) 0 := by
    refine ⟨by decide +kernel, ?_, ?_⟩ <;> rw [half]
    · norm_num
    · exact Nat.floor_of_nonpos (by norm_num)
  refine ⟨workspace, a, reached, offers, indexes, indexes.number _ 0 addresses (by norm_num),
    indexes.noPosition _ fun position _ addresses => ?_⟩
  exact absurd addresses.finite (by decide +kernel)

end Workspace

/-! ### A text that is too long -/

theorem Grapheme.pieces_replicate (count : ℕ) :
    pieces (List.replicate count 'a') = List.replicate count ['a'] := by
  induction count with
  | zero => rfl
  | succ count inductionHypothesis =>
    have cut : attaches ['a'] 'a' = false := by decide +kernel
    have first : next? (List.replicate (count + 1) 'a') =
        some (['a'], List.replicate count 'a') := by
      cases count with
      | zero => rfl
      | succ count =>
        rw [List.replicate_succ, List.replicate_succ, next?, continuation, cut]
        rfl
    rw [pieces_eq, first]
    exact congrArg _ inductionHypothesis

/-- Every text can be kept. -/
theorem Workspace.exists_offers_text (content : String) :
    ∃ (workspace : Workspace) (value : Value), workspace.Reached ∧ workspace.memory.Fits ∧
      workspace.memory.Offers value (.text content) ∧ workspace.memory.Countable value :=
  ⟨_, .text ⟨0, content⟩, ⟨[.keep (.text content)], _, rfl⟩, rfl,
    ⟨.of_denotes (.text _) fun _ member => absurd member List.not_mem_nil, .text _⟩,
    fun _ _ stored => nomatch stored⟩

/-- A text of `2 ^ 32` letters has a letter at the last position. It is answered to an index that is
no number. -/
theorem Workspace.index_reaches_last :
    ∃ (workspace : Workspace) (value : Value), workspace.Reached ∧
      workspace.memory.Offers value (.text (String.ofList (List.replicate (2 ^ 32) 'a'))) ∧
      workspace.memory.Gives [value] (value.index (.number (0 / 0))) (.text "a") ∧
      ¬ workspace.memory.Indexes value (List.replicate (2 ^ 32) (.text "a")) .undefined := by
  obtain ⟨workspace, value, reached, fits, offers, countable⟩ :=
    exists_offers_text (String.ofList (List.replicate (2 ^ 32) 'a'))
  have sequence : (Tree.text (String.ofList (List.replicate (2 ^ 32) 'a'))).sequence? =
      some (List.replicate (2 ^ 32) (.text "a")) := by
    rw [Tree.sequence?, String.toList_ofList, Grapheme.pieces_replicate, List.map_replicate]
  have none : ∀ position < 2 ^ 32, ¬ Addresses (0 / 0) position := fun _ _ addresses =>
    absurd addresses.finite (by decide +kernel)
  have last : workspace.memory.Gives [value] (value.index (.number (0 / 0))) (.text "a") := by
    have found := reached.gives_elementAt fits offers countable farPosition
    rw [Tree.elementAt_eq sequence, List.getElem?_replicate,
      if_pos (by rw [farPosition_eq]; norm_num)] at found
    rw [Value.index, positionOf_of_not_addresses none]
    exact found
  exact ⟨workspace, value, reached, offers, last, fun indexes =>
    Tree.noConfusion (last.unique (indexes.noPosition _ none))⟩

end SolidScript
