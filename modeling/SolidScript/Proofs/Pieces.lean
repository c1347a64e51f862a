/-
This file proves that all ways to the pieces of a text agree. The count, the piece at a position and
indexing are those of the text cut as a whole. A reader knows only how many bytes it has passed; the
bytes of whole pieces, so that what is left begins at a character and at a cut, and cutting it anew
gives the next piece.
-/

import Mathlib.Data.String.Basic
import SolidScript.Proofs.Number.Counting
import SolidScript.Proofs.Outcome
import SolidScript.Proofs.Segmentation
import SolidScript.Value.Index

namespace SolidScript

open Grapheme (pieces next?)
open String (utf8Len)

/-! ### Pieces by number -/

theorem length_le_utf8Len (text : List Char) : text.length ≤ utf8Len text := by
  induction text with
  | nil => exact Nat.le_refl _
  | cons c rest inductionHypothesis =>
    rw [List.length_cons, String.utf8Len_cons]
    exact Nat.add_le_add inductionHypothesis c.utf8Size_pos

/-- A text has no piece behind its bytes. -/
theorem pieceAt?_eq (text : String) (position : Nat) :
    pieceAt? text position = (pieces text.toList)[position]?.map String.ofList := by
  have bytes := String.utf8Len_toList text
  have shorter := Grapheme.length_pieces_le text.toList
  have encoded := length_le_utf8Len text.toList
  rw [pieceAt?, pieceCount]
  split
  next beyond =>
    rw [Bool.or_eq_true, decide_eq_true_iff, decide_eq_true_iff] at beyond
    rw [List.getElem?_eq_none (by omega)]
    rfl
  next => rfl

/-- The text is cut into the parts: none of them is empty or can be cut, and they make up the
text. -/
structure CutInto (text : String) (parts : List String) : Prop where
  count : pieceCount text = parts.length
  piece : ∀ position, pieceAt? text position = parts[position]?
  joined : String.join parts = text
  nonempty : ∀ part ∈ parts, part ≠ ""
  single : ∀ part ∈ parts, pieceCount part = 1 ∧ pieceAt? part 0 = some part

theorem cutInto_pieces (text : String) :
    CutInto text ((pieces text.toList).map String.ofList) where
  count := (List.length_map _).symm
  piece position := by rw [pieceAt?_eq, List.getElem?_map]
  joined := by
    rw [String.join_eq, List.map_map]
    simp only [Function.comp_def, String.toList_ofList, List.map_id']
    rw [Grapheme.flatten_pieces, String.ofList_toList]
  nonempty part member := by
    obtain ⟨piece, inPieces, rfl⟩ := List.mem_map.mp member
    intro empty
    have := congrArg String.toList empty
    rw [String.toList_ofList] at this
    exact (Grapheme.pieces_of_mem inPieces).1 this
  single part member := by
    obtain ⟨piece, inPieces, rfl⟩ := List.mem_map.mp member
    have whole := (Grapheme.pieces_of_mem inPieces).2
    rw [pieceAt?_eq, pieceCount, String.toList_ofList, whole]
    exact ⟨rfl, rfl⟩

/-! ### Pieces one after another -/

/-- The bytes of the first characters lead to the others. -/
theorem suffix?_utf8Len (passed rest : List Char) :
    suffix? (utf8Len passed) (passed ++ rest) = some rest := by
  induction passed with
  | nil => rw [String.utf8Len_nil, List.nil_append, suffix?]
  | cons c passed inductionHypothesis =>
    have size := c.utf8Size_pos
    obtain ⟨bytes, counted⟩ : ∃ bytes, utf8Len passed + c.utf8Size = bytes + 1 :=
      ⟨utf8Len passed + c.utf8Size - 1, by omega⟩
    rw [String.utf8Len_cons, counted, List.cons_append, suffix?, if_pos (by omega),
      show bytes + 1 - c.utf8Size = utf8Len passed by omega]
    exact inductionHypothesis

/-- The text of the reader goes on with these characters. -/
def PieceReader.Reads (reader : PieceReader) (rest : List Char) : Prop :=
  ∃ passed, reader.text.toList = passed ++ rest ∧ reader.passed = utf8Len passed

namespace PieceReader

variable {reader : PieceReader} {rest : List Char}

theorem reads_ofText (text : String) : (ofText text).Reads text.toList :=
  ⟨[], rfl, rfl⟩

/-- The reader gives the first piece of what is left, and goes on with the others. -/
theorem next_ends (reads : reader.Reads rest) (memory : Memory) :
    reader.next.Ends memory fun result _ =>
      result.1.map Value.text? = (pieces rest).head?.map (some ∘ String.ofList) ∧
        ∃ others, result.2.Reads others ∧ pieces others = (pieces rest).tail := by
  obtain ⟨passed, split, counted⟩ := reads
  have found : (suffix? reader.passed reader.text.toList).bind next? = next? rest := by
    rw [split, counted, suffix?_utf8Len]
    rfl
  rw [next, found, Grapheme.pieces_eq]
  cases cut : next? rest with
  | none => exact .pure ⟨rfl, rest, ⟨passed, split, counted⟩, by rw [Grapheme.pieces_eq, cut]; rfl⟩
  | some pair =>
    obtain ⟨piece, others⟩ := pair
    refine ⟨_, _, rfl, rfl, others, ⟨passed ++ piece, ?_, ?_⟩, rfl⟩
    · rw [List.append_assoc, ← (Grapheme.next?_spec cut).1]
      exact split
    · rw [String.utf8Len_append, ← counted, ← String.utf8ByteSize_ofList piece]

/-- However often the reader is asked, it gives the pieces that are left, and then nothing. -/
theorem ask_ends (reads : reader.Reads rest) (count : Nat) (memory : Memory) :
    (reader.ask count).Ends memory fun result _ =>
      result.1.map (Option.map Value.text?) = (List.range count).map fun position =>
        (pieces rest)[position]?.map (some ∘ String.ofList) := by
  induction count generalizing reader rest memory with
  | zero => exact .pure rfl
  | succ count inductionHypothesis =>
    refine (next_ends reads memory).bind fun first between given => ?_
    obtain ⟨piece, others, reads, left⟩ := given
    refine (inductionHypothesis reads between).bind fun later after answers => .pure ?_
    rw [List.map_cons, piece, answers, left, List.range_succ_eq_map, List.map_cons, List.map_map,
      List.head?_eq_getElem?]
    congr 1
    refine List.map_congr_left fun position _ => ?_
    rw [List.getElem?_tail]
    rfl

end PieceReader

/-! ### Pieces by index -/

/-- A double that denotes a number denotes it as a position. -/
theorem positionOf_of_counts {x : Float} {position : Nat} (counts : Counts x position) :
    positionOf x = min position farPosition := by
  obtain ⟨negative, mantissa, exponent, parts, sign, value⟩ := counts
  rw [positionOf, parts]
  dsimp only
  rw [Binary64.wholePart_eq value, if_neg]
  rw [Bool.and_eq_true, bne_iff_ne]
  exact fun below => below.2 (sign below.1)

/-- The value is the piece as a text, or the undefined value if there is no piece. -/
def Value.IsPiece (value : Value) (piece : Option String) : Prop :=
  value.text? = piece ∧ (piece = none → value = .undefined)

theorem Value.elementAt_text (identity : Nat) (text : String) (position : Nat) (memory : Memory) :
    ((Value.text ⟨identity, text⟩).elementAt position).Ends memory fun value _ =>
      value.IsPiece (pieceAt? text position) := by
  rw [elementAt]
  dsimp only
  cases pieceAt? text position with
  | none => exact .pure ⟨rfl, fun _ => rfl⟩
  | some piece => exact ⟨_, _, rfl, rfl, fun none => absurd none (Option.some_ne_none _)⟩

/-- The position that stands for numbers that are none is behind all pieces. -/
theorem pieceAt?_min {text : String} (small : pieceCount text < 2 ^ 32) (position : Nat) :
    pieceAt? text (min position farPosition) = pieceAt? text position := by
  rcases Nat.le_total position farPosition with inside | beyond
  · rw [Nat.min_eq_left inside]
  · have limit : farPosition = 2 ^ 32 - 1 := rfl
    have count : pieceCount text = (pieces text.toList).length := rfl
    rw [Nat.min_eq_right beyond, pieceAt?_eq, pieceAt?_eq, List.getElem?_eq_none (by omega),
      List.getElem?_eq_none (by omega)]

/-- The ways to the pieces of a text agree: their count, the piece at a position, a reader that is
asked any number of times, and the index of a text that has not too many. -/
theorem text_readsPieces (text : String) :
    ∃ parts, CutInto text parts ∧
      (∀ count memory, ((PieceReader.ofText text).ask count).Ends memory fun result _ =>
        result.1.map (Option.map Value.text?) =
          (List.range count).map fun position => parts[position]?.map some) ∧
      (parts.length < 2 ^ 32 → ∀ identity position memory,
        (∀ x, Counts x position →
          ((Value.text ⟨identity, text⟩).index (.number x)).Ends memory fun value _ =>
            value.IsPiece parts[position]?) ∧
        ((Value.text ⟨identity, text⟩).indexAt position).Ends memory fun value _ =>
          value.IsPiece parts[position]?) := by
  have cut := cutInto_pieces text
  refine ⟨_, cut, fun count memory => ?_, fun small identity position memory => ?_⟩
  · simp only [List.getElem?_map, Option.map_map]
    exact PieceReader.ask_ends (PieceReader.reads_ofText text) count memory
  · have element := Value.elementAt_text identity text (min position farPosition) memory
    rw [pieceAt?_min (cut.count ▸ small), cut.piece] at element
    refine ⟨fun x counts => ?_, element⟩
    rw [Value.index, positionOf_of_counts counts]
    exact element

/-- Of three regional indicators the first two make a flag. The third is a piece of its own, for the
reader that has forgotten them and for the index. -/
theorem text_readsPieces_flag :
    CutInto "🇩🇪🇫" ["🇩🇪", "🇫"] ∧
      ((PieceReader.ofText "🇩🇪🇫").ask 4).Ends Memory.empty (fun result _ =>
        result.1.map (Option.map Value.text?) = [some (some "🇩🇪"), some (some "🇫"), none, none]) ∧
      ((Value.text ⟨0, "🇩🇪🇫"⟩).index (.number 1)).Ends Memory.empty (fun value _ =>
        value.text? = some "🇫") := by
  obtain ⟨parts, cut, reads, indexed⟩ := text_readsPieces "🇩🇪🇫"
  have count : parts.length = 2 := by
    rw [← cut.count]
    decide +kernel
  obtain ⟨first, second, rfl⟩ := List.length_eq_two.mp count
  obtain rfl : first = "🇩🇪" := Option.some.inj ((cut.piece 0).symm.trans (by decide +kernel))
  obtain rfl : second = "🇫" := Option.some.inj ((cut.piece 1).symm.trans (by decide +kernel))
  have one : Counts 1 1 := ⟨false, 2 ^ 52, -52, rfl, fun _ => by contradiction, rfl⟩
  exact ⟨cut, reads 4 .empty,
    ((indexed (Nat.lt_of_le_of_lt (Nat.le_of_eq count) (by decide)) 0 1 .empty).1 1 one).imp
      fun _ _ piece => piece.1⟩

end SolidScript
