/-
This file proves that quoted texts can be read back, whatever follows them. A reader that takes each
backslash together with the letter behind it, and stops at the first quote that is left, finds the
text and leaves exactly what follows. So no two texts have one quoted form, and none has a form that
another one starts with. No quoted form is broken by a tab or by the end of a line.
-/

import SolidScript.Text.Quoted

namespace SolidScript

namespace Quoted

/-! ### Characters -/

/-- The characters that do not stand for themselves between quotes. -/
def marks : List Char := ['"', '\\', '\t', '\n', '\r']

/-- The character that a letter behind a backslash stands for. -/
def meant? : Char → Option Char
  | 't' => some '\t'
  | 'n' => some '\n'
  | 'r' => some '\r'
  | '"' => some '"'
  | '\\' => some '\\'
  | _ => none

/-- A character stands for itself, or is written as a backslash and a letter that stands for it. -/
theorem escape_eq (c : Char) :
    (escape c = [c] ∧ c ∉ marks) ∨
      ∃ letter, escape c = ['\\', letter] ∧ meant? letter = some c := by
  fun_cases escape c with
  | case1 => exact .inr ⟨'t', rfl, rfl⟩
  | case2 => exact .inr ⟨'n', rfl, rfl⟩
  | case3 => exact .inr ⟨'r', rfl, rfl⟩
  | case4 => exact .inr ⟨'"', rfl, rfl⟩
  | case5 => exact .inr ⟨'\\', rfl, rfl⟩
  | case6 c notTab notEnd notReturn notQuote notBackslash =>
    refine .inl ⟨rfl, ?_⟩
    simp only [marks, List.mem_cons, List.not_mem_nil, or_false, not_or]
    exact ⟨notQuote, notBackslash, notTab, notEnd, notReturn⟩

/-- No letter behind a backslash is a tab or ends a line. -/
theorem letter_of_meant? {letter c : Char} (meant : meant? letter = some c) :
    letter ≠ '\t' ∧ letter ≠ '\n' ∧ letter ≠ '\r' := by
  refine ⟨?_, ?_, ?_⟩ <;>
  · rintro rfl
    contradiction

/-! ### Reading -/

/-- Read up to the first quote that is not escaped: the text in front of it, and what is left behind
it. -/
def readOn? : List Char → Option (List Char × List Char)
  | [] => none
  | '"' :: left => some ([], left)
  | '\\' :: letter :: further => do
    let c ← meant? letter
    let (text, left) ← readOn? further
    return (c :: text, left)
  | c :: further => do
    let (text, left) ← readOn? further
    return (c :: text, left)

/-- Read a quoted text that the given one starts with. -/
def read? : List Char → Option (List Char × List Char)
  | '"' :: further => readOn? further
  | _ => none

theorem readOn?_escape {c : Char} {further text left : List Char}
    (read : readOn? further = some (text, left)) :
    readOn? (escape c ++ further) = some (c :: text, left) := by
  rcases escape_eq c with ⟨plain, unmarked⟩ | ⟨letter, escaped, meant⟩
  · simp only [marks, List.mem_cons, List.not_mem_nil, or_false, not_or] at unmarked
    obtain ⟨notQuote, notBackslash, _⟩ := unmarked
    rw [plain, List.singleton_append, readOn?, read]
    · rfl
    · exact notQuote
    · exact fun _ _ same _ => notBackslash same
  · rw [escaped]
    show readOn? ('\\' :: letter :: further) = _
    rw [readOn?, meant, read]
    rfl

theorem readOn?_body (text left : List Char) :
    readOn? (text.flatMap escape ++ '"' :: left) = some (text, left) := by
  induction text with
  | nil => rfl
  | cons c text inductionHypothesis =>
    rw [List.flatMap_cons, List.append_assoc]
    exact readOn?_escape inductionHypothesis

theorem read?_encode (text left : List Char) :
    read? (encode text ++ left) = some (text, left) := by
  show readOn? (text.flatMap escape ++ ['"'] ++ left) = _
  rw [List.append_assoc]
  exact readOn?_body text left

/-! ### Quotes inside -/

/-- The number of backslashes that a text ends in. -/
def backslashes (text : List Char) : Nat := (text.reverse.takeWhile (· == '\\')).length

/-- Whether what follows a text is escaped: the last of its backslashes is not escaped itself. -/
def Escapes (front : List Char) : Prop := backslashes front % 2 = 1

theorem backslashes_append (front back : List Char) :
    backslashes (front ++ back) =
      if backslashes back = back.length then backslashes front + back.length
      else backslashes back := by
  unfold backslashes
  rw [List.reverse_append, List.takeWhile_append, List.length_reverse]
  split
  · rw [List.length_append, List.length_reverse, Nat.add_comm]
  · rfl

/-- Whatever is written for a character, the backslashes at its end are escaped or none. -/
theorem backslashes_escape (c : Char) : backslashes (escape c) % 2 = 0 := by
  fun_cases escape c with
  | case6 c _ _ _ _ notBackslash =>
    rw [backslashes, List.reverse_singleton, List.takeWhile_cons_of_neg (by simpa)]
    rfl
  | _ => rfl

theorem Escapes.append {front : List Char} (even : backslashes front % 2 = 0) {back : List Char}
    (escapes : Escapes back) : Escapes (front ++ back) := by
  unfold Escapes at escapes ⊢
  rw [backslashes_append]
  split <;> omega

/-- A quote that is written for a character is escaped. -/
theorem escapes_of_escape_eq {c : Char} {front back : List Char}
    (same : escape c = front ++ '"' :: back) : Escapes front := by
  rcases escape_eq c with ⟨plain, unmarked⟩ | ⟨letter, escaped, _⟩
  · rw [plain, List.singleton_eq_append_iff] at same
    rcases same with ⟨_, quote⟩ | ⟨_, none⟩
    · exact absurd ((List.cons.inj quote).1 ▸ List.mem_cons_self) unmarked
    · contradiction
  · rw [escaped] at same
    cases front with
    | nil => exact absurd (List.cons.inj same).1 (by decide)
    | cons first front =>
      obtain ⟨rfl, rest⟩ := List.cons.inj same
      cases front with
      | nil => rfl
      | cons second front =>
        have none := (List.cons.inj rest).2
        exact absurd none.symm (by simp)

theorem escapes_of_body_eq {text front back : List Char}
    (same : text.flatMap escape = front ++ '"' :: back) : Escapes front := by
  induction text generalizing front with
  | nil => simp at same
  | cons c text inductionHypothesis =>
    rw [List.flatMap_cons, List.append_eq_append_iff] at same
    rcases same with ⟨middle, rfl, behind⟩ | ⟨middle, within, behind⟩
    · exact (inductionHypothesis behind).append (backslashes_escape c)
    · cases middle with
      | nil =>
        have first : Escapes [] := inductionHypothesis behind.symm
        contradiction
      | cons quote middle =>
        obtain ⟨rfl, _⟩ := List.cons.inj behind
        exact escapes_of_escape_eq within

theorem unbroken_of_mem {text : List Char} {c : Char} (member : c ∈ text.flatMap escape) :
    c ≠ '\t' ∧ c ≠ '\n' ∧ c ≠ '\r' := by
  obtain ⟨source, _, written⟩ := List.mem_flatMap.mp member
  rcases escape_eq source with ⟨plain, unmarked⟩ | ⟨letter, escaped, meant⟩
  · rw [plain, List.mem_singleton] at written
    subst written
    simp only [marks, List.mem_cons, List.not_mem_nil, or_false, not_or] at unmarked
    exact unmarked.2.2
  · rw [escaped, List.mem_cons, List.mem_singleton] at written
    rcases written with rfl | rfl
    · decide
    · exact letter_of_meant? meant

end Quoted

/-! ### Quoted texts -/

open Quoted

theorem toList_quotedText (text : String) : (quotedText text).toList = encode text.toList :=
  String.toList_ofList

theorem read?_quotedText (text : String) (left : List Char) :
    read? ((quotedText text).toList ++ left) = some (text.toList, left) := by
  rw [toList_quotedText, read?_encode]

/-- A text that starts with quoted texts starts with one quoted text. -/
theorem quotedText_unique {text other : String} {left behind : List Char}
    (same : (quotedText text).toList ++ left = (quotedText other).toList ++ behind) :
    text = other ∧ left = behind := by
  have read := read?_quotedText text left
  rw [same, read?_quotedText, Option.some.injEq, Prod.mk.injEq] at read
  exact ⟨String.toList_inj.mp read.1.symm, read.2.symm⟩

/-- The quoted form of a text, between whose quotes no tab and no end of a line stands, and no quote
that is not escaped. It is read back whatever follows it, so that no other quoted form is equal to
it or starts with it. -/
structure FaithfullyQuoted (text : String) : Prop where
  enclosed : ∃ body, (quotedText text).toList = '"' :: (body ++ ['"']) ∧
    (∀ c ∈ body, c ≠ '\t' ∧ c ≠ '\n' ∧ c ≠ '\r') ∧
    ∀ front back, body = front ++ '"' :: back → Escapes front
  read : ∀ left, read? ((quotedText text).toList ++ left) = some (text.toList, left)
  injective : ∀ other, quotedText text = quotedText other ↔ text = other
  prefixFree : ∀ other, (quotedText text).toList <+: (quotedText other).toList ↔ text = other

theorem quotedText_faithful (text : String) : FaithfullyQuoted text where
  enclosed := ⟨_, toList_quotedText text, fun _ => unbroken_of_mem, fun _ _ => escapes_of_body_eq⟩
  read := read?_quotedText text
  injective other := by
    refine ⟨fun same => ?_, congrArg quotedText⟩
    exact (quotedText_unique (congrArg (·.toList ++ []) same)).1
  prefixFree other := by
    constructor
    · rintro ⟨left, same⟩
      rw [← List.append_nil (quotedText other).toList] at same
      exact (quotedText_unique same).1
    · rintro rfl
      exact List.prefix_rfl

/-- A backslash in front of a letter and one in front of a quote, with a further text behind. -/
example : read? ((quotedText "\\t\t\\\"").toList ++ ['"', '"']) =
    some ("\\t\t\\\"".toList, ['"', '"']) := by
  decide +kernel

end SolidScript
