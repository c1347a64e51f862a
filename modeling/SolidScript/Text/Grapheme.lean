/-
Cutting a text into the pieces that a reader takes for single characters. `attaches` holds the
rules: it looks at one character and at all that stands before it, and says whether a cut between
the two is forbidden. A text can be cut in two ways: as a whole, where each decision sees all of the
text before it, and piece by piece, where each piece is cut off the front of what is left and the
text before it is forgotten.
-/

import SolidScript.Text.BreakClass

namespace SolidScript.Grapheme

/-! ### The rules

Texts before a cut are given backwards, the nearest character first. -/

/-- Whether the text ends in a pictograph and characters that extend it. -/
def endsInPictograph (before : List Char) : Bool :=
  match before.dropWhile (breakClass · = .extend) with
  | [] => false
  | c :: _ => isPictograph c

/-- Whether the text ends in a consonant and signs that keep its shape open, a linker among them. -/
def endsInLinkedConsonant (linked : Bool) : List Char → Bool
  | [] => false
  | c :: before =>
    if isLinker c then endsInLinkedConsonant true before
    else if keepsConjunct c then endsInLinkedConsonant linked before
    else linked && isConsonant c

/-- Whether the text ends in an odd number of regional indicators, so that the last one has no
partner yet. -/
def endsInOddRegional (before : List Char) : Bool :=
  (before.takeWhile (breakClass · = .regional)).length % 2 = 1

/-- Whether `next` belongs to the same piece as the character before it. At the start of a text it
belongs to none. -/
def attaches (before : List Char) (next : Char) : Bool :=
  match before with
  | [] => false
  | last :: earlier =>
    match breakClass last, breakClass next with
    -- A line end of two characters stays whole; controls stand alone.
    | .carriageReturn, .lineFeed => true
    | .carriageReturn, _ | .lineFeed, _ | .control, _ => false
    | _, .carriageReturn | _, .lineFeed | _, .control => false
    -- Syllables grow from leading consonants over vowels to trailing consonants.
    | .leading, .leading | .leading, .vowel => true
    | .leading, .openSyllable | .leading, .closedSyllable => true
    | .openSyllable, .vowel | .openSyllable, .trailing => true
    | .vowel, .vowel | .vowel, .trailing => true
    | .closedSyllable, .trailing | .trailing, .trailing => true
    -- Marks attach to what they follow, prepended signs to what follows them.
    | _, .extend | _, .joiner | _, .spacingMark => true
    | .prepend, _ => true
    -- Flags are pairs of regional indicators.
    | .regional, .regional => endsInOddRegional before
    -- Joined pictures and consonant clusters stay whole.
    | .joiner, _ =>
      isPictograph next && endsInPictograph earlier
        || isConsonant next && endsInLinkedConsonant false before
    | _, _ => isConsonant next && endsInLinkedConsonant false before

/-! ### The whole text at once -/

/-- Cut `rest`, given the text before it and the open piece, both backwards. -/
def piecesFrom (before piece : List Char) : List Char → List (List Char)
  | [] => [piece.reverse]
  | c :: rest =>
    if attaches before c then piecesFrom (c :: before) (c :: piece) rest
    else piece.reverse :: piecesFrom (c :: before) [c] rest

/-- The pieces of a text, cut with all of the text in view. -/
def pieces : List Char → List (List Char)
  | [] => []
  | c :: rest => piecesFrom [c] [c] rest

/-! ### One piece at a time -/

/-- Split off the characters that still belong to the piece read so far, given backwards. -/
def continuation (piece : List Char) : List Char → List Char × List Char
  | [] => ([], [])
  | c :: rest =>
    if attaches piece c then
      let (more, remaining) := continuation (c :: piece) rest
      (c :: more, remaining)
    else ([], c :: rest)

/-- The first piece of a text and what is left; `none` at the end. -/
def next? : List Char → Option (List Char × List Char)
  | [] => none
  | c :: rest =>
    let (more, remaining) := continuation [c] rest
    some (c :: more, remaining)

end SolidScript.Grapheme
