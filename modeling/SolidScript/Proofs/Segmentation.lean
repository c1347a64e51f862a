/-
This file proves that a text is cut into the same pieces as a whole and piece by piece. The rules
look back without limit: over pairs of regional indicators, over what extends a pictograph, over
what keeps a consonant open. But no look goes beyond a cut. Where a rule would look past the
character behind a cut, that character extends or joins what stands before it, and so is cut off
only from a control or from nothing; and regional indicators are cut only where their number is
even.
-/

import SolidScript.Text.Grapheme

namespace SolidScript.Grapheme

/-! ### Classes of characters -/

/-- Whether no other character attaches to one of the class, but a line feed to a carriage
return. -/
def isClosed : BreakClass → Bool
  | .carriageReturn | .lineFeed | .control => true
  | _ => false

/-- The ranges of the code points of closed classes. -/
def closedRanges : List (Nat × Nat) := (0xA, 0xA) :: (0xD, 0xD) :: controlRanges

theorem inRanges_of_isClosed {code : Nat} (closed : isClosed (.ofCode code) = true) :
    inRanges closedRanges code = true := by
  have listed : code = 0xA ∨ code = 0xD ∨ inRanges controlRanges code = true := by
    refine Decidable.by_contra fun others => ?_
    obtain ⟨lineFeed, carriageReturn, control⟩ :
        code ≠ 0xA ∧ code ≠ 0xD ∧ ¬ inRanges controlRanges code = true := by
      simpa only [not_or] using others
    rw [BreakClass.ofCode, if_neg carriageReturn, if_neg lineFeed, if_neg control] at closed
    simp only [apply_ite isClosed] at closed
    simp only [isClosed, ite_self] at closed
    contradiction
  rcases listed with rfl | rfl | control
  · rfl
  · rfl
  · rw [closedRanges, inRanges, List.any_cons, List.any_cons]
    exact (Bool.or_eq_true ..).mpr (.inr ((Bool.or_eq_true ..).mpr (.inr control)))

/-- No code point lies both in one of the ranges and in one of the others. -/
def disjoint (ranges others : List (Nat × Nat)) : Bool :=
  ranges.all fun range => others.all fun other => range.2 < other.1 || other.2 < range.1

theorem inRanges_of_disjoint {ranges others : List (Nat × Nat)}
    (apart : disjoint ranges others = true) {code : Nat} (inside : inRanges ranges code = true) :
    inRanges others code = false := by
  rw [Bool.eq_false_iff]
  intro within
  obtain ⟨range, member, bounds⟩ := List.any_eq_true.mp inside
  obtain ⟨other, memberOther, boundsOther⟩ := List.any_eq_true.mp within
  have away := List.all_eq_true.mp (List.all_eq_true.mp apart range member) other memberOther
  simp only [Bool.and_eq_true, Bool.or_eq_true, decide_eq_true_iff] at bounds boundsOther away
  omega

/-- A control is no pictograph. -/
theorem isPictograph_of_isClosed {c : Char} (closed : isClosed (breakClass c) = true) :
    isPictograph c = false :=
  inRanges_of_disjoint (by decide +kernel) (inRanges_of_isClosed closed)

/-- A control is no consonant. -/
theorem isConsonant_of_isClosed {c : Char} (closed : isClosed (breakClass c) = true) :
    isConsonant c = false :=
  inRanges_of_disjoint (by decide +kernel) (inRanges_of_isClosed closed)

/-- What links consonants extends the character before it. -/
theorem extend_of_isLinker {c : Char} (linker : isLinker c = true) : breakClass c = .extend := by
  have extends' : (linkerRanges.all fun range =>
      range.1 = range.2 && BreakClass.ofCode range.1 = .extend) = true := by decide +kernel
  obtain ⟨range, member, bounds⟩ := List.any_eq_true.mp linker
  have extend := List.all_eq_true.mp extends' range member
  simp only [Bool.and_eq_true, decide_eq_true_iff] at bounds extend
  rw [breakClass, show c.toNat = range.1 by omega]
  exact extend.2

/-! ### What a rule looks back at -/

theorem endsInOddRegional_cons (last : Char) (earlier : List Char) :
    endsInOddRegional (last :: earlier) =
      (decide (breakClass last = .regional) && !endsInOddRegional earlier) := by
  rw [endsInOddRegional, endsInOddRegional, List.takeWhile_cons]
  by_cases regional : breakClass last = .regional
  · rw [decide_eq_true regional, if_pos rfl, List.length_cons, Bool.true_and, ← decide_not,
      decide_eq_decide]
    omega
  · rw [decide_eq_false regional, if_neg Bool.false_ne_true]
    rfl

theorem endsInPictograph_cons (last : Char) (earlier : List Char) :
    endsInPictograph (last :: earlier) =
      if breakClass last = .extend then endsInPictograph earlier else isPictograph last := by
  rw [endsInPictograph, List.dropWhile_cons]
  by_cases extend : breakClass last = .extend
  · rw [if_pos extend, if_pos (decide_eq_true extend)]
    rfl
  · rw [if_neg extend, if_neg (by simpa using extend)]

/-- The three looks back decide, together with the character before the cut. -/
theorem attaches_congr {last next : Char} {earlier others : List Char}
    (regional : endsInOddRegional (last :: earlier) = endsInOddRegional (last :: others))
    (pictograph : breakClass last = .joiner → endsInPictograph earlier = endsInPictograph others)
    (conjunct : endsInLinkedConsonant false (last :: earlier) =
      endsInLinkedConsonant false (last :: others)) :
    attaches (last :: earlier) next = attaches (last :: others) next := by
  simp only [attaches, regional, conjunct]
  by_cases joined : breakClass last = .joiner
  · rw [pictograph joined]
  · generalize breakClass last = lastClass at joined
    generalize breakClass next = nextClass
    cases lastClass with
    | joiner => contradiction
    | _ => cases nextClass <;> rfl

/-- Behind nothing, or behind a control. -/
def StartsClosed (before : List Char) : Prop :=
  ∀ last ∈ before.head?, isClosed (breakClass last) = true

namespace StartsClosed

variable {before : List Char}

theorem endsInPictograph_eq (closed : StartsClosed before) : endsInPictograph before = false := by
  cases before with
  | nil => rfl
  | cons last earlier =>
    have control := closed last rfl
    have other : breakClass last ≠ .extend := by
      intro extend
      rw [extend] at control
      contradiction
    rw [endsInPictograph_cons, if_neg other]
    exact isPictograph_of_isClosed control

theorem endsInLinkedConsonant_eq (closed : StartsClosed before) (linked : Bool) :
    endsInLinkedConsonant linked before = false := by
  cases before with
  | nil => rfl
  | cons last earlier =>
    have control := closed last rfl
    have notLinker : ¬ isLinker last = true := by
      intro linker
      rw [extend_of_isLinker linker] at control
      contradiction
    have notKept : ¬ keepsConjunct last = true := by
      rw [keepsConjunct]
      generalize breakClass last = lastClass at control
      cases lastClass <;> first | exact Bool.false_ne_true | contradiction
    rw [endsInLinkedConsonant, if_neg notLinker, if_neg notKept, isConsonant_of_isClosed control,
      Bool.and_false]

/-- What extends or joins is cut off from a control only. -/
theorem of_cut {first : Char} (cut : attaches before first = false)
    (attached : breakClass first = .extend ∨ breakClass first = .joiner) :
    StartsClosed before := by
  intro last isHead
  cases before with
  | nil => cases isHead
  | cons _ earlier =>
    cases isHead
    rw [attaches] at cut
    generalize breakClass last = lastClass at cut
    rcases attached with extend | joiner
    · rw [extend] at cut
      cases lastClass <;> first | rfl | contradiction
    · rw [joiner] at cut
      cases lastClass <;> first | rfl | contradiction

end StartsClosed

/-- Regional indicators are cut after an even number. -/
theorem even_of_cut {before : List Char} {first : Char} (cut : attaches before first = false)
    (regional : breakClass first = .regional) : endsInOddRegional before = false := by
  cases before with
  | nil => rfl
  | cons last earlier =>
    by_cases same : breakClass last = .regional
    · rw [attaches, same, regional] at cut
      exact cut
    · rw [endsInOddRegional_cons, decide_eq_false same, Bool.false_and]

/-! ### No look beyond a cut -/

section Cut

variable {before : List Char} {first : Char}

theorem endsInOddRegional_append (cut : attaches before first = false) (piece : List Char) :
    endsInOddRegional (piece ++ first :: before) = endsInOddRegional (piece ++ [first]) := by
  induction piece with
  | nil =>
    rw [List.nil_append, List.nil_append, endsInOddRegional_cons, endsInOddRegional_cons]
    by_cases regional : breakClass first = .regional
    · rw [even_of_cut cut regional]
      rfl
    · rw [decide_eq_false regional, Bool.false_and, Bool.false_and]
  | cons last piece inductionHypothesis =>
    rw [List.cons_append, List.cons_append, endsInOddRegional_cons, endsInOddRegional_cons,
      inductionHypothesis]

theorem endsInPictograph_append (cut : attaches before first = false) (piece : List Char) :
    endsInPictograph (piece ++ first :: before) = endsInPictograph (piece ++ [first]) := by
  induction piece with
  | nil =>
    rw [List.nil_append, List.nil_append, endsInPictograph_cons, endsInPictograph_cons]
    by_cases extend : breakClass first = .extend
    · rw [if_pos extend, if_pos extend, (StartsClosed.of_cut cut (.inl extend)).endsInPictograph_eq]
      rfl
    · rw [if_neg extend, if_neg extend]
  | cons last piece inductionHypothesis =>
    rw [List.cons_append, List.cons_append, endsInPictograph_cons, endsInPictograph_cons,
      inductionHypothesis]

theorem endsInLinkedConsonant_append (cut : attaches before first = false) (linked : Bool)
    (piece : List Char) :
    endsInLinkedConsonant linked (piece ++ first :: before) =
      endsInLinkedConsonant linked (piece ++ [first]) := by
  induction piece generalizing linked with
  | nil =>
    have beyond : (isLinker first = true ∨ keepsConjunct first = true) → ∀ linked,
        endsInLinkedConsonant linked before = endsInLinkedConsonant linked [] := by
      intro attached linked
      refine (StartsClosed.of_cut cut ?_).endsInLinkedConsonant_eq linked
      rcases attached with linker | kept
      · exact .inl (extend_of_isLinker linker)
      · rw [keepsConjunct, Bool.and_eq_true, Bool.or_eq_true, decide_eq_true_iff,
          decide_eq_true_iff] at kept
        exact kept.1
    rw [List.nil_append, List.nil_append, endsInLinkedConsonant, endsInLinkedConsonant]
    by_cases linker : isLinker first = true
    · rw [if_pos linker, if_pos linker, beyond (.inl linker)]
    · rw [if_neg linker, if_neg linker]
      by_cases kept : keepsConjunct first = true
      · rw [if_pos kept, if_pos kept, beyond (.inr kept)]
      · rw [if_neg kept, if_neg kept]
  | cons last piece inductionHypothesis =>
    rw [List.cons_append, List.cons_append, endsInLinkedConsonant, endsInLinkedConsonant,
      inductionHypothesis, inductionHypothesis]

/-- Behind a cut it does not matter what stands before it. -/
theorem attaches_append (cut : attaches before first = false) (piece : List Char) (next : Char) :
    attaches (piece ++ first :: before) next = attaches (piece ++ [first]) next := by
  cases piece with
  | nil =>
    refine attaches_congr (endsInOddRegional_append cut []) (fun joined => ?_)
      (endsInLinkedConsonant_append cut false [])
    exact (StartsClosed.of_cut cut (.inr joined)).endsInPictograph_eq
  | cons last piece =>
    exact attaches_congr (endsInOddRegional_append cut (last :: piece))
      (fun _ => endsInPictograph_append cut piece)
      (endsInLinkedConsonant_append cut false (last :: piece))

end Cut

/-! ### One piece after another -/

/-- What stands before the open piece may be forgotten if the rules do not see it. -/
theorem piecesFrom_forget {before piece : List Char}
    (same : ∀ more next, attaches (more ++ before) next = attaches (more ++ piece) next)
    (rest : List Char) : piecesFrom before piece rest = piecesFrom piece piece rest := by
  induction rest generalizing before piece with
  | nil => rfl
  | cons c rest inductionHypothesis =>
    rw [piecesFrom, piecesFrom, show attaches before c = attaches piece c from same [] c]
    by_cases attached : attaches piece c = true
    · rw [if_pos attached, if_pos attached]
      refine inductionHypothesis fun more next => ?_
      simpa using same (more ++ [c]) next
    · have cut : attaches piece c = false := Bool.eq_false_iff.mpr attached
      have cutBefore : attaches before c = false := (same [] c).trans cut
      rw [if_neg attached, if_neg attached, inductionHypothesis (attaches_append cutBefore),
        inductionHypothesis (attaches_append cut)]

/-- The text is cut as its first piece is and what is left then. -/
theorem piecesFrom_eq (piece rest : List Char) :
    piecesFrom piece piece rest =
      (piece.reverse ++ (continuation piece rest).1) :: pieces (continuation piece rest).2 := by
  fun_induction continuation piece rest with
  | case1 piece => rw [List.append_nil]; rfl
  | case2 piece c rest attached more remaining split inductionHypothesis =>
    rw [piecesFrom, if_pos attached, inductionHypothesis, split]
    simp
  | case3 piece c rest cut =>
    rw [piecesFrom, if_neg cut, List.append_nil,
      piecesFrom_forget (attaches_append (Bool.eq_false_iff.mpr cut))]
    rfl

/-- The text cut as a whole begins with the piece that is cut off its front. -/
theorem pieces_eq (text : List Char) :
    pieces text =
      match next? text with
      | none => []
      | some (piece, remaining) => piece :: pieces remaining := by
  cases text with
  | nil => rfl
  | cons c rest => exact piecesFrom_eq [c] rest

theorem append_continuation (piece rest : List Char) :
    (continuation piece rest).1 ++ (continuation piece rest).2 = rest := by
  fun_induction continuation piece rest with
  | case1 => rfl
  | case2 piece c rest attached more remaining split inductionHypothesis =>
    rw [split] at inductionHypothesis
    exact congrArg (c :: ·) inductionHypothesis
  | case3 => rfl

/-- A piece by itself is not cut. -/
theorem continuation_continuation (piece rest : List Char) :
    continuation piece (continuation piece rest).1 = ((continuation piece rest).1, []) := by
  fun_induction continuation piece rest with
  | case1 => rfl
  | case2 piece c rest attached more remaining split inductionHypothesis =>
    rw [split] at inductionHypothesis
    rw [continuation, if_pos attached, inductionHypothesis]
  | case3 => rfl

/-- What cutting a piece off the front of a text gives. -/
theorem next?_spec {text piece remaining : List Char}
    (found : next? text = some (piece, remaining)) :
    text = piece ++ remaining ∧ piece ≠ [] ∧ pieces piece = [piece] := by
  cases text with
  | nil => contradiction
  | cons c rest =>
    simp only [next?, Option.some.injEq, Prod.mk.injEq] at found
    obtain ⟨rfl, rfl⟩ := found
    refine ⟨congrArg (c :: ·) (append_continuation [c] rest).symm, List.cons_ne_nil _ _, ?_⟩
    rw [pieces_eq, next?, continuation_continuation]
    rfl

theorem next?_eq_none {text : List Char} : next? text = none ↔ text = [] := by
  cases text with
  | nil => exact iff_of_true rfl rfl
  | cons c rest => exact iff_of_false (Option.some_ne_none _) (List.cons_ne_nil _ _)

/-- Induction along the pieces of a text. -/
theorem induct {motive : List Char → Prop} (nil : motive [])
    (cut : ∀ {text piece remaining}, next? text = some (piece, remaining) → motive remaining →
      motive text) (text : List Char) : motive text :=
  match found : next? text with
  | none => by
    rw [next?_eq_none.mp found]
    exact nil
  | some (piece, remaining) => cut found (induct nil cut remaining)
termination_by text.length
decreasing_by
  obtain ⟨rfl, nonempty, -⟩ := next?_spec found
  rw [List.length_append]
  exact Nat.lt_add_of_pos_left (List.length_pos_iff.mpr nonempty)

/-- The pieces make up the text. -/
theorem flatten_pieces (text : List Char) : (pieces text).flatten = text := by
  induction text using induct with
  | nil => rfl
  | cut found inductionHypothesis =>
    rw [pieces_eq, found]
    exact (congrArg _ inductionHypothesis).trans (next?_spec found).1.symm

/-- A piece is not empty, and is not cut any further. -/
theorem pieces_of_mem {text piece : List Char} (member : piece ∈ pieces text) :
    piece ≠ [] ∧ pieces piece = [piece] := by
  induction text using induct with
  | nil => exact absurd member List.not_mem_nil
  | cut found inductionHypothesis =>
    rw [pieces_eq, found] at member
    rcases List.mem_cons.mp member with rfl | later
    · exact (next?_spec found).2
    · exact inductionHypothesis later

theorem length_pieces_le (text : List Char) : (pieces text).length ≤ text.length := by
  induction text using induct with
  | nil => exact Nat.le_refl _
  | cut found inductionHypothesis =>
    obtain ⟨split, nonempty, -⟩ := next?_spec found
    have shorter := List.length_pos_iff.mpr nonempty
    rw [pieces_eq, found, split, List.length_append, List.length_cons]
    omega

end SolidScript.Grapheme
