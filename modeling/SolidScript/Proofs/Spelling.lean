/-
This file proves which text the code points of a value make up. The leaves of its tree are read from
left to right: a number stands for one character at most, a range for the numbers that a cursor
gives unless it is refused with a warning, and everything else for nothing. Which character that is
depends on the exact value of a double, so that no code point wraps. Nothing in memory is changed
but the report.
-/

import SolidScript.Proofs.Access

namespace SolidScript

/-! ### Characters of numbers -/

/-- The number stands for the character: it is positive, and its whole part is the code point. -/
structure CodesFor (x : Float) (c : Char) : Prop where
  finite : x.isFinite = true
  positive : 0 < amount x
  whole : ⌊amount x⌋₊ = c.toNat
  nonzero : c.toNat ≠ 0

theorem CodesFor.unique {x : Float} {c d : Char} (first : CodesFor x c) (second : CodesFor x d) :
    c = d := Char.toNat_inj.mp (first.whole.symm.trans second.whole)

theorem characterOf?_eq_some_iff {x : Float} {c : Char} :
    characterOf? x = some c ↔ CodesFor x c := by
  constructor
  · intro found
    cases parts : Binary64.ofFloat x with
    | finite negative mantissa exponent =>
      rw [characterOf?, parts] at found
      cases negative with
      | true => contradiction
      | false =>
        obtain ⟨⟨nonzero, valid⟩, rfl⟩ := Option.ite_some_none_eq_some.mp found
        have number : amount x = mantissa * 2 ^ exponent := by
          rw [amount, parts, Binary64.value, if_neg Bool.false_ne_true, one_mul]
        rw [wholePart_eq_floor, ← number] at nonzero valid ⊢
        have code : (Char.ofNat ⌊amount x⌋₊).toNat = ⌊amount x⌋₊ := by
          rw [Char.toNat_ofNat, if_pos valid]
        exact ⟨isFinite_of_ofFloat parts, Nat.pos_of_floor_pos (Nat.pos_of_ne_zero nonzero),
          code.symm, code.trans_ne nonzero⟩
    | nan | infinite =>
      rw [characterOf?, parts] at found
      contradiction
  · rintro ⟨finite, positive, whole, nonzero⟩
    obtain ⟨negative, mantissa, exponent, parts⟩ := exists_parts finite
    have nonneg : (0 : ℚ) ≤ mantissa * 2 ^ exponent := by positivity
    rw [amount, parts, Binary64.value] at positive whole
    cases negative with
    | true =>
      rw [if_pos rfl] at positive
      linarith
    | false =>
      rw [if_neg Bool.false_ne_true, one_mul] at whole
      rw [characterOf?, parts]
      dsimp only
      rw [wholePart_eq_floor, whole, if_pos ⟨nonzero, c.valid⟩, Char.ofNat_toNat]

/-! ### Values that a cursor gives -/

/-- A cursor that is asked until it gives nothing gives these values. -/
inductive Cursor.Produces : Cursor → List Float → Prop
  | exhausted {cursor : Cursor} (ended : cursor.next.1 = none) : Produces cursor []
  | value {cursor : Cursor} {x : Float} {values : List Float} (given : cursor.next.1 = some x)
      (rest : Produces cursor.next.2 values) : Produces cursor (x :: values)

theorem Cursor.Produces.unique {cursor : Cursor} {values others : List Float}
    (first : cursor.Produces values) (second : cursor.Produces others) : values = others := by
  induction first generalizing others with
  | exhausted ended =>
    cases second with
    | exhausted => rfl
    | value given _ =>
      rw [ended] at given
      contradiction
  | value given _ inductionHypothesis =>
    cases second with
    | exhausted ended =>
      rw [ended] at given
      contradiction
    | value otherGiven rest =>
      rw [given] at otherGiven
      cases otherGiven
      rw [inductionHypothesis rest]

theorem Stands.produces {cursor : Cursor} {passage : Passage} (stands : Stands cursor passage) :
    cursor.Produces
      ((List.range' passage.passed passage.left).map passage.range.valueOf) := by
  generalize same : passage.left = left
  induction left generalizing cursor passage with
  | zero =>
    have ended : passage.passed = passage.range.yield :=
      Nat.le_antisymm stands.within (Nat.le_of_sub_eq_zero same)
    exact .exhausted (congrArg Prod.fst (stands.skip_ended ended 0))
  | succ left inductionHypothesis =>
    have going : passage.passed < passage.range.yield := Nat.lt_of_sub_eq_succ same
    obtain ⟨given, moved⟩ := stands.next
    rw [Passage.next_going going] at given moved
    exact .value given (inductionHypothesis moved (by
      rw [Passage.left] at same ⊢
      dsimp only
      omega))

theorem Range.produces_values (range : Range) : (Cursor.ofRange range).Produces range.values := by
  rw [values_eq, List.range_eq_range']
  exact (Stands.ofRange range).produces

/-! ### Characters of leaves -/

namespace Tree

mutual

/-- The leaves of a tree from left to right. An embedded vector that is not stored is a leaf. -/
def leaves : Tree → List Tree
  | vector items => leavesOfAll items
  | leaf => [leaf]

def leavesOfAll : List Tree → List Tree
  | [] => []
  | item :: items => leaves item ++ leavesOfAll items

end

/-- The characters of leaves from left to right, with the warnings that come with them. -/
inductive Spelled : List Tree → List Char → List Warning → Prop
  | nil : Spelled [] [] []
  | character {x : Float} {c : Char} {leaves : List Tree} {text : List Char}
      {warned : List Warning} (codes : CodesFor x c) (rest : Spelled leaves text warned) :
      Spelled (number x :: leaves) (c :: text) warned
  | noCharacter {x : Float} {leaves : List Tree} {text : List Char} {warned : List Warning}
      (none : ∀ c, ¬ CodesFor x c) (rest : Spelled leaves text warned) :
      Spelled (number x :: leaves) text warned
  /-- A range stands for the numbers that a cursor gives. -/
  | range {content : Range} {values : List Float} {found : List Char} {leaves : List Tree}
      {text : List Char} {warned : List Warning} (short : content.count < Range.expansionLimit)
      (produces : (Cursor.ofRange content).Produces values)
      (numbers : Spelled (values.map number) found []) (rest : Spelled leaves text warned) :
      Spelled (range content :: leaves) (found ++ text) warned
  | refused {content : Range} {leaves : List Tree} {text : List Char} {warned : List Warning}
      (long : Range.expansionLimit ≤ content.count) (rest : Spelled leaves text warned) :
      Spelled (range content :: leaves) text (.tooManyValues content.count :: warned)
  | other {leaf : Tree} {leaves : List Tree} {text : List Char} {warned : List Warning}
      (notNumber : leaf.kind ≠ .number) (notRange : leaf.kind ≠ .range)
      (rest : Spelled leaves text warned) : Spelled (leaf :: leaves) text warned

namespace Spelled

variable {leaves others : List Tree} {text further : List Char} {warned later : List Warning}

theorem append (first : Spelled leaves text warned) (second : Spelled others further later) :
    Spelled (leaves ++ others) (text ++ further) (warned ++ later) := by
  induction first with
  | nil => exact second
  | character codes _ inductionHypothesis => exact .character codes inductionHypothesis
  | noCharacter none _ inductionHypothesis => exact .noCharacter none inductionHypothesis
  | range short produces numbers _ _ inductionHypothesis =>
    rw [List.append_assoc]
    exact .range short produces numbers inductionHypothesis
  | refused long _ inductionHypothesis => exact .refused long inductionHypothesis
  | other notNumber notRange _ inductionHypothesis =>
    exact .other notNumber notRange inductionHypothesis

theorem number_cons (x : Float) (rest : Spelled leaves text warned) :
    Spelled (number x :: leaves) ((characterOf? x).toList ++ text) warned := by
  cases found : characterOf? x with
  | none =>
    refine .noCharacter (fun c codes => ?_) rest
    rw [characterOf?_eq_some_iff.mpr codes] at found
    contradiction
  | some c => exact .character (characterOf?_eq_some_iff.mp found) rest

theorem numbers (values : List Float) :
    Spelled (values.map number) (values.filterMap characterOf?) [] := by
  induction values with
  | nil => exact .nil
  | cons x values inductionHypothesis =>
    have spelled := number_cons x inductionHypothesis
    rw [List.map_cons, List.filterMap_cons]
    cases found : characterOf? x with
    | none | some =>
      rw [found] at spelled
      exact spelled

/-- Leaves are spelled in one way. -/
theorem unique (first : Spelled leaves text warned) (second : Spelled leaves further later) :
    text = further ∧ warned = later := by
  induction first generalizing further later with
  | nil =>
    cases second
    exact ⟨rfl, rfl⟩
  | character codes _ inductionHypothesis =>
    cases second with
    | character other rest =>
      obtain rfl := codes.unique other
      obtain ⟨rfl, rfl⟩ := inductionHypothesis rest
      exact ⟨rfl, rfl⟩
    | noCharacter none _ => exact absurd codes (none _)
    | other notNumber _ _ => contradiction
  | noCharacter none _ inductionHypothesis =>
    cases second with
    | character codes _ => exact absurd codes (none _)
    | noCharacter _ rest => exact inductionHypothesis rest
    | other notNumber _ _ => contradiction
  | range short produces _ _ numbersHypothesis inductionHypothesis =>
    cases second with
    | range _ otherProduces numbers rest =>
      obtain rfl := produces.unique otherProduces
      obtain ⟨rfl, _⟩ := numbersHypothesis numbers
      obtain ⟨rfl, rfl⟩ := inductionHypothesis rest
      exact ⟨rfl, rfl⟩
    | refused long _ => exact absurd long (Nat.not_le.mpr short)
    | other _ notRange _ => contradiction
  | refused long _ inductionHypothesis =>
    cases second with
    | range short => exact absurd long (Nat.not_le.mpr short)
    | refused _ rest =>
      obtain ⟨rfl, rfl⟩ := inductionHypothesis rest
      exact ⟨rfl, rfl⟩
    | other _ notRange _ => contradiction
  | other notNumber notRange _ inductionHypothesis =>
    cases second with
    | other _ _ rest => exact inductionHypothesis rest
    | character | noCharacter | range | refused => contradiction

theorem nonzero (spelled : Spelled leaves text warned) : ∀ c ∈ text, c.toNat ≠ 0 := by
  induction spelled with
  | nil => exact fun _ member => absurd member List.not_mem_nil
  | character codes _ inductionHypothesis =>
    exact List.forall_mem_cons.mpr ⟨codes.nonzero, inductionHypothesis⟩
  | range _ _ _ _ numbersHypothesis inductionHypothesis =>
    exact List.forall_mem_append.mpr ⟨numbersHypothesis, inductionHypothesis⟩
  | noCharacter _ _ inductionHypothesis | refused _ _ inductionHypothesis
  | other _ _ _ inductionHypothesis => exact inductionHypothesis

end Spelled

theorem spelled_codesOfAll {items : List Tree}
    (each : ∀ item ∈ items, Spelled item.leaves item.codes.1 item.codes.2) :
    Spelled (leavesOfAll items) (codesOfAll items).1 (codesOfAll items).2 := by
  induction items with
  | nil => exact .nil
  | cons item items inductionHypothesis =>
    exact (each item List.mem_cons_self).append
      (inductionHypothesis fun item member => each item (List.mem_cons_of_mem _ member))

theorem spelled_codes (tree : Tree) : Spelled tree.leaves tree.codes.1 tree.codes.2 := by
  induction tree using induct with
  | number x =>
    have spelled := Spelled.number_cons x .nil
    rw [List.append_nil] at spelled
    exact spelled
  | range content =>
    rw [codes]
    split
    next long => exact .refused long .nil
    next short =>
      have spelled := Spelled.range (not_le.mp short) content.produces_values
        (Spelled.numbers content.values) .nil
      rw [List.append_nil] at spelled
      exact spelled
  | vector items inductionHypothesis => exact spelled_codesOfAll inductionHypothesis
  | _ => exact .other Kind.noConfusion Kind.noConfusion .nil

end Tree

/-! ### Characters of values -/

namespace Workspace

/-- In every workspace that is reached, the leaves of the tree of a supported value spell the text
of its code points. The warnings are reported in their order, and nothing else in memory is changed.
No character is the null character or a surrogate. -/
theorem characters_spelled {workspace : Workspace} (reached : workspace.Reached) {value : Value}
    {tree : Tree} (offers : workspace.memory.Offers value tree) :
    (∃ text warned, Tree.Spelled tree.leaves text warned) ∧
      ∀ text warned, Tree.Spelled tree.leaves text warned →
        value.characters workspace.memory =
            some (String.ofList text, workspace.memory.warned warned) ∧
          ∀ c ∈ text, c.toNat ≠ 0 ∧ ¬ (0xD800 ≤ c.toNat ∧ c.toNat ≤ 0xDFFF) := by
  obtain ⟨followed, plain, represents⟩ := reached.represents
  refine ⟨⟨_, _, tree.spelled_codes⟩, fun text warned spelled => ⟨?_, fun c member =>
    ⟨spelled.nonzero c member, ?_⟩⟩⟩
  · obtain ⟨rfl, rfl⟩ := spelled.unique tree.spelled_codes
    exact Value.characters_eq represents.sound offers.denotes
  · rintro ⟨low, high⟩
    rcases c.valid with below | ⟨above, _⟩
    · exact absurd below (Nat.not_lt.mpr low)
    · exact absurd above (Nat.not_lt.mpr high)

/-- A placeholder hides a range, another one that is too long, and the code point of a surrogate. -/
theorem characters_spelled_hidden :
    ∃ (workspace : Workspace) (a : Value), workspace.Reached ∧
      workspace.memory.Offers a (.vector
        [.number 72.9, .range ⟨105, 1, 106⟩, .range ⟨0, 1, 20000⟩, .number 55296]) ∧
      a.characters workspace.memory =
        some ("Hij", workspace.memory.warned [.tooManyValues 20001]) := by
  obtain ⟨_, workspace, a, _, ran, offers, _⟩ := exists_offers
    [.create, .append 0 (.number 72.9), .append 0 (.embedded (.vector
      [.range ⟨105, 1, 106⟩, .range ⟨0, 1, 20000⟩, .number 55296])), .create] ⟨_, _, rfl, rfl⟩
  have spelled := Tree.spelled_codes (.vector
    [.number 72.9, .range ⟨105, 1, 106⟩, .range ⟨0, 1, 20000⟩, .number 55296])
  rw [show (Tree.vector [.number 72.9, .range ⟨105, 1, 106⟩, .range ⟨0, 1, 20000⟩,
      .number 55296]).codes = (['H', 'i', 'j'], [.tooManyValues 20001]) by decide +kernel]
    at spelled
  exact ⟨workspace, a, ⟨_, _, ran⟩, offers.toOffers,
    ((characters_spelled ⟨_, _, ran⟩ offers.toOffers).2 _ _ spelled).1⟩

end Workspace

end SolidScript
