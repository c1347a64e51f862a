/-
This file proves that the text of data without texts and functions can be read in one way only.
Words end at a bracket, a comma or a blank, and the texts of numbers are words that no other word is
equal to. So no text of data is continued by another one, however brackets are nested: a range is
told from a vector by the blank behind its first number, where a vector has a comma or its bracket.
-/

import SolidScript.Proofs.Number.Canonical
import SolidScript.Proofs.Products

namespace SolidScript

/-! ### Words -/

/-- Whether the character ends a word. -/
def isMark (c : Char) : Bool := ['[', ']', ',', ' '].contains c

def IsWord (text : List Char) : Prop := ∀ c ∈ text, isMark c = false

/-- A word that stands in front of the text is over. -/
def StartsMarked (text : List Char) : Prop := ∀ c ∈ text.head?, isMark c = true

theorem StartsMarked.cons {mark : Char} (isMark : isMark mark = true) (text : List Char) :
    StartsMarked (mark :: text) := by
  rintro _ ⟨⟩
  exact isMark

/-- A text has one word in front. -/
theorem word_unique {word other rest later : List Char} (isWord : IsWord word)
    (isOther : IsWord other) (marked : StartsMarked rest) (markedLater : StartsMarked later)
    (same : word ++ rest = other ++ later) : word = other ∧ rest = later := by
  induction word generalizing other with
  | nil =>
    cases other with
    | nil => exact ⟨rfl, same⟩
    | cons c other =>
      have mark := marked c (by rw [show rest = c :: (other ++ later) from same]; rfl)
      rw [isOther c List.mem_cons_self] at mark
      contradiction
  | cons c word inductionHypothesis =>
    cases other with
    | nil =>
      have mark := markedLater c (by rw [show later = c :: (word ++ rest) from same.symm]; rfl)
      rw [isWord c List.mem_cons_self] at mark
      contradiction
    | cons d other =>
      obtain ⟨rfl, further⟩ := List.cons.inj same
      obtain ⟨rfl, behind⟩ := inductionHypothesis
        (fun c member => isWord c (List.mem_cons_of_mem _ member))
        (fun c member => isOther c (List.mem_cons_of_mem _ member)) further
      exact ⟨rfl, behind⟩

theorem isWord_nil : IsWord [] := fun _ member => absurd member List.not_mem_nil

theorem isWord_append {word other : List Char} (isWord : IsWord word) (isOther : IsWord other) :
    IsWord (word ++ other) := fun c member =>
  (List.mem_append.mp member).elim (isWord c) (isOther c)

theorem isWord_cons {c : Char} {word : List Char} (noMark : isMark c = false)
    (isWord : IsWord word) : IsWord (c :: word) := List.forall_mem_cons.mpr ⟨noMark, isWord⟩

/-! ### Texts of numbers -/

/-- The character is a digit, a minus, or the first one of the other texts that a number may
have. -/
def BeginsNumber (c : Char) : Prop := c.isDigit = true ∨ c = '-' ∨ c = 'i' ∨ c = 'n'

instance (c : Char) : Decidable (BeginsNumber c) :=
  inferInstanceAs (Decidable (c.isDigit = true ∨ c = '-' ∨ c = 'i' ∨ c = 'n'))

namespace NumberText

theorem isWord_of_isDigits {digits : List Char} (isDigits : IsDigits digits) : IsWord digits := by
  intro c member
  rw [Bool.eq_false_iff]
  intro mark
  have digit := isDigits c member
  simp only [isMark, List.contains_iff_mem, List.mem_cons, List.not_mem_nil, or_false] at mark
  rcases mark with rfl | rfl | rfl | rfl <;> exact absurd digit (by decide)

theorem Fraction.isWord {fraction : List Char} (isFraction : Fraction fraction) :
    IsWord fraction := by
  cases isFraction with
  | none => exact isWord_nil
  | point isDigits _ _ => exact isWord_cons (by decide) (isWord_of_isDigits isDigits)

/-- A word that begins as a number does. -/
structure IsNumberWord (text : List Char) : Prop where
  isWord : IsWord text
  begins : ∃ c ∈ text.head?, BeginsNumber c

theorem Leads.begins {digits : List Char} (leads : Leads digits) (rest : List Char) :
    ∃ c ∈ (digits ++ rest).head?, BeginsNumber c := by
  obtain ⟨digit, others, rfl⟩ := List.exists_cons_of_ne_nil leads.some'
  exact ⟨digit, rfl, .inl (leads.isDigits digit List.mem_cons_self)⟩

theorem Plain.isNumberWord {text : List Char} (plain : Plain text) : IsNumberWord text := by
  cases plain with
  | zero isFraction => exact ⟨isWord_cons (by decide) isFraction.isWord, '0', rfl, .inl rfl⟩
  | whole leads isFraction =>
    exact ⟨isWord_append (isWord_of_isDigits leads.isDigits) isFraction.isWord, leads.begins _⟩

theorem Scientific.isNumberWord {text : List Char} (scientific : Scientific text) :
    IsNumberWord text := by
  cases scientific with
  | @power digit sign fraction power leads isFraction isSign isPower =>
    have sign : isMark sign = false := by rcases isSign with rfl | rfl <;> rfl
    have isWord : IsWord (fraction ++ 'e' :: _ :: power) := isWord_append isFraction.isWord
      (isWord_cons (by decide) (isWord_cons sign (isWord_of_isDigits isPower.isDigits)))
    exact ⟨isWord_append (isWord_of_isDigits leads.isDigits) isWord, leads.begins _⟩

theorem isNumberWord_signed {magnitude : List Char} (isNumberWord : IsNumberWord magnitude)
    (negative : Bool) : IsNumberWord (if negative then '-' :: magnitude else magnitude) := by
  cases negative with
  | false => exact isNumberWord
  | true => exact ⟨isWord_cons (by decide) isNumberWord.isWord, '-', rfl, .inr (.inl rfl)⟩

theorem Canonical.isNumberWord {parts : Binary64} {text : List Char}
    (canonical : Canonical parts text) : IsNumberWord text := by
  cases parts with
  | nan =>
    obtain rfl : text = ['n', 'a', 'n'] := canonical
    exact ⟨isWord_cons rfl (isWord_cons rfl (isWord_cons rfl isWord_nil)), 'n', rfl, by decide⟩
  | infinite negative =>
    obtain rfl : text = if negative then '-' :: ['i', 'n', 'f'] else ['i', 'n', 'f'] := canonical
    exact isNumberWord_signed ⟨isWord_cons rfl (isWord_cons rfl (isWord_cons rfl isWord_nil)),
      'i', rfl, by decide⟩ negative
  | finite negative mantissa exponent =>
    rw [Canonical] at canonical
    split at canonical
    next zero =>
      subst canonical
      exact ⟨isWord_of_isDigits (isDigits_zeros 1), '0', rfl, .inl rfl⟩
    next nonzero =>
      obtain ⟨magnitude, rfl, form⟩ := canonical
      refine isNumberWord_signed ?_ negative
      split at form
      next plain => exact form.isNumberWord
      next scientific => exact form.isNumberWord

end NumberText

/-! ### Data -/

namespace Tree

/-- Trees without texts and functions. -/
inductive IsData : Tree → Prop
  | undefined : IsData undefined
  | bool (flag : Bool) : IsData (bool flag)
  | number (x : Float) : IsData (number x)
  | range (content : Range) : IsData (range content)
  | vector {items : List Tree} (each : ∀ item ∈ items, IsData item) : IsData (vector items)

/-- Trees of the same shape, with the same truth values, and with numbers of the same text in the
same places. -/
inductive ShownAlike : Tree → Tree → Prop
  | undefined : ShownAlike undefined undefined
  | bool (flag : Bool) : ShownAlike (bool flag) (bool flag)
  | number {x y : Float} (same : formatNumber x = formatNumber y) :
    ShownAlike (number x) (number y)
  | range {content other : Range} (first : formatNumber content.first = formatNumber other.first)
      (step : formatNumber content.step = formatNumber other.step)
      (last : formatNumber content.last = formatNumber other.last) :
    ShownAlike (range content) (range other)
  | vector {items others : List Tree} (each : List.Forall₂ ShownAlike items others) :
    ShownAlike (vector items) (vector others)

/-- The characters of a tree as it is shown inside a vector. -/
def letters (tree : Tree) : List Char := tree.echoed.toList

/-- The characters of the items of a vector with commas between them, and one in front unless they
come first. -/
def itemLetters (first : Bool) (items : List Tree) : List Char :=
  (Display.joined first (writeAll shownStyle items)).toList

theorem letters_vector (items : List Tree) :
    (vector items).letters = '[' :: (itemLetters true items ++ [']']) := by
  rw [letters, echoed, write, itemLetters, Display.joined_true, String.toList_append,
    String.toList_append]
  rfl

theorem itemLetters_cons (first : Bool) (item : Tree) (items : List Tree) :
    itemLetters first (item :: items) =
      (Display.separator first).toList ++ (item.letters ++ itemLetters false items) := by
  rw [itemLetters, writeAll, Display.joined_cons, String.toList_append, String.toList_append,
    List.append_assoc]
  rfl

theorem letters_range (content : Range) :
    (range content).letters = '[' :: ((number content.first).letters ++ ' ' :: ':' :: ' ' ::
      ((number content.step).letters ++ ' ' :: ':' :: ' ' ::
        ((number content.last).letters ++ [']']))) := by
  show content.text.toList = _
  simp only [Range.text, String.toList_append, List.append_assoc]
  rfl

theorem isNumberWord_letters (x : Float) : NumberText.IsNumberWord (number x).letters := by
  show NumberText.IsNumberWord (numberText x).toList
  rw [numberText, String.toList_ofList]
  exact (NumberText.canonical_characters (NumberText.ofDouble_ofFloat x)).isNumberWord

theorem letters_number_inj {x y : Float} (same : (number x).letters = (number y).letters) :
    formatNumber x = formatNumber y := by
  rw [formatNumber_eq, formatNumber_eq]
  exact String.toList_inj.mp same

/-! ### First characters -/

/-- The kind that the first character of a text tells. Ranges are not told from vectors. -/
def kindOfFirst (c : Char) : Kind :=
  if c = 'u' then .undefined
  else if c = 't' ∨ c = 'f' then .bool
  else if c = '[' then .vector
  else .number

/-- The kind, with ranges taken for vectors. -/
def outline (tree : Tree) : Kind := if tree.kind = .range then .vector else tree.kind

theorem kindOfFirst_of_beginsNumber {c : Char} (begins : BeginsNumber c) :
    kindOfFirst c = .number ∧ c ≠ ']' := by
  have other : ∀ d, ¬ BeginsNumber d → c ≠ d := fun d none same => none (same ▸ begins)
  refine ⟨?_, other ']' (by decide)⟩
  rw [kindOfFirst, if_neg (other 'u' (by decide)),
    if_neg (not_or.mpr ⟨other 't' (by decide), other 'f' (by decide)⟩),
    if_neg (other '[' (by decide))]

/-- The first character tells the kind, and is no closing bracket. -/
theorem letters_first {tree : Tree} (data : tree.IsData) :
    ∃ c rest, tree.letters = c :: rest ∧ kindOfFirst c = tree.outline ∧ c ≠ ']' := by
  cases data with
  | undefined => exact ⟨'u', _, rfl, rfl, by decide⟩
  | bool flag =>
    cases flag with
    | false => exact ⟨'f', _, rfl, rfl, by decide⟩
    | true => exact ⟨'t', _, rfl, rfl, by decide⟩
  | number x =>
    obtain ⟨c, head, begins⟩ := (isNumberWord_letters x).begins
    obtain ⟨rest, same⟩ := List.head?_eq_some_iff.mp head
    exact ⟨c, rest, same, kindOfFirst_of_beginsNumber begins⟩
  | range content => exact ⟨'[', _, letters_range content, rfl, by decide⟩
  | vector each => exact ⟨'[', _, letters_vector _, rfl, by decide⟩

theorem outline_eq {tree other : Tree} (data : tree.IsData) (otherData : other.IsData)
    {rest later : List Char} (same : tree.letters ++ rest = other.letters ++ later) :
    tree.outline = other.outline := by
  obtain ⟨c, _, begins, tells, _⟩ := letters_first data
  obtain ⟨d, _, otherBegins, otherTells, _⟩ := letters_first otherData
  rw [begins, otherBegins] at same
  obtain rfl := (List.cons.inj same).1
  exact tells.symm.trans otherTells

/-! ### Texts of data -/

/-- The tree can be read from the front of a text. -/
def Readable (tree : Tree) : Prop :=
  ∀ {other : Tree} {rest later : List Char}, other.IsData → StartsMarked rest →
    StartsMarked later → tree.letters ++ rest = other.letters ++ later →
      tree.ShownAlike other ∧ rest = later

theorem number_unique {x y : Float} {rest later : List Char} (marked : StartsMarked rest)
    (markedLater : StartsMarked later)
    (same : (number x).letters ++ rest = (number y).letters ++ later) :
    formatNumber x = formatNumber y ∧ rest = later := by
  obtain ⟨word, behind⟩ := word_unique (isNumberWord_letters x).isWord
    (isNumberWord_letters y).isWord marked markedLater same
  exact ⟨letters_number_inj word, behind⟩

theorem readable_number (x : Float) : (number x).Readable := by
  intro other rest later data marked markedLater same
  have kinds := outline_eq (.number x) data same
  cases data with
  | number y =>
    obtain ⟨word, behind⟩ := number_unique marked markedLater same
    exact ⟨.number word, behind⟩
  | _ => cases kinds

theorem startsMarked_items (items : List Tree) (rest : List Char) :
    StartsMarked (itemLetters false items ++ ']' :: rest) := by
  cases items with
  | nil => exact .cons rfl _
  | cons item items =>
    rw [itemLetters_cons]
    exact .cons rfl _

/-- A range goes on with a blank behind its first number, a vector does not. -/
theorem range_ne_vector {content : Range} {items : List Tree} (each : ∀ item ∈ items, item.IsData)
    (rest later : List Char) :
    (range content).letters ++ rest ≠ (vector items).letters ++ later := by
  intro same
  simp only [letters_range, letters_vector, List.cons_append, List.append_assoc, List.cons.injEq,
    true_and] at same
  -- The first number of the range would be the first item of the vector.
  cases items with
  | nil =>
    obtain ⟨c, _, begins, _, noBracket⟩ := letters_first (.number content.first)
    rw [begins] at same
    exact noBracket (List.cons.inj same).1
  | cons item items =>
    rw [itemLetters_cons, List.append_assoc, List.append_assoc] at same
    obtain ⟨_, behind⟩ := readable_number content.first (each item List.mem_cons_self)
      (.cons rfl _) (startsMarked_items items later) same
    cases items with
    | nil => cases behind
    | cons next items =>
      rw [itemLetters_cons] at behind
      cases behind

/-- No item begins as a vector ends. -/
theorem itemLetters_cons_ne {item : Tree} (data : item.IsData) (items : List Tree) (first : Bool)
    (rest later : List Char) : itemLetters first (item :: items) ++ later ≠ ']' :: rest := by
  intro same
  rw [itemLetters_cons] at same
  cases first with
  | false => cases same
  | true =>
    obtain ⟨c, _, begins, _, noBracket⟩ := letters_first data
    rw [begins] at same
    exact noBracket (List.cons.inj same).1

/-- The items of a vector can be read one after another, up to its bracket. -/
theorem items_unique {items others : List Tree} (readable : ∀ item ∈ items, item.Readable)
    (data : ∀ item ∈ items, item.IsData) (otherData : ∀ item ∈ others, item.IsData) (first : Bool)
    {rest later : List Char}
    (same : itemLetters first items ++ ']' :: rest = itemLetters first others ++ ']' :: later) :
    List.Forall₂ ShownAlike items others ∧ rest = later := by
  induction items generalizing others first with
  | nil =>
    cases others with
    | nil => exact ⟨.nil, (List.cons.inj same).2⟩
    | cons other others =>
      exact absurd same.symm
        (itemLetters_cons_ne (otherData other List.mem_cons_self) others first _ _)
  | cons item items inductionHypothesis =>
    cases others with
    | nil =>
      exact absurd same (itemLetters_cons_ne (data item List.mem_cons_self) items first _ _)
    | cons other others =>
      simp only [itemLetters_cons, List.append_assoc, List.append_cancel_left_eq] at same
      obtain ⟨alike, behind⟩ := readable item List.mem_cons_self
        (otherData other List.mem_cons_self) (startsMarked_items items rest)
        (startsMarked_items others later) same
      obtain ⟨each, end'⟩ := inductionHypothesis
        (fun item member => readable item (List.mem_cons_of_mem _ member))
        (fun item member => data item (List.mem_cons_of_mem _ member))
        (fun item member => otherData item (List.mem_cons_of_mem _ member)) false behind
      exact ⟨.cons alike each, end'⟩

theorem range_unique {content other : Range} {rest later : List Char}
    (same : (range content).letters ++ rest = (range other).letters ++ later) :
    ShownAlike (range content) (range other) ∧ rest = later := by
  simp only [letters_range, List.cons_append, List.append_assoc, List.cons.injEq, true_and] at same
  obtain ⟨first, behindFirst⟩ := number_unique (.cons rfl _) (.cons rfl _) same
  obtain ⟨step, behindStep⟩ := number_unique (.cons rfl _) (.cons rfl _)
    (@List.append_cancel_left _ [' ', ':', ' '] _ _ behindFirst)
  obtain ⟨last, behindLast⟩ := number_unique (.cons rfl _) (.cons rfl _)
    (@List.append_cancel_left _ [' ', ':', ' '] _ _ behindStep)
  exact ⟨.range first step last, (List.cons.inj behindLast).2⟩

/-- Data can be read from the front of a text, whatever stands behind them. -/
theorem readable_of_isData {tree : Tree} (data : tree.IsData) : tree.Readable := by
  -- The texts share their first character, so the other tree is of the same kind, up to ranges and
  -- vectors.
  induction data with
  | number x => exact readable_number x
  | undefined =>
    intro other rest later data _ _ same
    have kinds := outline_eq .undefined data same
    cases data with
    | undefined => exact ⟨.undefined, List.append_cancel_left same⟩
    | _ => cases kinds
  | bool flag =>
    intro other rest later data _ _ same
    have kinds := outline_eq (.bool flag) data same
    cases data with
    | bool otherFlag =>
      cases flag <;> cases otherFlag
      · exact ⟨.bool _, List.append_cancel_left same⟩
      · cases same
      · cases same
      · exact ⟨.bool _, List.append_cancel_left same⟩
    | _ => cases kinds
  | range content =>
    intro other rest later data _ _ same
    have kinds := outline_eq (.range content) data same
    cases data with
    | range => exact range_unique same
    | vector each => exact absurd same (range_ne_vector each _ _)
    | _ => cases kinds
  | @vector items each inductionHypothesis =>
    intro other rest later data _ _ same
    have kinds := outline_eq (.vector each) data same
    cases data with
    | range => exact absurd same.symm (range_ne_vector each _ _)
    | vector otherEach =>
      rw [letters_vector, letters_vector, List.cons_append, List.cons_append] at same
      have inside := (List.cons.inj same).2
      rw [List.append_assoc, List.append_assoc] at inside
      obtain ⟨alike, behind⟩ := items_unique inductionHypothesis each otherEach true inside
      exact ⟨.vector alike, behind⟩
    | _ => cases kinds

theorem writeAll_congr {items others : List Tree} (each : List.Forall₂ ShownAlike items others)
    (same : ∀ item ∈ items, ∀ other, item.ShownAlike other → item.echoed = other.echoed) :
    writeAll shownStyle items = writeAll shownStyle others := by
  induction each with
  | nil => rfl
  | cons alike _ inductionHypothesis =>
    exact congrArg₂ List.cons (same _ List.mem_cons_self _ alike)
      (inductionHypothesis fun item member => same item (List.mem_cons_of_mem _ member))

theorem ShownAlike.echoed_eq {tree other : Tree} (alike : tree.ShownAlike other) :
    tree.echoed = other.echoed := by
  induction tree using induct generalizing other with
  | number x =>
    cases alike with
    | number same =>
      rw [formatNumber_eq, formatNumber_eq] at same
      exact same
  | range content =>
    cases alike with
    | @range _ other first step last =>
      rw [formatNumber_eq, formatNumber_eq] at first step last
      show content.text = other.text
      rw [Range.text, Range.text, first, step, last]
  | vector items inductionHypothesis =>
    cases alike with
    | vector each =>
      rw [echoed, echoed, write, write,
        writeAll_congr each fun item member _ => inductionHypothesis item member]
  | undefined | bool =>
    cases alike
    rfl
  | text | function | embedded => cases alike

/-- Data have the same text exactly if they are alike. -/
theorem echoed_eq_iff {tree other : Tree} (data : tree.IsData) (otherData : other.IsData) :
    tree.echoed = other.echoed ↔ tree.ShownAlike other := by
  refine ⟨fun same => ?_, ShownAlike.echoed_eq⟩
  have nothing : StartsMarked [] := fun _ member => absurd member (Option.not_mem_none _)
  exact (readable_of_isData data otherData nothing nothing
    (congrArg (String.toList · ++ []) same)).1

theorem IsData.shown_eq {tree : Tree} (data : tree.IsData) :
    tree.shown = tree.echoed ∧ tree.written = tree.echoed := by
  cases data <;> exact ⟨rfl, rfl⟩

end Tree

/-! ### Texts of values -/

/-- All three ways to show the value give the text. -/
structure Memory.Displays (memory : Memory) (value : Value) (text : String) : Prop where
  shown : value.shown memory = some text
  echoed : value.echoed memory = some text
  written : value.written memory = some text

theorem Memory.Offers.displays {memory : Memory} {value : Value} {tree : Tree}
    (offers : memory.Offers value tree) (data : tree.IsData) :
    memory.Displays value tree.echoed where
  shown := data.shown_eq.1 ▸ Value.shown_eq offers.denotes
  echoed := Value.echoed_eq offers.denotes
  written := data.shown_eq.2 ▸ Value.written_eq offers.denotes

namespace Memory

/-- Values that denote data have one text each, and it is the same exactly if the data are alike.
The values may be laid out in different ways, and in different memories. -/
theorem displays_iff {memory other : Memory} {a b : Value} {x y : Tree}
    (first : memory.Offers a x) (second : other.Offers b y) (data : x.IsData)
    (otherData : y.IsData) :
    ∃ text otherText, memory.Displays a text ∧ other.Displays b otherText ∧
      (text = otherText ↔ x.ShownAlike y) :=
  ⟨x.echoed, y.echoed, first.displays data, second.displays otherData,
    Tree.echoed_eq_iff data otherData⟩

/-- A range that hides in a placeholder and one that is stored. Their numbers have the same texts,
and so have two numbers that are not equal. -/
theorem displays_iff_hidden :
    ∃ (workspace : Workspace) (a b : Value), workspace.Reached ∧
      workspace.memory.Offers a (.vector [.number (0.1 + 0.2), .range ⟨0, 1, 2⟩, .vector []]) ∧
      workspace.memory.Offers b (.vector [.number 0.3, .range ⟨-0, 1, 2⟩, .vector []]) ∧
      ∃ text, workspace.memory.Displays a text ∧ workspace.memory.Displays b text := by
  obtain ⟨_, workspace, a, b, ran, left, right⟩ := Workspace.exists_offers
    [.create, .append 0 (.number (0.1 + 0.2)),
      .append 0 (.embedded (.vector [.range ⟨0, 1, 2⟩, .vector []])),
      .fill [.number 0.3, .range ⟨-0, 1, 2⟩, .vector []]] ⟨_, _, rfl, rfl⟩
  have data : ∀ x content, (Tree.vector [.number x, .range content, .vector []]).IsData :=
    fun x content => .vector (List.forall_mem_cons.mpr ⟨.number x, List.forall_mem_cons.mpr
      ⟨.range content, List.forall_mem_singleton.mpr
        (.vector fun _ member => absurd member List.not_mem_nil)⟩⟩)
  have sums : formatNumber (0.1 + 0.2) = formatNumber 0.3 := by
    rw [formatNumber_eq, formatNumber_eq]
    decide +kernel
  have zeros : formatNumber 0 = formatNumber (-0) := by
    rw [formatNumber_eq, formatNumber_eq]
    decide +kernel
  obtain ⟨text, otherText, displays, otherDisplays, same⟩ :=
    displays_iff left.toOffers right.toOffers (data _ _) (data _ _)
  have alike := same.mpr
    (.vector (.cons (.number sums) (.cons (.range zeros rfl rfl) (.cons (.vector .nil) .nil))))
  exact ⟨workspace, a, b, ⟨_, _, ran⟩, left.toOffers, right.toOffers, text, displays,
    alike ▸ otherDisplays⟩

end Memory

end SolidScript
