/-
This file proves that the texts of values, and the characters that they denote, are those of the
trees that they denote. A value is written element by element behind what is written before; the
text of its tree is put together from the texts of the items.
-/

import SolidScript.Proofs.Comparing
import SolidScript.Proofs.Flattening
import SolidScript.Proofs.Sparing
import SolidScript.Proofs.Tree.Text
import SolidScript.Value.Display

namespace SolidScript

variable {sure : Prop} {memory : Memory}

namespace Display

/-! ### Texts behind one another -/

/-- The texts with commas between them, and one in front unless they come first. -/
def joined (first : Bool) : List String → String
  | [] => ""
  | texts => separator first ++ ", ".intercalate texts

theorem joined_cons (first : Bool) (text : String) (texts : List String) :
    joined first (text :: texts) = separator first ++ text ++ joined false texts := by
  cases texts with
  | nil =>
    rw [joined, joined, String.intercalate_singleton, String.append_empty]
    exact List.cons_ne_nil _ _
  | cons next texts =>
    rw [joined, joined, String.intercalate_cons_cons, separator, String.append_assoc,
      String.append_assoc]
    · rfl
    · exact List.cons_ne_nil _ _
    · exact List.cons_ne_nil _ _

theorem joined_true (texts : List String) : joined true texts = ", ".intercalate texts := by
  cases texts with
  | nil => rfl
  | cons text texts => exact String.empty_append

/-! ### Texts of values -/

/-- Two styles write alike what is no vector. -/
structure Alike (memory : Memory) (style : Style) (plain : Tree.Style) : Prop where
  opening : style.opening = plain.opening
  embeddedOpening : style.embeddedOpening = plain.embeddedOpening
  closing : style.closing = plain.closing
  scalar : ∀ value tree, value.storage? = none → Denotes memory value tree →
    style.scalar value = plain.scalar tree

theorem alike_shown : Alike memory shown Tree.shownStyle where
  opening := rfl
  embeddedOpening := rfl
  closing := rfl
  scalar value tree scalar denotes := by
    cases denotes with
    | vector | embedded => contradiction
    | _ => rfl

theorem alike_inspected : Alike memory inspected Tree.inspectedStyle where
  opening := rfl
  embeddedOpening := rfl
  closing := rfl
  scalar value tree scalar denotes := by
    cases denotes with
    | vector | embedded => contradiction
    | _ => rfl

variable {style : Style} {plain : Tree.Style}

/-- The elements of a walk are written as the items that it follows. -/
theorem writeElements_eq {items : List Tree}
    (each : ∀ item ∈ items, ∀ value out, Denotes memory value item →
      style.writeValue memory out value = some (out ++ Tree.write plain item))
    {walk : Walk} (follows : Follows memory walk items) (out : String) (first : Bool) :
    style.writeElements memory out first walk =
      some (out ++ joined first (Tree.writeAll plain items)) := by
  induction items generalizing walk out first with
  | nil =>
    rw [Style.writeElements, follows.next_nil, Tree.writeAll, joined, String.append_empty]
    rfl
  | cons item items inductionHypothesis =>
    obtain ⟨value, left, next, _, denotes, rest⟩ := follows.next_cons
    have head := each item List.mem_cons_self value (out ++ separator first) denotes
    have tail := inductionHypothesis (fun item member => each item (List.mem_cons_of_mem _ member))
      rest (out ++ separator first ++ Tree.write plain item) false
    rw [Style.writeElements, next]
    simp only [Option.bind_eq_bind, Option.bind_some, head, tail]
    rw [Tree.writeAll, joined_cons, String.append_assoc, String.append_assoc, String.append_assoc]

theorem writeValue_eq (alike : Alike memory style plain) {value : Value} {tree : Tree}
    (denotes : Denotes memory value tree) (out : String) :
    style.writeValue memory out value = some (out ++ Tree.write plain tree) := by
  induction tree using Tree.induct generalizing value out with
  | vector items inductionHypothesis =>
    cases value with
    | vector address =>
      obtain ⟨_, same, follows⟩ := denotes.follows
      cases same
      rw [Style.writeValue, writeElements_eq
        (fun item member value out => (inductionHypothesis item member · out)) follows]
      simp only [Option.bind_eq_bind, Option.bind_some, joined_true, Tree.write, alike.opening,
        alike.closing, String.append_assoc]
      rfl
    | _ => cases denotes
  | embedded items inductionHypothesis =>
    cases value with
    | embedded address =>
      obtain ⟨_, same, follows⟩ := denotes.follows_embedded
      cases same
      rw [Style.writeValue, writeElements_eq
        (fun item member value out => (inductionHypothesis item member · out)) follows]
      simp only [Option.bind_eq_bind, Option.bind_some, joined_true, Tree.write,
        alike.embeddedOpening, alike.closing, String.append_assoc]
      rfl
    | _ => cases denotes
  | _ =>
    have scalar : value.storage? = none := by cases denotes; rfl
    rw [Style.writeValue, alike.scalar value _ scalar denotes]
    · rfl
    · rintro address rfl
      contradiction
    · rintro address rfl
      contradiction

end Display

theorem Memory.inspected_eq {address : Address} {items : List Tree}
    (denotes : Denotes memory (.vector address) (.vector items)) :
    memory.inspected address = some (Tree.inspectedItems items) := by
  rw [Memory.inspected, Display.writeElements_eq
    (fun item _ value out denotes => Display.writeValue_eq Display.alike_inspected denotes out)
    (.of_vector denotes), Display.joined_true]
  rfl

namespace Value

variable {value : Value} {tree : Tree}

theorem echoed_eq (denotes : Denotes memory value tree) :
    value.echoed memory = some tree.echoed := by
  rw [echoed, Display.writeValue_eq Display.alike_shown denotes, String.empty_append]
  rfl

theorem shown_eq (denotes : Denotes memory value tree) :
    value.shown memory = some tree.shown := by
  cases denotes with
  | text => rfl
  | vector inside expands each => exact echoed_eq (.vector inside expands each)
  | embedded inside expands each => exact echoed_eq (.embedded inside expands each)
  | range registers => exact echoed_eq (.range registers)
  | _ => exact echoed_eq (by constructor)

theorem written_eq (denotes : Denotes memory value tree) :
    value.written memory = some tree.written := by
  cases denotes with
  | text => rfl
  | vector inside expands each => exact echoed_eq (.vector inside expands each)
  | embedded inside expands each => exact echoed_eq (.embedded inside expands each)
  | range registers => exact echoed_eq (.range registers)
  | _ => exact echoed_eq (by constructor)

theorem inspected_eq (denotes : Denotes memory value tree) :
    value.inspected memory = some tree.inspected := by
  rw [inspected, Display.writeValue_eq Display.alike_inspected denotes, String.empty_append]
  rfl

end Value

/-! ### Characters -/

namespace Memory

/-- The warnings are reported, and nothing else is changed. -/
def warned (causes : List Warning) (memory : Memory) : Memory :=
  { memory with events := (causes.map Event.warning).reverse ++ memory.events }

theorem warned_warned (causes further : List Warning) :
    (memory.warned causes).warned further = memory.warned (causes ++ further) := by
  rw [warned, warned, warned, List.map_append, List.reverse_append, List.append_assoc]

theorem warnings_warned (causes : List Warning) :
    (memory.warned causes).warnings = causes.reverse ++ memory.warnings := by
  rw [warnings, warned, List.filterMap_append, ← List.map_reverse, List.filterMap_map]
  congr 1
  exact List.filterMap_some

theorem warned_ends {atWork : List Address} (sound : Sound sure memory atWork)
    (causes : List Warning) :
    Sound sure (memory.warned causes) atWork ∧ Evolves causes [] memory (memory.warned causes) :=
  ⟨sound.of_storages rfl fun _ registered => registered,
    .of_storages sound rfl (fun _ registered => registered) rfl (warnings_warned causes)⟩

theorem adds_warned (causes : List Warning) : Adds memory (memory.warned causes) := by
  refine .of_alike (.of_storages rfl ?_)
  have silent : (causes.reverse.map Event.warning).filterMap Event.flattened? = [] := by
    rw [List.filterMap_map]
    exact List.filterMap_none _
  rw [flattenings, warned, List.filterMap_append, ← List.map_reverse, silent]
  rfl

end Memory

namespace Characters

variable {atWork : List Address}

/-- The characters of a tree are found behind those found before, and its warnings are given. -/
def Finds (before : Memory) (found : List Char) (codes : List Char × List Warning)
    (result : List Char) (after : Memory) : Prop :=
  result = codes.1.reverse ++ found ∧ after = before.warned codes.2

theorem ofScalar_ends {value : Value} {tree : Tree} (denotes : Denotes memory value tree)
    (scalar : value.vector? = none) (found : List Char) :
    (ofScalar found value).Ends memory (Finds memory found tree.codes) := by
  cases denotes with
  | number x =>
    refine .pure ⟨?_, rfl⟩
    rw [Tree.codes]
    cases characterOf? x <;> rfl
  | @range range registers =>
    rw [ofScalar, Tree.codes]
    by_cases long : Range.expansionLimit ≤ range.content.count
    · rw [if_pos long, if_pos long]
      exact ⟨_, _, rfl, rfl, rfl⟩
    · rw [if_neg long, if_neg long]
      exact .pure ⟨List.reverseAux_eq, rfl⟩
  | vector => contradiction
  | _ => exact .pure ⟨rfl, rfl⟩

/-- The characters of all items are found by a walk that follows them. -/
def Reads (sure : Prop) (atWork : List Address) (items : List Tree) : Prop :=
  ∀ memory walk found, Sound sure memory atWork → Follows memory walk items →
    (walk.characters found).Ends memory (Finds memory found (Tree.codesOfAll items))

theorem Finds.trans {before middle after : Memory} {found result last : List Char}
    {first second : List Char × List Warning} (one : Finds before found first result middle)
    (two : Finds middle result second last after) :
    Finds before found (first.1 ++ second.1, first.2 ++ second.2) last after := by
  obtain ⟨rfl, rfl⟩ := one
  obtain ⟨rfl, rfl⟩ := two
  refine ⟨?_, Memory.warned_warned first.2 second.2⟩
  rw [List.reverse_append, List.append_assoc]

/-- What is found in an item goes before what a walk finds in the items behind it. -/
theorem Reads.after_item {item : Tree} {items : List Tree} (rest : Reads sure atWork items)
    (sound : Sound sure memory atWork) {left : Walk} (follows : Follows memory left items)
    {found : List Char} {first : Action (List Char)}
    (ends : first.Ends memory (Finds memory found item.codes)) :
    (first >>= left.characters).Ends memory
      (Finds memory found (Tree.codesOfAll (item :: items))) := by
  refine ends.bind fun result middle finds => ?_
  obtain ⟨middleSound, evolves⟩ := Memory.warned_ends sound item.codes.2
  rw [← finds.2] at middleSound evolves
  exact (rest middle left result middleSound (evolves.follows follows)).imp
    fun last after more => finds.trans more

theorem reads_of_each {items : List Tree}
    (each : ∀ inner, .vector inner ∈ items → Reads sure atWork inner) :
    Reads sure atWork items := by
  induction items with
  | nil =>
    intro memory walk found sound follows
    rw [Walk.characters]
    exact .read_bind follows.next_nil (.pure ⟨rfl, rfl⟩)
  | cons item items inductionHypothesis =>
    intro memory walk found sound follows
    obtain ⟨value, left, next, _, denotes, rest⟩ := follows.next_cons
    have further := inductionHypothesis
      fun inner member => each inner (List.mem_cons_of_mem _ member)
    rw [Walk.characters]
    refine .read_bind next ?_
    by_cases scalar : value.vector? = none
    · have step := further.after_item sound rest (ofScalar_ends denotes scalar found)
      cases value with
      | vector => contradiction
      | _ => exact step
    · cases value with
      | vector address =>
        obtain ⟨inner, rfl, entered⟩ := denotes.follows
        refine .read_bind rfl ?_
        exact further.after_item sound rest
          (each inner List.mem_cons_self memory _ found sound entered)
      | _ => contradiction

theorem reads (items : List Tree) : Reads sure atWork items := by
  have all : ∀ tree items, tree = Tree.vector items → Reads sure atWork items := by
    intro tree
    induction tree using Tree.induct with
    | vector items inductionHypothesis =>
      rintro _ ⟨rfl⟩
      exact reads_of_each fun inner member => inductionHypothesis _ member inner rfl
    | _ =>
      intro _ same
      contradiction
  exact all (.vector items) items rfl

/-- The characters that were found make up the text of the tree. -/
theorem text_of_finds {tree : Tree} {action : Action (List Char)}
    (ends : action.Ends memory (Finds memory [] tree.codes)) :
    (do return String.ofList (← action).reverse : Action String) memory =
      some (tree.characters.1, memory.warned tree.characters.2) := by
  obtain ⟨found, after, reached, same, rfl⟩ := ends
  have reversed : found.reverse = tree.codes.1 := by
    rw [same, List.append_nil, List.reverse_reverse]
  show (action memory).bind (fun pair => some (String.ofList pair.1.reverse, pair.2)) = _
  rw [reached, Option.bind_some, reversed]
  rfl

/-- The text of a tree is found, and its warnings are given. Nothing is flattened. -/
structure Spells (sure : Prop) (atWork : List Address) (before : Memory) (tree : Tree)
    (text : String) (after : Memory) : Prop where
  text : text = tree.characters.1
  sound : Sound sure after atWork
  evolves : Evolves tree.characters.2 [] before after
  adds : Memory.Adds before after

end Characters

namespace Value

variable {atWork : List Address} {value : Value} {tree : Tree}

/-- The text of the code points of a value is that of its tree. Memory is changed by the warnings
only. -/
theorem characters_eq (sound : Sound sure memory atWork) (denotes : Denotes memory value tree) :
    value.characters memory = some (tree.characters.1, memory.warned tree.characters.2) := by
  by_cases scalar : value.vector? = none
  · have text := Characters.text_of_finds (Characters.ofScalar_ends denotes scalar [])
    cases value with
    | vector => contradiction
    | _ => exact text
  · cases value with
    | vector address =>
      obtain ⟨items, rfl, entered⟩ := denotes.follows
      exact Characters.text_of_finds
        (.read_bind rfl (Characters.reads items memory _ [] sound entered))
    | _ => contradiction

theorem characters_ends (sound : Sound sure memory atWork) (denotes : Denotes memory value tree) :
    value.characters.Ends memory (Characters.Spells sure atWork memory tree) := by
  obtain ⟨afterSound, evolves⟩ := Memory.warned_ends sound tree.characters.2
  exact ⟨_, _, characters_eq sound denotes, rfl, afterSound, evolves, Memory.adds_warned _⟩

end Value

end SolidScript
