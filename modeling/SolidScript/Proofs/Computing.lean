/-
This file proves that arithmetic on the elements of vectors gives what arithmetic on trees gives.
The result is collected in a new vector. Growing it leaves alone every storage that was there
before, so the operands, and the walks through them, stay what they were, and none is flattened.
-/

import SolidScript.Proofs.Appending
import SolidScript.Proofs.Sparing
import SolidScript.Proofs.Tree.Arithmetic

namespace SolidScript

open Value (handles)

/-- What was computed denotes the given tree, is no placeholder, and is at work. All storages that
were there are carried over. -/
structure Computes (sure : Prop) (before : Memory) (atWork : List Address) (tree : Tree)
    (warned : List Warning) (result : Value) (after : Memory) : Prop where
  sound : Sound sure after (handles [result] ++ atWork)
  denotes : Denotes after result tree
  direct : result.isEmbedded = false
  evolves : Evolves warned [] before after

/-- Something was computed. It is the expected tree, with the expected warnings, if one can be sure
and the operands are small. -/
def Yields (sure small : Prop) (before : Memory) (atWork : List Address)
    (expected : Tree × List Warning) (result : Value) (after : Memory) : Prop :=
  ∃ tree warned, Computes sure before atWork tree warned result after ∧
    (sure → small → (tree, warned) = expected)

/-- A new vector has collected the given items since a memory from which all storages are carried
over. Slices of some of these are being read. -/
structure Collects (sure : Prop) (base : Memory) (atWork : List Address) (warned : List Warning)
    (lent : List Address) (items : List Tree) (result : Address) (memory : Memory) : Prop where
  sound : Sound sure memory (result :: atWork)
  denotes : Denotes memory (.vector result) (.vector items)
  evolves : Evolves warned lent base memory
  fresh : base.storages.size ≤ result

/-- What was computed, without flattening anything. -/
structure Builds (sure : Prop) (before : Memory) (atWork : List Address) (tree : Tree)
    (result : Value) (after : Memory) : Prop
    extends Computes sure before atWork tree [] result after where
  adds : Memory.Adds before after

/-- What was collected, without flattening anything. -/
structure Gathers (sure : Prop) (base : Memory) (atWork : List Address) (items : List Tree)
    (result : Address) (memory : Memory) : Prop
    extends Collects sure base atWork [] [] items result memory where
  adds : Memory.Adds base memory

variable {sure : Prop} {atWork : List Address} {base memory : Memory}
    {warned further : List Warning}

theorem Computes.of_scalar (sound : Sound sure memory atWork) {value : Value} {tree : Tree}
    (denotes : Denotes memory value tree) (scalar : value.storage? = none) :
    Computes sure memory atWork tree [] value memory := by
  have none : handles [value] = [] := List.filterMap_cons_none scalar
  refine ⟨?_, denotes, ?_, .refl sound⟩
  · rw [none]
    exact sound
  · cases value with
    | embedded => contradiction
    | _ => rfl

theorem Builds.of_scalar (sound : Sound sure memory atWork) {value : Value} {tree : Tree}
    (denotes : Denotes memory value tree) (scalar : value.storage? = none) :
    Builds sure memory atWork tree value memory :=
  ⟨.of_scalar sound denotes scalar, .refl memory⟩

theorem Computes.yields {small : Prop} {tree : Tree} {result : Value} {after : Memory}
    (computes : Computes sure memory atWork tree warned result after) :
    Yields sure small memory atWork (tree, warned) result after :=
  ⟨tree, warned, computes, fun _ _ => rfl⟩

theorem Yields.of_eq {small smaller : Prop} {expected others : Tree × List Warning}
    {result : Value} {after : Memory}
    (yields : Yields sure small memory atWork expected result after)
    (same : sure → smaller → small ∧ expected = others) :
    Yields sure smaller memory atWork others result after := by
  obtain ⟨tree, warned, computes, exact'⟩ := yields
  refine ⟨tree, warned, computes, fun holds little => ?_⟩
  obtain ⟨less, rfl⟩ := same holds little
  exact exact' holds less

theorem Computes.of_storages {after : Memory} (sound : Sound sure memory atWork) {value : Value}
    {tree : Tree} (scalar : value.storage? = none) (denotes : Denotes after value tree)
    (same : after.storages = memory.storages)
    (registers : ∀ range, memory.Registers range → after.Registers range)
    (closures : after.closures = memory.closures) (warnings : after.warnings = memory.warnings) :
    Computes sure memory atWork tree [] value after := by
  have start := Computes.of_scalar (sound.of_storages same registers) denotes scalar
  exact ⟨start.sound, denotes, start.direct, .of_storages sound same registers closures warnings⟩

namespace Memory

theorem newText_ends (sound : Sound sure memory atWork) (content : String) :
    (newText content).Ends memory (Computes sure memory atWork (.text content) []) :=
  .intro _ _ rfl (.of_storages sound rfl (.text ⟨memory.texts, content⟩) rfl
    (fun _ registered => registered) rfl rfl)

/-- Further ranges do not change which range an identity stands for. -/
theorem newRange_ends (sound : Sound sure memory atWork) (content : Range) :
    (newRange content).Ends memory (Computes sure memory atWork (.range content) []) := by
  refine .intro _ _ rfl
    (.of_storages sound rfl (.range ?_) rfl (fun range registered => ?_) rfl rfl)
  · exact Array.getElem?_push_size
  · have inside := (Array.getElem?_eq_some_iff.mp registered).1
    rw [Registers, Array.getElem?_push_lt inside, ← Array.getElem?_eq_getElem inside]
    exact registered

end Memory

namespace Collects

variable {lent : List Address} {items : List Tree} {result : Address}

/-- A new vector is empty. -/
theorem start (sound : Sound sure base atWork) :
    Memory.create.Ends base (Collects sure base atWork [] [] []) :=
  (Memory.create_ends sound).imp fun _ _ ⟨fresh, afterSound, evolves, shows, _⟩ =>
    ⟨afterSound, shows.vector, evolves, Nat.le_of_eq fresh.symm⟩

/-- The storages of the base refer to one another only. -/
theorem enclosed (collects : Collects sure base atWork warned lent items result memory) :
    Enclosed memory base.Has :=
  collects.evolves.carries.enclosed_after

theorem done (collects : Collects sure base atWork warned [] items result memory) :
    Computes sure base atWork (.vector items) warned (.vector result) memory :=
  ⟨collects.sound, collects.denotes, rfl, collects.evolves⟩

/-- One more result is appended. -/
theorem append (collects : Collects sure base atWork warned lent items result memory)
    {value : Value} {tree : Tree} {after : Memory}
    (computes : Computes sure memory (result :: atWork) tree further value after) :
    (Memory.append result value).Ends after fun grown last =>
      Collects sure base atWork (warned ++ further) lent (items ++ [tree]) grown last ∧
        Carries base.Has memory last := by
  obtain ⟨sound, denotes, direct, evolves⟩ := computes
  have ordered := sound.of_count (result :: handles [value] ++ atWork)
    fun other => by simp only [List.count_append, List.count_cons]; omega
  obtain ⟨elements, shows⟩ := Shows.of_vector (evolves.denotes collects.denotes)
  have whole := collects.evolves.trans evolves
  have put : (Memory.append result value).Ends after
      (Memory.Extends sure after atWork result (elements ++ [value]) (items ++ [tree])) := by
    cases value with
    | embedded => contradiction
    | _ => exact Memory.put_direct_ends ordered shows direct denotes
  refine put.imp fun grown last extends' => ?_
  have carries := extends'.carries base.Has whole.carries.enclosed_after fun has =>
    absurd has (Nat.not_lt_of_le collects.fresh)
  have computed := evolves.carries.mono collects.enclosed fun _ has =>
    Nat.lt_of_lt_of_le has collects.evolves.carries.length
  refine ⟨⟨extends'.sound, extends'.shows.vector, ⟨?_, ?_, ?_⟩, ?_⟩,
    computed.trans carries fun _ has => has⟩
  · exact whole.carries.trans carries fun _ has => has
  · intro fits other has
    have apart : other ≠ result := Nat.ne_of_lt (Nat.lt_of_lt_of_le has collects.fresh)
    exact (extends'.sizes fits other (Nat.lt_of_lt_of_le has whole.carries.length)
      fun same => absurd same apart).trans
        (whole.sizes (fits.of_grown extends'.steady.grown) other has)
  · have steady := whole.steady.trans extends'.steady.toSteady
    rw [List.append_nil, List.append_nil, List.append_nil] at steady
    exact steady
  · rcases extends'.place with rfl | later
    · exact collects.fresh
    · exact Nat.le_trans whole.carries.length later

end Collects

namespace Gathers

variable {items : List Tree} {result : Address}

theorem start (sound : Sound sure base atWork) :
    Memory.create.Ends base (Gathers sure base atWork []) :=
  ((Collects.start sound).and_leads
    ((Memory.admits_adds base).allocate #[] 0 rfl base (.refl base))).imp
      fun _ _ ⟨collects, adds, _⟩ => ⟨collects, adds⟩

theorem done (gathers : Gathers sure base atWork items result memory) :
    Builds sure base atWork (.vector items) (.vector result) memory :=
  ⟨gathers.toCollects.done, gathers.adds⟩

theorem append (gathers : Gathers sure base atWork items result memory) {value : Value}
    {tree : Tree}
    {after : Memory} (builds : Builds sure memory (result :: atWork) tree value after) :
    (Memory.append result value).Ends after fun grown last =>
      Gathers sure base atWork (items ++ [tree]) grown last ∧ Carries base.Has memory last := by
  have appended := (Memory.admits_adds base).append gathers.fresh builds.direct
    (Memory.flat_takes [value]) after (gathers.adds.trans builds.adds)
  exact ((gathers.toCollects.append builds.toComputes).and_leads appended).imp
    fun _ _ ⟨⟨collects, carries⟩, adds, _⟩ => ⟨⟨collects, adds⟩, carries⟩

end Gathers

/-! ### A walk beside a vector that is collected -/

/-- What is left of a walk through storages of the base. -/
def Remains (base memory : Memory) (walk : Walk) (items : List Tree) : Prop :=
  Follows memory walk items ∧ ∀ level ∈ walk, base.Has level.storage

namespace Remains

variable {walk : Walk} {item : Tree} {items : List Tree}

theorem start {address : Address} (denotes : Denotes base (.vector address) (.vector items)) :
    Remains base base (base.walk address) items :=
  have follows := Follows.of_vector denotes
  ⟨follows, follows.1⟩

theorem carried {after : Memory} (remains : Remains base memory walk items)
    (carries : Carries base.Has memory after) : Remains base after walk items :=
  ⟨remains.1.carried carries remains.2, remains.2⟩

theorem next (remains : Remains base memory walk (item :: items))
    (enclosed : Enclosed memory base.Has) :
    ∃ value left, memory.next walk = some (some value, left) ∧ Denotes memory value item ∧
      Remains base memory left items := by
  obtain ⟨value, left, next, _, denotes, rest⟩ := remains.1.next_cons
  exact ⟨value, left, next, denotes, rest, (Memory.next_kept enclosed.closed next remains.2).2⟩

end Remains

namespace Elementwise

/-! ### One operand -/

/-- Changing a value that denotes the tree gives what changing the tree gives. -/
def Changes (sure : Prop) (image : Float → Float) (tree : Tree) : Prop :=
  ∀ memory atWork value, Sound sure memory atWork → Denotes memory value tree →
    (value.change image).Ends memory (Builds sure memory atWork (tree.change image))

theorem changeAll_ends {image : Float → Float} {items : List Tree}
    (each : ∀ item ∈ items, Changes sure image item) {found : List Tree} {result : Address}
    {walk : Walk} (gathers : Gathers sure base atWork found result memory)
    (remains : Remains base memory walk items) :
    (walk.changeAll image result).Ends memory
      (Gathers sure base atWork (found ++ Tree.changeAll image items)) := by
  induction items generalizing memory found result walk with
  | nil =>
    rw [Walk.changeAll, Tree.changeAll, List.append_nil]
    exact .read_bind remains.1.next_nil (.pure gathers)
  | cons item items inductionHypothesis =>
    obtain ⟨value, left, next, denotes, rest⟩ := remains.next gathers.enclosed
    rw [Walk.changeAll]
    refine .read_bind next ?_
    refine (each item List.mem_cons_self memory _ value gathers.sound denotes).bind
      fun image' changed builds => ?_
    refine (gathers.append builds).bind fun grown last ⟨gathered, carries⟩ => ?_
    have tail := inductionHypothesis (fun item member => each item (List.mem_cons_of_mem _ member))
      gathered (rest.carried carries)
    rw [List.append_assoc] at tail
    exact tail

theorem changes (image : Float → Float) (tree : Tree) : Changes sure image tree := by
  induction tree using Tree.induct with
  | vector items inductionHypothesis =>
    intro memory atWork value sound denotes
    cases value with
    | vector address =>
      rw [Value.change]
      refine .read_bind rfl ((Gathers.start sound).bind fun result created gathers => ?_)
      have remains := (Remains.start denotes).carried gathers.evolves.carries
      exact (changeAll_ends inductionHypothesis gathers remains).bind
        fun last after gathered => .pure gathered.done
    | _ => cases denotes
  | number x =>
    intro memory atWork value sound denotes
    cases denotes
    rw [Value.change]
    exact .pure (.of_scalar sound (.number _) rfl)
  | _ =>
    intro memory atWork value sound denotes
    cases denotes
    rw [Value.change]
    · exact .pure (.of_scalar sound .undefined rfl)
    all_goals
      intros
      contradiction

/-! ### Two operands -/

/-- Combining two values, of which the first denotes the tree, gives what combining their trees
gives. -/
def Combines (sure : Prop) (operate : Float → Float → Float) (tree : Tree) : Prop :=
  ∀ memory atWork a b other,
    Sound sure memory atWork → Denotes memory a tree → Denotes memory b other →
      (a.combine operate b).Ends memory (Builds sure memory atWork (tree.combine operate other))

theorem combineAll_ends {operate : Float → Float → Float} {xs ys : List Tree}
    (each : ∀ item ∈ xs, Combines sure operate item) {found : List Tree} {result : Address}
    {left right : Walk} (gathers : Gathers sure base atWork found result memory)
    (first : Remains base memory left xs) (second : Remains base memory right ys) :
    (left.combineAll operate result right).Ends memory
      (Gathers sure base atWork (found ++ Tree.combineAll operate xs ys)) := by
  induction xs generalizing memory found result left right ys with
  | nil =>
    rw [Walk.combineAll, Tree.combineAll, List.append_nil]
    · exact .read_bind first.1.next_nil (.pure gathers)
    · intros
      contradiction
  | cons x xs inductionHypothesis =>
    obtain ⟨a, left', nextLeft, denotesA, restLeft⟩ := first.next gathers.enclosed
    rw [Walk.combineAll]
    refine .read_bind nextLeft ?_
    cases ys with
    | nil =>
      rw [Tree.combineAll, List.append_nil]
      · exact .read_bind second.1.next_nil (.pure gathers)
      · intros
        contradiction
    | cons y ys =>
      obtain ⟨b, right', nextRight, denotesB, restRight⟩ := second.next gathers.enclosed
      refine .read_bind nextRight ?_
      refine (each x List.mem_cons_self memory _ a b y gathers.sound denotesA denotesB).bind
        fun image combined builds => ?_
      refine (gathers.append builds).bind fun grown last ⟨gathered, carries⟩ => ?_
      have tail := inductionHypothesis
        (fun item member => each item (List.mem_cons_of_mem _ member)) gathered
        (restLeft.carried carries) (restRight.carried carries)
      rw [List.append_assoc] at tail
      exact tail

/-- Operands that are neither two numbers nor two vectors give the undefined value. -/
theorem combine_ends_undefined {operate : Float → Float → Float} {a b : Value} {x y : Tree}
    (sound : Sound sure memory atWork) (first : Denotes memory a x) (second : Denotes memory b y)
    (notNumbers : ∀ m n, a = .number m → b = .number n → False)
    (notVectors : ∀ m n, a = .vector m → b = .vector n → False) :
    (a.combine operate b).Ends memory (Builds sure memory atWork (x.combine operate y)) := by
  rw [Value.combine, Tree.combine]
  · exact .pure (.of_scalar sound .undefined rfl)
  · rintro m n rfl rfl
    cases first
    cases second
    exact notNumbers _ _ rfl rfl
  · rintro m n rfl rfl
    cases first
    cases second
    exact notVectors _ _ rfl rfl
  · exact notNumbers
  · exact notVectors

theorem combines (operate : Float → Float → Float) (tree : Tree) : Combines sure operate tree := by
  induction tree using Tree.induct with
  | vector items inductionHypothesis =>
    intro memory atWork a b other sound first second
    cases a with
    | vector address =>
      cases b with
      | vector another =>
        obtain ⟨others, rfl, _⟩ := second.follows
        rw [Value.combine]
        refine .read_bind rfl (.read_bind rfl ?_)
        refine (Gathers.start sound).bind fun result created gathers => ?_
        have left := (Remains.start first).carried gathers.evolves.carries
        have right := (Remains.start second).carried gathers.evolves.carries
        exact (combineAll_ends inductionHypothesis gathers left right).bind
          fun last after gathered => .pure gathered.done
      | _ =>
        refine combine_ends_undefined sound first second ?_ ?_ <;>
          intros <;> contradiction
    | _ => cases first
  | number x =>
    intro memory atWork a b other sound first second
    cases a with
    | number x =>
      cases b with
      | number y =>
        cases first
        cases second
        rw [Value.combine]
        exact .pure (.of_scalar sound (.number _) rfl)
      | _ =>
        refine combine_ends_undefined sound first second ?_ ?_ <;>
          intros <;> contradiction
    | _ => cases first
  | _ =>
    intro memory atWork a b other sound first second
    refine combine_ends_undefined sound first second ?_ ?_
    · rintro m n rfl rfl
      cases first
    · rintro m n rfl rfl
      cases first

end Elementwise

end SolidScript
