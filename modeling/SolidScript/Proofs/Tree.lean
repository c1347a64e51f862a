/-
This file defines what values mean when storages, placeholders and identities are forgotten: plain
nested lists. Functions alone keep their identity, as it is all that tells them apart.
-/

import SolidScript.Value
import Mathlib.Algebra.Group.Nat.Defs
import Mathlib.Data.List.Forall2

namespace SolidScript

inductive Tree where
  | undefined
  | bool (flag : Bool)
  | number (x : Float)
  | text (content : String)
  | vector (items : List Tree)
  /-- A vector on its way into another one. It is never an item. -/
  | embedded (items : List Tree)
  | range (content : Range)
  | function (closure : Shared Closure)

namespace Tree

/-- To prove something of all trees, prove it of a vector and of an embedded vector from the items,
and of every other tree. -/
theorem induct {motive : Tree → Prop} (undefined : motive undefined)
    (bool : ∀ flag, motive (bool flag)) (number : ∀ x, motive (number x))
    (text : ∀ content, motive (text content)) (range : ∀ content, motive (range content))
    (function : ∀ closure, motive (function closure))
    (vector : ∀ items, (∀ item ∈ items, motive item) → motive (vector items))
    (embedded : ∀ items, (∀ item ∈ items, motive item) → motive (embedded items)) (tree : Tree) :
    motive tree := by
  refine @Tree.rec motive (fun items => ∀ item ∈ items, motive item) undefined bool number text
    (fun items each => vector items each) (fun items each => embedded items each) range function
    (fun _ member => ?_) (fun first items head tail item member => ?_) tree
  · exact absurd member List.not_mem_nil
  · rcases List.mem_cons.mp member with rfl | later
    · exact head
    · exact tail item later

/-! ### Parts -/

def number? : Tree → Option Float
  | number x => some x
  | _ => none

/-- The number, if it is neither infinite nor no number. -/
def finiteNumber? (tree : Tree) : Option Float := tree.number?.filter Float.isFinite

def kind : Tree → Kind
  | undefined => .undefined
  | bool _ => .bool
  | number _ => .number
  | text _ => .text
  | vector _ => .vector
  | embedded _ => .embedded
  | range _ => .range
  | function _ => .function

mutual

/-- Whether every vector in the tree, at any depth, has fewer items than a machine word counts. -/
def small : Tree → Bool
  | vector items | embedded items => decide (items.length < 2 ^ 64) && allSmall items
  | _ => true

def allSmall : List Tree → Bool
  | [] => true
  | item :: items => item.small && allSmall items

end

theorem allSmall_iff {items : List Tree} :
    allSmall items = true ↔ ∀ item ∈ items, item.small = true := by
  induction items with
  | nil => exact ⟨fun _ _ member => absurd member List.not_mem_nil, fun _ => rfl⟩
  | cons item items inductionHypothesis =>
    rw [allSmall, Bool.and_eq_true, inductionHypothesis, List.forall_mem_cons]

theorem small_vector_iff {items : List Tree} :
    (vector items).small = true ↔
      items.length < 2 ^ 64 ∧ ∀ item ∈ items, item.small = true := by
  rw [small, Bool.and_eq_true, decide_eq_true_iff, allSmall_iff]

theorem small_embedded_iff {items : List Tree} :
    (embedded items).small = true ↔
      items.length < 2 ^ 64 ∧ ∀ item ∈ items, item.small = true := by
  rw [small, Bool.and_eq_true, decide_eq_true_iff, allSmall_iff]

/-- The items of a vector or of an embedded vector. -/
def items : Tree → List Tree
  | vector items | embedded items => items
  | _ => []

theorem length_items_lt {tree : Tree} (small : tree.small = true) :
    tree.items.length < 2 ^ 64 := by
  cases tree with
  | vector items => exact (small_vector_iff.mp small).1
  | embedded items => exact (small_embedded_iff.mp small).1
  | _ => exact (by decide : 0 < 2 ^ 64)

/-! ### Joining -/

/-- What a tree adds to a vector that it is appended to. -/
def parts : Tree → List Tree
  | embedded items => items
  | tree => [tree]

/-- A small tree adds small parts, fewer than a word can count. -/
theorem small_parts {tree : Tree} (small : tree.small = true) :
    (vector tree.parts).small = true := by
  cases tree with
  | embedded items => exact small
  | _ => exact small_vector_iff.mpr ⟨(by decide : 1 < 2 ^ 64), List.forall_mem_singleton.mpr small⟩

theorem length_parts_lt {tree : Tree} (small : tree.small = true) :
    tree.parts.length < 2 ^ 64 :=
  (small_vector_iff.mp (small_parts small)).1

/-- Items doubled `count` times. -/
def doubled (items : List Tree) : Nat → List Tree
  | 0 => items
  | count + 1 => doubled (items ++ items) count

/-- Items behind `count` zeroes. -/
def chained (items : List Tree) (count : Nat) : List Tree :=
  List.replicate count (number 0) ++ items

end Tree

end SolidScript
