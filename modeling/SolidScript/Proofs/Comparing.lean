/-
This file proves that truth, equality and order of values are those of the trees that they denote.
Two walks side by side are followed through the items of two trees; where the walks stop to look at
a pair, the smaller tree decides. Order only walks. Truth and equality ask for sizes first, so they
are those of the trees as long as machine words count the items of all vectors in them.
-/

import SolidScript.Proofs.Doubles
import SolidScript.Proofs.Reading
import SolidScript.Proofs.Tallying
import SolidScript.Proofs.Tree.Comparison

namespace SolidScript

open Value (handles)

variable {memory : Memory} {kept : Address → Prop}

namespace Value

/-! ### Truth -/

theorem truth_eq {value : Value} {tree : Tree} (counts : memory.Counts kept)
    (held : ∀ handle ∈ handles [value], kept handle) (denotes : Denotes memory value tree)
    (small : tree.small = true) : value.truth memory = tree.truth := by
  have empty : ∀ items : List Tree, (items.length != 0) = !items.isEmpty := by
    intro items
    cases items <;> rfl
  cases value with
  | vector address =>
    obtain ⟨elements, items, rfl, shows⟩ := denotes_vector_iff.mp denotes
    have few := (Tree.small_vector_iff.mp small).1
    rw [truth, Tree.truth, shows.size_eq counts (held _ List.mem_cons_self) few, empty]
  | embedded address =>
    obtain ⟨elements, items, rfl, shows⟩ := denotes_embedded_iff.mp denotes
    have few := (Tree.small_embedded_iff.mp small).1
    rw [truth, Tree.truth, shows.size_eq counts (held _ List.mem_cons_self) few, empty]
  | _ =>
    cases denotes
    rfl

/-! ### Equality -/

/-- Ranges that are kept in one place are one range, which equals itself. -/
theorem scalarEquals_range {a b : Shared Range} (first : memory.Registers a)
    (second : memory.Registers b) :
    (a.identity == b.identity || a.content.equals b.content) = a.content.equals b.content := by
  by_cases same : a.identity = b.identity
  · rw [Memory.Registers, same] at first
    have content : a.content = b.content := Option.some.inj (first.symm.trans second)
    rw [content, Range.equals_self, Bool.or_true]
  · rw [beq_eq_false_iff_ne.mpr same, Bool.false_or]

theorem scalarEquals_eq {a b : Value} {x y : Tree} (first : Denotes memory a x)
    (second : Denotes memory b y) : a.scalarEquals b = x.scalarEquals y := by
  cases first with
  | range registers =>
    cases second with
    | range others => exact scalarEquals_range registers others
    | _ => rfl
  | _ =>
    cases second with
    | _ => rfl

/-- Two walks are compared pair by pair until one of them is over. -/
theorem agree_ends {xs ys : List Tree}
    (pairs : ∀ x ∈ xs, ∀ a b y, Denotes memory a x → Denotes memory b y →
      ∃ flag, a.equals memory b = some flag)
    {left right : Walk} (first : Follows memory left xs) (second : Follows memory right ys) :
    ∃ flag, left.agree memory right = some flag := by
  induction xs generalizing left right ys with
  | nil =>
    rw [Walk.agree, first.next_nil]
    exact ⟨_, rfl⟩
  | cons x xs inductionHypothesis =>
    obtain ⟨a, left', nextLeft, _, denotesA, restLeft⟩ := first.next_cons
    rw [Walk.agree, nextLeft]
    cases ys with
    | nil =>
      simp only [Option.bind_eq_bind, Option.bind_some, second.next_nil]
      exact ⟨_, rfl⟩
    | cons y ys =>
      obtain ⟨b, right', nextRight, _, denotesB, restRight⟩ := second.next_cons
      obtain ⟨flag, pair⟩ := pairs x List.mem_cons_self a b y denotesA denotesB
      have rest := inductionHypothesis
        (fun x member => pairs x (List.mem_cons_of_mem _ member)) restLeft restRight
      simp only [Option.bind_eq_bind, Option.bind_some, nextRight, pair]
      cases flag with
      | false => exact ⟨_, rfl⟩
      | true => exact rest

/-- Two walks of the same length are equal pair by pair as the items that they follow are. -/
theorem agree_eq
    (closed : ∀ address, kept address → ∀ handle ∈ handles (memory.contents address), kept handle)
    {xs ys : List Tree} (length : xs.length = ys.length)
    (pairs : ∀ x ∈ xs, ∀ y ∈ ys, ∀ a b, (∀ handle ∈ handles [a], kept handle) →
      (∀ handle ∈ handles [b], kept handle) → Denotes memory a x → Denotes memory b y →
        a.equals memory b = some (x.equals y))
    {left right : Walk} (heldLeft : ∀ level ∈ left, kept level.storage)
    (heldRight : ∀ level ∈ right, kept level.storage) (first : Follows memory left xs)
    (second : Follows memory right ys) :
    left.agree memory right = some (Tree.allEqual xs ys) := by
  induction xs generalizing left right ys with
  | nil =>
    have none : ys = [] := List.eq_nil_of_length_eq_zero length.symm
    subst none
    rw [Walk.agree, first.next_nil]
    rfl
  | cons x xs inductionHypothesis =>
    match ys, length with
    | y :: ys, length =>
      obtain ⟨a, left', nextLeft, _, denotesA, restLeft⟩ := first.next_cons
      obtain ⟨b, right', nextRight, _, denotesB, restRight⟩ := second.next_cons
      obtain ⟨keptA, keptLeft⟩ := Memory.next_kept closed nextLeft heldLeft
      obtain ⟨keptB, keptRight⟩ := Memory.next_kept closed nextRight heldRight
      have pair := pairs x List.mem_cons_self y List.mem_cons_self a b keptA keptB denotesA denotesB
      have rest := inductionHypothesis (Nat.succ.inj length)
        (fun x inXs y inYs => pairs x (List.mem_cons_of_mem _ inXs) y (List.mem_cons_of_mem _ inYs))
        keptLeft keptRight restLeft restRight
      rw [Walk.agree, nextLeft]
      simp only [Option.bind_eq_bind, Option.bind_some, nextRight, pair, rest, Tree.allEqual]
      cases x.equals y <;> rfl

theorem allEqual_of_length_ne {xs ys : List Tree} (different : xs.length ≠ ys.length) :
    Tree.allEqual xs ys = false := by
  induction xs generalizing ys with
  | nil =>
    cases ys with
    | nil => contradiction
    | cons => rfl
  | cons x xs inductionHypothesis =>
    cases ys with
    | nil => rfl
    | cons y ys =>
      rw [Tree.allEqual, inductionHypothesis fun same => different (congrArg (· + 1) same),
        Bool.and_false]

/-- Two values that are not both vectors, nor both embedded ones. -/
def Apart (a b : Value) : Prop := a.storage? = none ∨ b.storage? = none ∨ a.kind ≠ b.kind

theorem Apart.symm {a b : Value} (apart : Apart a b) : Apart b a := by
  rcases apart with first | second | different
  · exact Or.inr (Or.inl first)
  · exact Or.inl second
  · exact Or.inr (Or.inr (Ne.symm different))

theorem not_apart_vector (a b : Address) : ¬ Apart (vector a) (vector b) := by
  simp [Apart, storage?, kind]

theorem not_apart_embedded (a b : Address) : ¬ Apart (embedded a) (embedded b) := by
  simp [Apart, storage?, kind]

/-- Both values are vectors, or both are embedded ones, or they are compared at once. -/
theorem apart_or (a b : Value) :
    Apart a b ∨ (∃ x y, a = vector x ∧ b = vector y) ∨ ∃ x y, a = embedded x ∧ b = embedded y := by
  by_cases same : a.kind = b.kind
  · cases a with
    | vector x =>
      cases b with
      | vector y => exact Or.inr (Or.inl ⟨x, y, rfl, rfl⟩)
      | _ => contradiction
    | embedded x =>
      cases b with
      | embedded y => exact Or.inr (Or.inr ⟨x, y, rfl, rfl⟩)
      | _ => contradiction
    | _ => exact Or.inl (Or.inl rfl)
  · exact Or.inl (Or.inr (Or.inr same))

theorem equals_of_apart {a b : Value} (apart : Apart a b) :
    a.equals memory b = some (a.scalarEquals b) := by
  rw [equals]
  · rintro address other rfl rfl
    exact not_apart_vector _ _ apart
  · rintro address other rfl rfl
    exact not_apart_embedded _ _ apart

/-- Trees of such values are not both vectors, nor both embedded ones. -/
theorem Apart.trees {a b : Value} {x y : Tree} (apart : Apart a b) (first : Denotes memory a x)
    (second : Denotes memory b y) :
    (∀ xs ys, x = .vector xs → y = .vector ys → False) ∧
      ∀ xs ys, x = .embedded xs → y = .embedded ys → False := by
  constructor
  · rintro xs ys rfl rfl
    cases first
    cases second
    exact not_apart_vector _ _ apart
  · rintro xs ys rfl rfl
    cases first
    cases second
    exact not_apart_embedded _ _ apart

theorem equals_eq_of_apart {a b : Value} {x y : Tree} (apart : Apart a b)
    (first : Denotes memory a x) (second : Denotes memory b y) :
    a.equals memory b = some (x.equals y) := by
  obtain ⟨notVectors, notEmbedded⟩ := apart.trees first second
  rw [equals_of_apart apart, scalarEquals_eq first second, Tree.equals]
  · exact notVectors
  · exact notEmbedded

/-- Whatever the sizes are, two values are found equal or not. -/
theorem equals_ends {a b : Value} {x y : Tree} (first : Denotes memory a x)
    (second : Denotes memory b y) : ∃ flag, a.equals memory b = some flag := by
  induction x using Tree.induct generalizing a b y with
  | vector xs inductionHypothesis =>
    rcases apart_or a b with apart | ⟨address, other, rfl, rfl⟩ | ⟨address, other, rfl, rfl⟩
    · exact ⟨_, equals_of_apart apart⟩
    · obtain ⟨_, same, walkFirst⟩ := first.follows
      cases same
      obtain ⟨ys, rfl, walkSecond⟩ := second.follows
      rw [equals]
      split
      · exact agree_ends (fun x member a b y => inductionHypothesis x member) walkFirst walkSecond
      · exact ⟨_, rfl⟩
    · cases first
  | embedded xs inductionHypothesis =>
    rcases apart_or a b with apart | ⟨address, other, rfl, rfl⟩ | ⟨address, other, rfl, rfl⟩
    · exact ⟨_, equals_of_apart apart⟩
    · cases first
    · obtain ⟨_, same, walkFirst⟩ := first.follows_embedded
      cases same
      obtain ⟨ys, rfl, walkSecond⟩ := second.follows_embedded
      rw [equals]
      split
      · exact agree_ends (fun x member a b y => inductionHypothesis x member) walkFirst walkSecond
      · exact ⟨_, rfl⟩
  | _ => exact ⟨_, equals_of_apart (Or.inl (by cases first; rfl))⟩

/-- Equal sizes are asked for first. If they are the lengths of two lists, lists of different length
are not equal anyway. -/
theorem equals_eq_of_items
    (closed : ∀ address, kept address → ∀ handle ∈ handles (memory.contents address), kept handle)
    {xs ys : List Tree} {a b : Address} (keptFirst : kept a) (keptSecond : kept b)
    (pairs : ∀ x ∈ xs, ∀ y ∈ ys, ∀ a b, (∀ handle ∈ handles [a], kept handle) →
      (∀ handle ∈ handles [b], kept handle) → Denotes memory a x → Denotes memory b y →
        a.equals memory b = some (x.equals y))
    (first : Follows memory (memory.walk a) xs) (second : Follows memory (memory.walk b) ys) :
    (if xs.length = ys.length then (memory.walk a).agree memory (memory.walk b) else some false) =
      some (Tree.allEqual xs ys) := by
  by_cases length : xs.length = ys.length
  · rw [if_pos length]
    exact agree_eq closed length pairs (List.forall_mem_singleton.mpr keptFirst)
      (List.forall_mem_singleton.mpr keptSecond) first second
  · rw [if_neg length, allEqual_of_length_ne length]

/-- Values are equal exactly if their trees are, as long as words count the items of all vectors in
them. -/
theorem equals_eq (counts : memory.Counts kept) {a b : Value} {x y : Tree}
    (heldFirst : ∀ handle ∈ handles [a], kept handle)
    (heldSecond : ∀ handle ∈ handles [b], kept handle) (first : Denotes memory a x)
    (second : Denotes memory b y) (smallFirst : x.small = true) (smallSecond : y.small = true) :
    a.equals memory b = some (x.equals y) := by
  induction x using Tree.induct generalizing a b y with
  | vector xs inductionHypothesis =>
    rcases apart_or a b with apart | ⟨address, other, rfl, rfl⟩ | ⟨address, other, rfl, rfl⟩
    · exact equals_eq_of_apart apart first second
    · obtain ⟨_, _, same, shows⟩ := denotes_vector_iff.mp first
      cases same
      obtain ⟨_, ys, rfl, otherShows⟩ := denotes_vector_iff.mp second
      obtain ⟨fewFirst, eachFirst⟩ := Tree.small_vector_iff.mp smallFirst
      obtain ⟨fewSecond, eachSecond⟩ := Tree.small_vector_iff.mp smallSecond
      have keptFirst := heldFirst address List.mem_cons_self
      have keptSecond := heldSecond other List.mem_cons_self
      rw [equals, shows.size_eq counts keptFirst fewFirst,
        otherShows.size_eq counts keptSecond fewSecond]
      exact equals_eq_of_items counts.closed keptFirst keptSecond
        (fun x inXs y inYs a b heldA heldB denotesA denotesB => inductionHypothesis x inXs heldA
          heldB denotesA denotesB (eachFirst x inXs) (eachSecond y inYs))
        (.start shows) (.start otherShows)
    · cases first
  | embedded xs inductionHypothesis =>
    rcases apart_or a b with apart | ⟨address, other, rfl, rfl⟩ | ⟨address, other, rfl, rfl⟩
    · exact equals_eq_of_apart apart first second
    · cases first
    · obtain ⟨_, _, same, shows⟩ := denotes_embedded_iff.mp first
      cases same
      obtain ⟨_, ys, rfl, otherShows⟩ := denotes_embedded_iff.mp second
      obtain ⟨fewFirst, eachFirst⟩ := Tree.small_embedded_iff.mp smallFirst
      obtain ⟨fewSecond, eachSecond⟩ := Tree.small_embedded_iff.mp smallSecond
      have keptFirst := heldFirst address List.mem_cons_self
      have keptSecond := heldSecond other List.mem_cons_self
      rw [equals, shows.size_eq counts keptFirst fewFirst,
        otherShows.size_eq counts keptSecond fewSecond]
      exact equals_eq_of_items counts.closed keptFirst keptSecond
        (fun x inXs y inYs a b heldA heldB denotesA denotesB => inductionHypothesis x inXs heldA
          heldB denotesA denotesB (eachFirst x inXs) (eachSecond y inYs))
        (.start shows) (.start otherShows)
  | _ => exact equals_eq_of_apart (Or.inl (by cases first; rfl)) first second

/-! ### Order -/

theorem scalarOrder_eq {a b : Value} {x y : Tree} (first : Denotes memory a x)
    (second : Denotes memory b y) : a.scalarOrder b = x.scalarOrder y := by
  cases first with
  | _ =>
    cases second with
    | _ => rfl

/-- Two walks come one before the other as the items that they follow do. Both directions are
followed at once, since each pair of elements is looked at both ways. -/
theorem precedes_eq {xs ys : List Tree}
    (pairs : ∀ x ∈ xs, ∀ a b y, Denotes memory a x → Denotes memory b y →
      less memory a b = some (x.less y) ∧ less memory b a = some (y.less x))
    {left right : Walk} (first : Follows memory left xs) (second : Follows memory right ys) :
    left.precedes memory right = some (Tree.precedes xs ys) ∧
      right.precedes memory left = some (Tree.precedes ys xs) := by
  induction xs generalizing left right ys with
  | nil =>
    cases ys with
    | nil =>
      rw [Walk.precedes, Walk.precedes, first.next_nil, second.next_nil, Tree.precedes]
      · exact ⟨rfl, rfl⟩
      · intros
        contradiction
    | cons y ys =>
      obtain ⟨b, right', nextRight, _, _, _⟩ := second.next_cons
      rw [Walk.precedes, Walk.precedes, first.next_nil, nextRight, Tree.precedes, Tree.precedes]
      · exact ⟨rfl, rfl⟩
      · intros
        contradiction
      · intros
        contradiction
  | cons x xs inductionHypothesis =>
    obtain ⟨a, left', nextLeft, _, denotesA, restLeft⟩ := first.next_cons
    cases ys with
    | nil =>
      rw [Walk.precedes, Walk.precedes, second.next_nil, nextLeft, Tree.precedes, Tree.precedes]
      · exact ⟨rfl, rfl⟩
      · intros
        contradiction
      · intros
        contradiction
    | cons y ys =>
      obtain ⟨b, right', nextRight, _, denotesB, restRight⟩ := second.next_cons
      obtain ⟨forward, backward⟩ := pairs x List.mem_cons_self a b y denotesA denotesB
      obtain ⟨ahead, behind⟩ := inductionHypothesis
        (fun x member => pairs x (List.mem_cons_of_mem _ member)) restLeft restRight
      constructor
      · rw [Walk.precedes, nextLeft, nextRight, Tree.precedes]
        simp only [Option.bind_eq_bind, Option.bind_some, forward, backward, ahead]
        cases x.less y <;> cases y.less x <;> rfl
      · rw [Walk.precedes, nextLeft, nextRight, Tree.precedes]
        simp only [Option.bind_eq_bind, Option.bind_some, forward, backward, behind]
        cases x.less y <;> cases y.less x <;> rfl

theorem less_eq_of_apart {a b : Value} {x y : Tree} (apart : Apart a b)
    (first : Denotes memory a x) (second : Denotes memory b y) :
    less memory a b = some (x.less y) := by
  obtain ⟨notVectors, notEmbedded⟩ := apart.trees first second
  rw [less, scalarOrder_eq first second, Tree.less]
  · exact notVectors
  · exact notEmbedded
  · rintro address other rfl rfl
    exact not_apart_vector _ _ apart
  · rintro address other rfl rfl
    exact not_apart_embedded _ _ apart

theorem less_eq_both {a b : Value} {x y : Tree} (first : Denotes memory a x)
    (second : Denotes memory b y) :
    less memory a b = some (x.less y) ∧ less memory b a = some (y.less x) := by
  induction x using Tree.induct generalizing a b y with
  | vector xs inductionHypothesis =>
    rcases apart_or a b with apart | ⟨address, other, rfl, rfl⟩ | ⟨address, other, rfl, rfl⟩
    · exact ⟨less_eq_of_apart apart first second, less_eq_of_apart apart.symm second first⟩
    · obtain ⟨_, same, walkFirst⟩ := first.follows
      cases same
      obtain ⟨ys, rfl, walkSecond⟩ := second.follows
      rw [less, less, Tree.less, Tree.less]
      exact precedes_eq (fun x member a b y => inductionHypothesis x member) walkFirst walkSecond
    · cases first
  | embedded xs inductionHypothesis =>
    rcases apart_or a b with apart | ⟨address, other, rfl, rfl⟩ | ⟨address, other, rfl, rfl⟩
    · exact ⟨less_eq_of_apart apart first second, less_eq_of_apart apart.symm second first⟩
    · cases first
    · obtain ⟨_, same, walkFirst⟩ := first.follows_embedded
      cases same
      obtain ⟨ys, rfl, walkSecond⟩ := second.follows_embedded
      rw [less, less, Tree.less, Tree.less]
      exact precedes_eq (fun x member a b y => inductionHypothesis x member) walkFirst walkSecond
  | _ =>
    have apart : Apart a b := Or.inl (by cases first; rfl)
    exact ⟨less_eq_of_apart apart first second, less_eq_of_apart apart.symm second first⟩

theorem relateVectors_eq {relation : Relation} {xs ys : List Tree} {a b : Address}
    (first : Follows memory (memory.walk a) xs) (second : Follows memory (memory.walk b) ys) :
    relateVectors memory relation a b = some (Tree.relateAll relation xs ys) := by
  obtain ⟨forward, backward⟩ := precedes_eq (fun x _ a b y => less_eq_both) first second
  cases relation <;> simp only [relateVectors, Tree.relateAll, forward, backward, Option.map_some]

/-- Values stand in the relations that their trees stand in. -/
theorem relate_eq (relation : Relation) {a b : Value} {x y : Tree} (first : Denotes memory a x)
    (second : Denotes memory b y) : a.relate memory relation b = some (x.relate relation y) := by
  rcases apart_or a b with apart | ⟨address, other, rfl, rfl⟩ | ⟨address, other, rfl, rfl⟩
  · obtain ⟨notVectors, notEmbedded⟩ := apart.trees first second
    rw [relate, scalarOrder_eq first second, Tree.relate]
    · exact notVectors
    · exact notEmbedded
    · rintro address other rfl rfl
      exact not_apart_vector _ _ apart
    · rintro address other rfl rfl
      exact not_apart_embedded _ _ apart
  · obtain ⟨xs, rfl, walkFirst⟩ := first.follows
    obtain ⟨ys, rfl, walkSecond⟩ := second.follows
    exact relateVectors_eq walkFirst walkSecond
  · obtain ⟨xs, rfl, walkFirst⟩ := first.follows_embedded
    obtain ⟨ys, rfl, walkSecond⟩ := second.follows_embedded
    exact relateVectors_eq walkFirst walkSecond

end Value

end SolidScript
