/-
This file proves that ranges are in a total preorder, whatever their components are. The ranks of
ranges are in a linear order and the order of ranges is read off from them, so the laws are those of
ranks. Ranges of one rank are the empty ones, and those that agree in all that the order looks at.
-/

import SolidScript.Proofs.Coherence
import SolidScript.Proofs.Number.Ordering

namespace SolidScript

namespace Range

/-- A range that is less than another one or ties with it. -/
def AtMost (a b : Range) : Prop := a.order b = some .lt ∨ a.order b = some .eq

/-- Ranges that are both empty, or that have one first value, one step and one number of values. -/
def Agree (a b : Range) : Prop :=
  (a.count = 0 ∧ b.count = 0) ∨
    ((a.first == b.first) = true ∧ (a.step == b.step) = true ∧ a.count = b.count)

/-- The laws of a total preorder on three ranges, and what it tells apart. -/
structure Preordered (a b c : Range) : Prop where
  decided : a.order b ≠ none
  swapped : b.order a = (a.order b).map Ordering.swap
  total : a.AtMost b ∨ b.AtMost a
  reflexive : a.order a = some .eq
  antisymmetric : a.AtMost b → b.AtMost a → a.equals b = true
  transitive : a.AtMost b → b.AtMost c → a.AtMost c
  ties : a.order b = some .eq ↔ a.Agree b
  empty : a.count = 0 → b.count ≠ 0 → a.order b = some .lt

variable {a b c : Range}

theorem equals_iff : a.equals b = true ↔ a.order b = some .eq := by
  rw [equals, beq_iff_eq]

theorem atMost_iff : a.AtMost b ↔ (compare a.rank b.rank).isLE = true := by
  rw [AtMost, order_eq]
  cases compare a.rank b.rank <;> decide

theorem ties_iff_rank : a.order b = some .eq ↔ a.rank = b.rank := by
  rw [order_eq, Option.some.injEq]
  cases a.rank with
  | none =>
    cases b.rank with
    | none => exact iff_of_true rfl rfl
    | some second => exact iff_of_false nofun nofun
  | some first =>
    cases b.rank with
    | none => exact iff_of_false nofun nofun
    | some second =>
      show compare first second = .eq ↔ _
      rw [Option.some.injEq, compare_eq_iff_eq]

theorem rank_of_empty (empty : a.count = 0) : a.rank = none := if_pos empty

theorem rank_of_some (some' : a.count ≠ 0) :
    a.rank = some (toLex (SolidScript.rank a.first, toLex (SolidScript.rank a.step, a.count))) :=
  if_neg some'

/-- Ranges have one rank if they agree. What counts values has components that have ranks. -/
theorem rank_eq_iff : a.rank = b.rank ↔ a.Agree b := by
  unfold Agree
  rcases eq_or_ne a.count 0 with emptyA | someA
  · rcases eq_or_ne b.count 0 with emptyB | someB
    · exact iff_of_true (by rw [rank_of_empty emptyA, rank_of_empty emptyB])
        (Or.inl ⟨emptyA, emptyB⟩)
    · rw [rank_of_empty emptyA, rank_of_some someB, emptyA]
      simp [someB, someB.symm]
  · rcases eq_or_ne b.count 0 with emptyB | someB
    · rw [rank_of_some someA, rank_of_empty emptyB, emptyB]
      simp [someA]
    · obtain ⟨firstA, stepA, _⟩ := isNumber_of_count someA
      obtain ⟨firstB, stepB, _⟩ := isNumber_of_count someB
      rw [rank_of_some someA, rank_of_some someB, beq_iff_rank firstA firstB,
        beq_iff_rank stepA stepB]
      simp [someA]

theorem order_of_empty (empty : a.count = 0) (some' : b.count ≠ 0) : a.order b = some .lt := by
  rw [order_eq, rank_of_empty empty, rank_of_some some']
  rfl

theorem order_swap (a b : Range) : b.order a = (a.order b).map Ordering.swap := by
  rw [order_eq, order_eq]
  exact congrArg some Std.OrientedOrd.eq_swap

theorem atMost_total (a b : Range) : a.AtMost b ∨ b.AtMost a := by
  rw [AtMost, AtMost, order_swap a b, order_eq]
  cases compare a.rank b.rank <;> decide

theorem AtMost.antisymm (before : a.AtMost b) (behind : b.AtMost a) : a.order b = some .eq := by
  rw [atMost_iff] at before behind
  rw [order_eq, Std.OrientedCmp.isLE_antisymm before behind]

theorem AtMost.trans (first : a.AtMost b) (second : b.AtMost c) : a.AtMost c := by
  rw [atMost_iff] at first second ⊢
  exact Std.TransCmp.isLE_trans first second

theorem preordered (a b c : Range) : Preordered a b c where
  decided := by
    rw [order_eq]
    exact Option.some_ne_none _
  swapped := order_swap a b
  total := atMost_total a b
  reflexive := order_self a
  antisymmetric := fun before behind => equals_iff.mpr (before.antisymm behind)
  transitive := AtMost.trans
  ties := ties_iff_rank.trans rank_eq_iff
  empty := order_of_empty

end Range

/-- Values that are ranges are equal if their ranges tie, also where they are kept in one place. -/
theorem Value.equals_range {memory : Memory} {a b : Shared Range} {x y : Tree}
    (first : Denotes memory (.range a) x) (second : Denotes memory (.range b) y) :
    (Value.range a).equals memory (.range b) = some (a.content.order b.content == some .eq) := by
  rw [equals_eq_of_apart (Or.inl rfl) first second]
  cases first
  cases second
  rw [Tree.equals]
  · rfl
  · intros
    contradiction
  · intros
    contradiction

/-- Ranges are in a total preorder, and where a workspace leads to two of them they are equal as
values if they tie. -/
theorem ranges_preordered :
    (∀ a b c : Range, Range.Preordered a b c) ∧
      ∀ workspace : Workspace, workspace.Reached → ∀ a b : Shared Range,
        workspace.Reaches (.range a) → workspace.Reaches (.range b) →
          (Value.range a).equals workspace.memory (.range b) =
            some (a.content.order b.content == some .eq) := by
  refine ⟨Range.preordered, fun workspace reached a b first second => ?_⟩
  obtain ⟨followed, plain, represents⟩ := reached.represents
  obtain ⟨x, denotesFirst⟩ := (first.denotes represents).1
  obtain ⟨y, denotesSecond⟩ := (second.denotes represents).1
  exact Value.equals_range denotesFirst denotesSecond

/-- A range with a step that is no number, kept twice in one place, and one that leads away from its
bound. All are empty. -/
theorem ranges_preordered_shared :
    ∃ workspace : Workspace, workspace.Reached ∧
      workspace.values =
        [.range ⟨0, ⟨0, 0 / 0, 1⟩⟩, .range ⟨0, ⟨0, 0 / 0, 1⟩⟩, .range ⟨1, ⟨1, 1, 0⟩⟩] ∧
      (Value.range ⟨0, ⟨0, 0 / 0, 1⟩⟩).equals workspace.memory (.range ⟨0, ⟨0, 0 / 0, 1⟩⟩) =
        some ((Range.mk 0 (0 / 0) 1).order ⟨0, 0 / 0, 1⟩ == some .eq) ∧
      (Value.range ⟨0, ⟨0, 0 / 0, 1⟩⟩).equals workspace.memory (.range ⟨1, ⟨1, 1, 0⟩⟩) =
        some ((Range.mk 0 (0 / 0) 1).order ⟨1, 1, 0⟩ == some .eq) := by
  have reached : ∃ reports workspace,
      Workspace.run [.keep (.range ⟨0, 0 / 0, 1⟩), .keep (.earlier 0), .keep (.range ⟨1, 1, 0⟩)]
          .empty = some (.ok (reports, workspace)) ∧
        workspace.values =
          [.range ⟨0, ⟨0, 0 / 0, 1⟩⟩, .range ⟨0, ⟨0, 0 / 0, 1⟩⟩, .range ⟨1, ⟨1, 1, 0⟩⟩] :=
    ⟨_, _, rfl, rfl⟩
  obtain ⟨reports, workspace, ran, values⟩ := reached
  have first : workspace.Reaches (.range ⟨0, ⟨0, 0 / 0, 1⟩⟩) :=
    .value (values ▸ List.mem_cons_self)
  have second : workspace.Reaches (.range ⟨1, ⟨1, 1, 0⟩⟩) :=
    .value (values ▸ List.mem_cons_of_mem _ (List.mem_cons_of_mem _ List.mem_cons_self))
  have equal := ranges_preordered.2 workspace ⟨_, _, ran⟩
  exact ⟨workspace, ⟨_, _, ran⟩, values, equal _ _ first first, equal _ _ first second⟩

end SolidScript
