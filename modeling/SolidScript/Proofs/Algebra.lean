/-
This file proves the laws of arithmetic on the elements of vectors: a sum does not mind the order of
its operands, a difference is a sum with the negated operand, and negation undoes itself. They hold
of all values, also where two operands differ in shape, since combining and changing leave what has
no meaning undefined in the same places. All that they need of doubles is four identities, which
hold of every double, infinite ones and those that are no number included.
-/

import SolidScript.Proofs.Number.Ordering
import SolidScript.Proofs.Products

namespace SolidScript

open Value (handles)

/-! ### Identities of doubles -/

section Doubles

open Float.Model

theorem unpacked_add_comm (format : Format) (x y : UnpackedFloat) :
    x.add format y = y.add format x := by
  cases x with
  | notANumber => cases y <;> rfl
  | infinity sign =>
    cases y with
    | infinity other => cases sign <;> cases other <;> rfl
    | _ => rfl
  | zero sign =>
    cases y with
    | zero other => cases sign <;> cases other <;> rfl
    | _ => rfl
  | finite sign mantissa exponent =>
    cases y with
    | finite other factor power =>
      show UnpackedFloat.normalize format _ (min exponent power) .positive =
        UnpackedFloat.normalize format _ (min power exponent) .positive
      rw [Int.min_comm, Int.add_comm]
    | _ => rfl

/-- Addition of doubles commutes. -/
theorem float_add_comm (x y : Float) : x + y = y + x :=
  congrArg (fun sum => Float.ofModel (.pack sum))
    (unpacked_add_comm .binary64 x.toModel.unpack y.toModel.unpack)

theorem apply_neg (sign : UnpackedFloat.Sign) (whole : ℤ) :
    (-sign).apply whole = -sign.apply whole := by
  cases sign
  · exact (neg_neg whole).symm
  · rfl

theorem unpacked_sub_eq (format : Format) (x y : UnpackedFloat) :
    x.sub format y = x.add format y.neg := by
  cases x with
  | finite sign mantissa exponent =>
    cases y with
    | finite other factor power =>
      show UnpackedFloat.normalize format (_ - other.apply _) (min exponent power) .positive =
        UnpackedFloat.normalize format (_ + (-other).apply _) (min exponent power) .positive
      rw [apply_neg, ← sub_eq_add_neg]
    | _ => rfl
  | _ => cases y <;> rfl

/-- A difference of doubles is a sum with the negated double. -/
theorem float_sub_eq (x y : Float) : x - y = x + -y := by
  have negated := unpacked_sub_eq .binary64 x.toModel.unpack y.toModel.unpack
  rw [← unpack_neg] at negated
  exact congrArg (fun difference => Float.ofModel (.pack difference)) negated

/-- A double that is negated twice is what it was. -/
theorem float_neg_neg (x : Float) : - -x = x := by
  have twice : (- -x).toModel.unpack = x.toModel.unpack := by
    rw [unpack_neg, unpack_neg]
    cases x.toModel.unpack with
    | notANumber => rfl
    | infinity sign | zero sign | finite sign => cases sign <;> rfl
  have bits := (UnpackedFloat.unpack_inj_of_valid (- -x).toModel.valid x.toModel.valid).mp twice
  exact Float.toBits_inj.mp (UInt64.toBitVec_inj.mp bits)

end Doubles

/-! ### Laws of trees -/

namespace Tree

variable {f g : Float → Float → Float} {image : Float → Float}

theorem changeAll_eq_map (image : Float → Float) (items : List Tree) :
    changeAll image items = items.map (change image) := by
  induction items with
  | nil => rfl
  | cons item items inductionHypothesis => rw [changeAll, List.map_cons, inductionHypothesis]

theorem combineAll_eq_zipWith (f : Float → Float → Float) (xs ys : List Tree) :
    combineAll f xs ys = List.zipWith (combine f) xs ys := by
  induction xs generalizing ys with
  | nil => rfl
  | cons x xs inductionHypothesis =>
    cases ys with
    | nil => rfl
    | cons y ys => rw [combineAll, List.zipWith_cons_cons, inductionHypothesis]

/-- What is neither a number nor a vector combines to nothing. -/
theorem combine_other (f : Float → Float → Float) {a : Tree} (notNumber : a.kind ≠ .number)
    (notVector : a.kind ≠ .vector) (b : Tree) :
    a.combine f b = undefined ∧ b.combine f a = undefined := by
  cases a with
  | number => contradiction
  | vector => contradiction
  | _ => cases b <;> exact ⟨rfl, rfl⟩

theorem combineAll_swap {xs : List Tree}
    (each : ∀ x ∈ xs, ∀ y, x.combine f y = y.combine g x) (ys : List Tree) :
    combineAll f xs ys = combineAll g ys xs := by
  induction xs generalizing ys with
  | nil => cases ys <;> rfl
  | cons x xs inductionHypothesis =>
    cases ys with
    | nil => rfl
    | cons y ys =>
      rw [combineAll, combineAll, each x List.mem_cons_self,
        inductionHypothesis fun x member => each x (List.mem_cons_of_mem _ member)]

/-- Operands are exchanged as their numbers are. -/
theorem combine_swap (swaps : ∀ x y, f x y = g y x) (a b : Tree) :
    a.combine f b = b.combine g a := by
  induction a using induct generalizing b with
  | number x =>
    cases b with
    | number y => exact congrArg number (swaps x y)
    | _ => rfl
  | vector items inductionHypothesis =>
    cases b with
    | vector others => exact congrArg vector (combineAll_swap inductionHypothesis others)
    | _ => rfl
  | _ =>
    rw [(combine_other f Kind.noConfusion Kind.noConfusion b).1,
      (combine_other g Kind.noConfusion Kind.noConfusion b).2]

theorem combineAll_changeAll {xs : List Tree}
    (each : ∀ x ∈ xs, ∀ y, x.combine f y = x.combine g (y.change image)) (ys : List Tree) :
    combineAll f xs ys = combineAll g xs (changeAll image ys) := by
  induction xs generalizing ys with
  | nil => rfl
  | cons x xs inductionHypothesis =>
    cases ys with
    | nil => rfl
    | cons y ys =>
      rw [combineAll, changeAll, combineAll, each x List.mem_cons_self,
        inductionHypothesis fun x member => each x (List.mem_cons_of_mem _ member)]

/-- The second operand may be changed in front. What has no meaning is then undefined before it is
combined, and undefined after it. -/
theorem combine_change (changes : ∀ x y, f x y = g x (image y)) (a b : Tree) :
    a.combine f b = a.combine g (b.change image) := by
  induction a using induct generalizing b with
  | number x =>
    cases b with
    | number y => exact congrArg number (changes x y)
    | _ => rfl
  | vector items inductionHypothesis =>
    cases b with
    | vector others => exact congrArg vector (combineAll_changeAll inductionHypothesis others)
    | _ => rfl
  | _ =>
    rw [(combine_other f Kind.noConfusion Kind.noConfusion b).1,
      (combine_other g Kind.noConfusion Kind.noConfusion _).1]

theorem change_change (image inner : Float → Float) (a : Tree) :
    (a.change inner).change image = a.change (image ∘ inner) := by
  induction a using induct with
  | vector items inductionHypothesis =>
    rw [change, change, change, changeAll_eq_map, changeAll_eq_map, changeAll_eq_map, List.map_map]
    exact congrArg vector (List.map_congr_left inductionHypothesis)
  | _ => rfl

/-- A number on the left multiplies as one on the right. -/
theorem number_times (x : Float) (a : Tree) : (number x).times a = a.times (number x) := by
  cases a with
  | number y => exact congrArg (fun product => (number product, [])) (float_mul_comm x y)
  | _ => rfl

/-- The second tree is the first one with everything undefined in it that is neither a number nor a
vector. -/
inductive KeepsNumbers : Tree → Tree → Prop
  | number (x : Float) : KeepsNumbers (number x) (number x)
  | vector {items kept : List Tree} (each : List.Forall₂ KeepsNumbers items kept) :
    KeepsNumbers (vector items) (vector kept)
  | other {tree : Tree} (notNumber : tree.kind ≠ .number) (notVector : tree.kind ≠ .vector) :
    KeepsNumbers tree undefined

theorem keepsNumbers_change (same : ∀ x, image x = x) (a : Tree) :
    KeepsNumbers a (a.change image) := by
  induction a using induct with
  | number x =>
    rw [change, same]
    exact .number x
  | vector items inductionHypothesis =>
    rw [change, changeAll_eq_map]
    exact .vector (List.forall₂_map_right_iff.mpr (List.forall₂_same.mpr inductionHypothesis))
  | _ => exact .other Kind.noConfusion Kind.noConfusion

/-! ### Places in trees -/

/-- What stands at the end of a way from item to item, which is given by positions. -/
def at? (tree : Tree) : List ℕ → Option Tree
  | [] => some tree
  | position :: way =>
    match tree with
    | vector items => items[position]?.bind fun item => item.at? way
    | _ => none

/-- Combined trees have vectors of the shorter length wherever both operands have vectors. -/
def CutsToShorter (a b combined : Tree) : Prop :=
  ∀ way xs ys, a.at? way = some (vector xs) → b.at? way = some (vector ys) →
    ∃ results, combined.at? way = some (vector results) ∧
      results.length = min xs.length ys.length

theorem at?_combine (f : Float → Float → Float) {a b : Tree} {way : List ℕ} {xs ys : List Tree}
    (left : a.at? way = some (vector xs)) (right : b.at? way = some (vector ys)) :
    (a.combine f b).at? way = some (vector (combineAll f xs ys)) := by
  induction way generalizing a b with
  | nil =>
    cases left
    cases right
    rfl
  | cons position way inductionHypothesis =>
    cases a with
    | vector items =>
      cases b with
      | vector others =>
        obtain ⟨x, atX, left⟩ := Option.bind_eq_some_iff.mp left
        obtain ⟨y, atY, right⟩ := Option.bind_eq_some_iff.mp right
        refine Option.bind_eq_some_iff.mpr ⟨x.combine f y, ?_, inductionHypothesis left right⟩
        rw [combineAll_eq_zipWith, List.getElem?_zipWith, atX, atY]
      | _ => contradiction
    | _ => contradiction

theorem cutsToShorter_combine (f : Float → Float → Float) (a b : Tree) :
    CutsToShorter a b (a.combine f b) := by
  intro way xs ys left right
  refine ⟨_, at?_combine f left right, ?_⟩
  rw [combineAll_eq_zipWith, List.length_zipWith]

end Tree

/-! ### Laws of values -/

/-- What arithmetic on the elements of two values, which denote the given trees, keeps to. -/
structure ElementwiseLaws (memory : Memory) (a b : Value) (x y : Tree) : Prop where
  swapped : ∃ sum, memory.Gives [a, b] (a.plus b) sum ∧ memory.Gives [a, b] (b.plus a) sum
  subtracted : ∃ difference, memory.Gives [a, b] (a.minus b) difference ∧
    memory.Gives [a, b] (b.negate >>= a.plus) difference
  scaled : ∀ n, ∃ product, memory.Gives [a] (a.times (.number n)) product ∧
    memory.Gives [a] ((Value.number n).times a) product
  negatedThrice : ∃ negated, memory.Gives [a] a.negate negated ∧
    memory.Gives [a] (do (← (← a.negate).negate).negate) negated
  negatedTwice : ∃ kept, memory.Gives [a] (do (← a.negate).negate) kept ∧ x.KeepsNumbers kept
  sumCut : ∃ sum, memory.Gives [a, b] (a.plus b) sum ∧ x.CutsToShorter y sum
  differenceCut : ∃ difference, memory.Gives [a, b] (a.minus b) difference ∧
    x.CutsToShorter y difference

namespace Value

variable {sure : Prop} {memory : Memory} {atWork : List Address} {a b : Value} {x y : Tree}

/-- Two values combine to the combined trees. -/
theorem combine_denotes (operate : Float → Float → Float) (sound : Sound sure memory atWork)
    (first : Denotes memory a x) (second : Denotes memory b y) :
    (a.combine operate b).Ends memory fun result after =>
      Denotes after result (x.combine operate y) :=
  (Elementwise.combines operate x memory atWork a b y sound first second).imp
    fun _ _ builds => builds.denotes

theorem change_denotes (image : Float → Float) (sound : Sound sure memory atWork)
    (denotes : Denotes memory a x) :
    (a.change image).Ends memory fun result after => Denotes after result (x.change image) :=
  (Elementwise.changes image x memory atWork a sound denotes).imp fun _ _ builds => builds.denotes

/-- What is done with a changed value goes on with the changed tree. All other values denote what
they denoted. -/
theorem change_bind {image : Float → Float} (sound : Sound sure memory atWork)
    (denotes : Denotes memory a x) {next : Value → Action Value} {expected : Tree}
    (continues : ∀ result after, (∃ atWork, Sound sure after atWork) →
      (∀ value tree, Denotes memory value tree → Denotes after value tree) →
        Denotes after result (x.change image) →
          (next result).Ends after fun last final => Denotes final last expected) :
    (a.change image >>= next).Ends memory fun last final => Denotes final last expected :=
  (Elementwise.changes image x memory atWork a sound denotes).bind fun result after builds =>
    continues result after ⟨_, builds.sound⟩ (fun _ _ => builds.evolves.denotes) builds.denotes

theorem negate_twice (sound : Sound sure memory atWork) (denotes : Denotes memory a x) :
    (do (← a.negate).negate).Ends memory fun result after =>
      Denotes after result (x.change fun n => - -n) := by
  refine change_bind sound denotes fun once after ⟨_, afterSound⟩ _ negated => ?_
  have twice := change_denotes (- ·) afterSound negated
  rw [Tree.change_change] at twice
  exact twice

theorem negate_thrice (sound : Sound sure memory atWork) (denotes : Denotes memory a x) :
    (do (← (← a.negate).negate).negate).Ends memory fun result after =>
      Denotes after result (x.change (- ·)) := by
  refine change_bind sound denotes fun once after ⟨_, afterSound⟩ _ negated => ?_
  have further := negate_twice afterSound negated
  rw [Tree.change_change, show ((fun n : Float => - -n) ∘ fun n => -n) = fun n => -n from
    funext fun n => float_neg_neg (-n)] at further
  exact further

end Value

namespace Workspace

/-- In every workspace that is reached, arithmetic on the elements of supported values keeps to its
laws. -/
theorem arithmetic_elementwise {workspace : Workspace} (reached : workspace.Reached) {a b : Value}
    {x y : Tree} (first : workspace.memory.Offers a x) (second : workspace.memory.Offers b y) :
    ElementwiseLaws workspace.memory a b x y := by
  obtain ⟨_, _, alone, evolvesAlone⟩ :=
    reached.copied (List.forall_mem_singleton.mpr first.supports)
  obtain ⟨_, _, both, evolves⟩ := reached.copied
    (List.forall_mem_cons.mpr ⟨first.supports, List.forall_mem_singleton.mpr second.supports⟩)
  have denotes := evolvesAlone.denotes first.denotes
  have left := evolves.denotes first.denotes
  have right := evolves.denotes second.denotes
  refine
    { swapped := ⟨_, Value.combine_denotes _ both left right, ?_⟩
      subtracted := ⟨_, Value.combine_denotes _ both left right, ?_⟩
      scaled := fun n => ⟨(x.times (.number n)).1, ?_, ?_⟩
      negatedThrice := ⟨_, Value.change_denotes _ alone denotes, Value.negate_thrice alone denotes⟩
      negatedTwice :=
        ⟨_, Value.negate_twice alone denotes, Tree.keepsNumbers_change float_neg_neg x⟩
      sumCut := ⟨_, Value.combine_denotes _ both left right, Tree.cutsToShorter_combine _ x y⟩
      differenceCut :=
        ⟨_, Value.combine_denotes _ both left right, Tree.cutsToShorter_combine _ x y⟩ }
  · rw [Tree.combine_swap float_add_comm]
    exact Value.combine_denotes _ both right left
  · rw [Tree.combine_change float_sub_eq]
    exact Value.change_bind both right fun negated after ⟨_, sound⟩ kept denotes =>
      Value.combine_denotes _ sound (kept _ _ left) denotes
  · exact (Value.times_builds alone denotes (.number n) fun _ _ _ => Value.noConfusion).1.imp
      fun _ _ builds => builds.denotes
  · rw [← Tree.number_times]
    exact (Value.times_builds alone (.number n) denotes fun _ _ => Value.noConfusion).1.imp
      fun _ _ builds => builds.denotes

/-- A vector with a placeholder that hides a truth value, and a shorter one of another shape. -/
theorem arithmetic_elementwise_cut :
    ∃ (workspace : Workspace) (a b : Value), workspace.Reached ∧
      workspace.memory.Offers a
        (.vector [.number 1, .vector [.number 2, .bool true], .number 3]) ∧
      workspace.memory.Offers b (.vector [.number 4, .vector [.number 5]]) ∧
      ElementwiseLaws workspace.memory a b
        (.vector [.number 1, .vector [.number 2, .bool true], .number 3])
        (.vector [.number 4, .vector [.number 5]]) := by
  obtain ⟨_, workspace, a, b, ran, left, right⟩ := exists_offers
    [.create, .append 0 (.number 1),
      .append 0 (.embedded (.vector [.vector [.number 2, .bool true], .number 3])),
      .fill [.number 4, .vector [.number 5]]] ⟨_, _, rfl, rfl⟩
  exact ⟨workspace, a, b, ⟨_, _, ran⟩, left.toOffers, right.toOffers,
    arithmetic_elementwise ⟨_, _, ran⟩ left.toOffers right.toOffers⟩

end Workspace

end SolidScript
