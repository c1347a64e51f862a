/-
This file says when work on one state refines work on a simpler one that is followed step by step.
The work then always comes to an end. It ends in the fault in which the simpler work ends, or with a
result that corresponds to its result, until the simpler work gives up; from there on it is not
followed any more. The file also says when work upholds an invariant of its state, wherever it comes
to an end without a fault.
-/

import SolidScript.Proofs.Outcome
import SolidScript.Proofs.Plain

namespace SolidScript

variable {σ τ α β γ δ : Type}

/-- What comes second starts from where the first work ends. -/
theorem bind_of_ok {work : StateT σ (ExceptT Fault Option) α}
    {next : α → StateT σ (ExceptT Fault Option) β} {state after : σ} {result : α}
    (ends : work state = some (.ok (result, after))) :
    (work >>= next) state = next result after := by
  show ((work state : ExceptT Fault Option (α × σ)) >>= fun pair => next pair.1 pair.2) = _
  rw [show work state = (some (.ok (result, after)) : ExceptT Fault Option (α × σ)) from ends]
  rfl

/-- Work in sequence ends without a fault only where each part does. -/
theorem bind_eq_some_ok {work : StateT σ (ExceptT Fault Option) α}
    {next : α → StateT σ (ExceptT Fault Option) β} {state last : σ} {result : β}
    (ends : (work >>= next) state = some (.ok (result, last))) :
    ∃ found middle, work state = some (.ok (found, middle)) ∧
      next found middle = some (.ok (result, last)) := by
  have first : ((work state : ExceptT Fault Option (α × σ)) >>=
      fun pair => next pair.1 pair.2) = some (.ok (result, last)) := ends
  cases found : work state with
  | none =>
    rw [show work state = (none : ExceptT Fault Option (α × σ)) from found] at first
    contradiction
  | some outcome =>
    rw [show work state = (some outcome : ExceptT Fault Option (α × σ)) from found] at first
    cases outcome with
    | error fault => exact absurd first (by rintro ⟨⟩)
    | ok pair => exact ⟨pair.1, pair.2, rfl, first⟩

/-- The work comes to an end, in a fault or so that its result and its last state correspond to a
result and a last state of the plain work, which the condition is about. As long as the plain work
is followed, it ends likewise, or gives up. The condition is told whether it is still followed. -/
inductive Refines (followed : Prop) (work : StateT σ (ExceptT Fault Option) α)
    (plain : StateT τ (Except Stop) β) (state : σ) (model : τ)
    (condition : Prop → α → σ → β → τ → Prop) : Prop
  | fault (fault : Fault) (ends : work state = some (.error fault))
      (follows : followed → plain model = .error (.fault fault) ∨ plain model = .error .tooLong)
  | result {still : Prop} {result : α} {after : σ} {meant : β} {last : τ}
      (ends : work state = some (.ok (result, after)))
      (meets : condition still result after meant last)
      (follows : followed →
        plain model = .ok (meant, last) ∧ still ∨ plain model = .error .tooLong)

/-- The work comes to an end, and as the plain work does unless that gives up: in the same fault, or
so that the results and the last states of both meet the condition. -/
def Mirrors (work : StateT σ (ExceptT Fault Option) α) (plain : StateT τ (Except Stop) β)
    (state : σ) (model : τ) (condition : α → σ → β → τ → Prop) : Prop :=
  match plain model with
  | .error (.fault fault) => work state = some (.error fault)
  | .error .tooLong => ∃ outcome, work state = some outcome
  | .ok (meant, last) =>
    ∃ result after, work state = some (.ok (result, after)) ∧ condition result after meant last

namespace Mirrors

variable {work : StateT σ (ExceptT Fault Option) α} {plain : StateT τ (Except Stop) β} {state : σ}
  {model : τ} {condition : α → σ → β → τ → Prop}

/-- Where the plain work ends with a result, the work does. -/
theorem of_follows (mirrors : Mirrors work plain state model condition) {meant : β} {last : τ}
    (follows : plain model = .ok (meant, last)) :
    ∃ result after, work state = some (.ok (result, after)) ∧
      condition result after meant last := by
  rw [Mirrors, follows] at mirrors
  exact mirrors

theorem imp (mirrors : Mirrors work plain state model condition) {weaker : α → σ → β → τ → Prop}
    (implies : ∀ result after meant last, condition result after meant last →
      weaker result after meant last) : Mirrors work plain state model weaker := by
  unfold Mirrors at mirrors ⊢
  match follows : plain model with
  | .error (.fault fault) =>
    rw [follows] at mirrors
    exact mirrors
  | .error .tooLong =>
    rw [follows] at mirrors
    exact mirrors
  | .ok (meant, last) =>
    rw [follows] at mirrors
    obtain ⟨result, after, ends, meets⟩ := mirrors
    exact ⟨result, after, ends, implies _ _ _ _ meets⟩

end Mirrors

namespace Refines

variable {followed : Prop} {work : StateT σ (ExceptT Fault Option) α}
  {plain : StateT τ (Except Stop) β} {state : σ} {model : τ}
  {condition : Prop → α → σ → β → τ → Prop}

theorem of_ok {meant : β} {last : τ} (follows : plain model = .ok (meant, last)) {result : α}
    {after : σ} (ends : work state = some (.ok (result, after)))
    (meets : condition followed result after meant last) :
    Refines followed work plain state model condition :=
  .result ends meets fun holds => .inl ⟨follows, holds⟩

theorem of_error (fault : Fault) (follows : plain model = .error (.fault fault))
    (ends : work state = some (.error fault)) :
    Refines followed work plain state model condition :=
  .fault fault ends fun _ => .inl follows

/-- Where plain work is not followed, anything may stand for its result. -/
theorem of_unfollowed (meant : β) (last : τ) {result : α} {after : σ}
    (ends : work state = some (.ok (result, after)))
    (meets : condition False result after meant last) :
    Refines False work plain state model condition :=
  .result ends meets False.elim

/-- Where the work ends with a result, that meets the condition. -/
theorem of_ends (refines : Refines followed work plain state model condition) {result : α}
    {after : σ} (ends : work state = some (.ok (result, after))) :
    ∃ still meant last, condition still result after meant last := by
  cases refines with
  | fault fault faulty => exact nomatch ends.symm.trans faulty
  | result reached meets =>
    cases ends.symm.trans reached
    exact ⟨_, _, _, meets⟩

/-- The work comes to an end, with a result or a fault. -/
theorem exists_outcome (refines : Refines followed work plain state model condition) :
    ∃ outcome, work state = some outcome := by
  cases refines with
  | fault fault ends => exact ⟨_, ends⟩
  | result ends => exact ⟨_, ends⟩

/-- Work mirrors the plain work that it follows. -/
theorem mirrors (refines : Refines followed work plain state model condition) (holds : followed) :
    Mirrors work plain state model (condition True) := by
  unfold Mirrors
  cases refines with
  | fault fault ends follows =>
    rcases follows holds with same | tooLong
    · rw [same]
      exact ends
    · rw [tooLong]
      exact ⟨_, ends⟩
  | result ends meets follows =>
    rcases follows holds with ⟨same, still⟩ | tooLong
    · rw [same]
      exact ⟨_, _, ends, eq_true still ▸ meets⟩
    · rw [tooLong]
      exact ⟨_, ends⟩

theorem imp (refines : Refines followed work plain state model condition)
    {weaker : Prop → α → σ → β → τ → Prop}
    (implies : ∀ still result after meant last, condition still result after meant last →
      weaker still result after meant last) :
    Refines followed work plain state model weaker := by
  cases refines with
  | fault fault ends follows => exact .fault fault ends follows
  | result ends meets follows => exact .result ends (implies _ _ _ _ _ meets) follows

/-- Work may be replaced by work that ends likewise, and plain work by such that ends likewise
wherever it is followed, or gives up there. -/
theorem of_same (refines : Refines followed work plain state model condition) {other : Prop}
    {others : StateT σ (ExceptT Fault Option) α} {plainOthers : StateT τ (Except Stop) β}
    {start : σ} {plainStart : τ} (ends : others start = work state)
    (follows : other →
      followed ∧ plainOthers plainStart = plain model ∨ plainOthers plainStart = .error .tooLong) :
    Refines other others plainOthers start plainStart condition := by
  cases refines with
  | fault fault faulty agrees =>
    refine .fault fault (ends.trans faulty) fun holds => ?_
    rcases follows holds with ⟨followed, same⟩ | tooLong
    · rw [same]
      exact agrees followed
    · exact .inr tooLong
  | result reached meets agrees =>
    refine .result (ends.trans reached) meets fun holds => ?_
    rcases follows holds with ⟨followed, same⟩ | tooLong
    · rw [same]
      exact agrees followed
    · exact .inr tooLong

/-- Plain work may be replaced by work that does the same where it is followed. -/
theorem replace (refines : Refines followed work plain state model condition)
    {others : StateT τ (Except Stop) β} {other : τ}
    (same : followed → others other = plain model) :
    Refines followed work others state other condition :=
  refines.of_same rfl fun holds => .inl ⟨holds, same holds⟩

/-- What comes second starts from where the first works end. -/
theorem bind (refines : Refines followed work plain state model condition)
    {next : α → StateT σ (ExceptT Fault Option) γ} {plainNext : β → StateT τ (Except Stop) δ}
    {final : Prop → γ → σ → δ → τ → Prop}
    (continues : ∀ still result after meant last, condition still result after meant last →
      Refines still (next result) (plainNext meant) after last final) :
    Refines followed (work >>= next) (plain >>= plainNext) state model final := by
  have refused : ∀ {stop}, plain model = .error stop →
      (plain >>= plainNext : StateT τ (Except Stop) δ) model = .error stop := by
    intro stop ends
    show (plain model >>= fun pair => plainNext pair.1 pair.2) = _
    rw [ends]
    rfl
  cases refines with
  | fault fault ends follows =>
    refine .fault fault ?_ fun holds => (follows holds).imp refused refused
    show ((work state : ExceptT Fault Option (α × σ)) >>= fun pair => next pair.1 pair.2) = _
    rw [show work state = (some (.error fault) : ExceptT Fault Option (α × σ)) from ends]
    rfl
  | @result still result after meant last ends meets follows =>
    have workBind :
        (work >>= next : StateT σ (ExceptT Fault Option) γ) state = next result after :=
      bind_of_ok ends
    have plainBind : plain model = .ok (meant, last) →
        (plain >>= plainNext : StateT τ (Except Stop) δ) model = plainNext meant last := by
      intro same
      show (plain model >>= fun pair => plainNext pair.1 pair.2) = _
      rw [same]
      rfl
    cases continues still result after meant last meets with
    | fault fault further agrees =>
      refine .fault fault (workBind.trans further) fun holds => ?_
      rcases follows holds with ⟨same, holdsStill⟩ | tooLong
      · rw [plainBind same]
        exact agrees holdsStill
      · exact .inr (refused tooLong)
    | result further reached agrees =>
      refine .result (workBind.trans further) reached fun holds => ?_
      rcases follows holds with ⟨same, holdsStill⟩ | tooLong
      · rw [plainBind same]
        exact agrees holdsStill
      · exact .inr (refused tooLong)

theorem pure {result : α} {meant : β} (meets : condition followed result state meant model) :
    Refines followed (Pure.pure result) (Pure.pure meant) state model condition :=
  of_ok rfl rfl meets

/-- A result that is expected as long as the plain work is followed. -/
theorem pure_eq {result : α} {meant expected : β}
    (meets : condition followed result state meant model) (same : followed → meant = expected) :
    Refines followed (Pure.pure result) (Pure.pure expected) state model condition :=
  (pure meets).replace fun holds => by rw [same holds]

theorem throw (fault : Fault) :
    Refines followed (throw fault : StateT σ (ExceptT Fault Option) α) (throw (Stop.fault fault))
      state model condition :=
  of_error fault rfl rfl

/-- What comes after a change of both states starts from the changed states. -/
theorem change_bind {change : σ → σ} {plainChange : τ → τ}
    {next : PUnit → StateT σ (ExceptT Fault Option) γ}
    {plainNext : PUnit → StateT τ (Except Stop) δ} {final : Prop → γ → σ → δ → τ → Prop}
    (continues : Refines followed (next ⟨⟩) (plainNext ⟨⟩) (change state) (plainChange model)
      final) :
    Refines followed (modify change >>= next) (modify plainChange >>= plainNext)
      state model final :=
  continues.of_same rfl fun holds => .inl ⟨holds, rfl⟩

/-- What comes after a look at both states starts from the same states. -/
theorem get_bind {next : σ → StateT σ (ExceptT Fault Option) γ}
    {plainNext : τ → StateT τ (Except Stop) δ} {final : Prop → γ → σ → δ → τ → Prop}
    (continues : Refines followed (next state) (plainNext model) state model final) :
    Refines followed (MonadState.get >>= next) (MonadState.get >>= plainNext) state model final :=
  continues.of_same rfl fun holds => .inl ⟨holds, rfl⟩

/-- Plain work that counts the items of a tree goes on only if the tree is small. -/
theorem counted_bind {tree : Tree} {plainNext : Tree → StateT τ (Except Stop) β}
    (continues : Refines (followed ∧ tree.small = true) work (plainNext tree) state model
      condition) :
    Refines followed work (tree.counted >>= plainNext) state model condition := by
  refine continues.of_same rfl fun holds => ?_
  by_cases small : tree.small = true
  · refine .inl ⟨⟨holds, small⟩, ?_⟩
    rw [Tree.counted, if_pos small]
    rfl
  · refine .inr ?_
    rw [Tree.counted, if_neg small]
    rfl

theorem counted {tree : Tree} {condition : Prop → α → σ → Tree → τ → Prop}
    (refines : Refines (followed ∧ tree.small = true) work (Pure.pure tree) state model
      condition) : Refines followed work tree.counted state model condition := by
  have refines := counted_bind refines
  rwa [bind_pure] at refines

/-! ### Actions that cannot fail -/

section Actions

variable {action : Action α} {before : Memory} {reached : α → Memory → Prop} {model : τ}

/-- What comes after an action that cannot fail starts from where it ends. -/
theorem ends_bind (ends : action.Ends before reached) {next : α → Attempt γ}
    {plain : StateT τ (Except Stop) δ} {final : Prop → γ → Memory → δ → τ → Prop}
    (continues : ∀ result after, reached result after →
      Refines followed (next result) plain after model final) :
    Refines followed (Attempt.ofAction action >>= next) plain before model final := by
  obtain ⟨result, after, found, meets⟩ := ends
  have reached : (Attempt.ofAction action >>= next : Attempt γ) before = next result after := by
    show (ExceptT.mk ((action before).map .ok) >>= fun pair => next pair.1 pair.2) = _
    rw [found]
    rfl
  exact (continues result after meets).of_same reached fun holds => .inl ⟨holds, rfl⟩

/-- An action ends with what is expected, as long as plain work is followed. -/
theorem ends (ends : action.Ends before reached) {expected : β}
    {final : Prop → α → Memory → β → τ → Prop}
    (meets : ∀ result after, reached result after →
      ∃ meant, final followed result after meant model ∧ (followed → meant = expected)) :
    Refines followed (Attempt.ofAction action) (Pure.pure expected) before model final := by
  obtain ⟨result, after, found, holds⟩ := ends
  obtain ⟨meant, meets, same⟩ := meets result after holds
  have ended : Attempt.ofAction action before = some (.ok (result, after)) := by
    show (action before).map _ = _
    rw [found]
    rfl
  exact .result ended meets fun holds => .inl ⟨same holds ▸ rfl, holds⟩

end Actions

end Refines

/-- Wherever the work starts with the invariant and comes to an end without a fault, it leaves the
invariant, and its result meets the condition. -/
def Upholds (work : StateT σ (ExceptT Fault Option) α) (invariant : σ → Prop)
    (condition : α → Prop) : Prop :=
  ∀ before result after, work before = some (.ok (result, after)) → invariant before →
    invariant after ∧ condition result

namespace Upholds

variable {work : StateT σ (ExceptT Fault Option) α} {invariant : σ → Prop} {condition : α → Prop}

theorem bind (upholds : Upholds work invariant condition)
    {next : α → StateT σ (ExceptT Fault Option) β} {last : β → Prop}
    (continues : ∀ result, condition result → Upholds (next result) invariant last) :
    Upholds (work >>= next) invariant last := by
  intro before final after reached holds
  obtain ⟨found, middle, first, second⟩ := bind_eq_some_ok reached
  obtain ⟨kept, meets⟩ := upholds before found middle first holds
  exact continues found meets middle final after second kept

theorem pure {result : α} (holds : condition result) :
    Upholds (Pure.pure result : StateT σ (ExceptT Fault Option) α) invariant condition := by
  rintro before _ _ ⟨⟩ kept
  exact ⟨kept, holds⟩

theorem throw (fault : Fault) :
    Upholds (throw fault : StateT σ (ExceptT Fault Option) α) invariant condition := by
  rintro before _ _ ⟨⟩

theorem modify {change : σ → σ} (keeps : ∀ state, invariant state → invariant (change state)) :
    Upholds (modify change : StateT σ (ExceptT Fault Option) PUnit) invariant fun _ => True := by
  rintro before _ _ ⟨⟩ kept
  exact ⟨keeps before kept, trivial⟩

theorem get_bind {next : σ → StateT σ (ExceptT Fault Option) β} {last : β → Prop}
    (continues : ∀ state, Upholds (next state) invariant last) :
    Upholds (MonadState.get >>= next) invariant last :=
  fun before => continues before before

theorem ofAction {action : Action α} {invariant : Memory → Prop}
    (maintains : action.Maintains invariant condition) :
    Upholds (Attempt.ofAction action) invariant condition := by
  intro before result after reached holds
  have ended : (action before).map Except.ok = some (.ok (result, after)) := reached
  obtain ⟨_, found, same⟩ := Option.map_eq_some_iff.mp ended
  cases same
  exact maintains before holds result after found

end Upholds

end SolidScript
