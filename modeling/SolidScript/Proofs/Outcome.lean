/-
This file says how actions on memory end. An action ends with a condition if it comes to an end and
its result and the memory it leaves meet the condition. It leads to a condition if that is so
wherever it comes to an end. Actions are put together by their conditions, so what is proved of a
part of an action is used without opening it again.
-/

import SolidScript.Memory

namespace SolidScript

namespace Action

variable {α β : Type}

/-- The action comes to an end, and its result and the memory it leaves meet the condition. -/
def Ends (action : Action α) (before : Memory) (condition : α → Memory → Prop) : Prop :=
  ∃ result after, action before = some (result, after) ∧ condition result after

namespace Ends

variable {action : Action α} {before : Memory} {condition : α → Memory → Prop}

theorem intro (result : α) (after : Memory) (ends : action before = some (result, after))
    (holds : condition result after) : action.Ends before condition :=
  ⟨result, after, ends, holds⟩

theorem imp (ends : action.Ends before condition) {weaker : α → Memory → Prop}
    (implies : ∀ result after, condition result after → weaker result after) :
    action.Ends before weaker := by
  obtain ⟨result, after, found, holds⟩ := ends
  exact ⟨result, after, found, implies result after holds⟩

/-- What comes second starts from where the first action ends. -/
theorem bind (ends : action.Ends before condition) {next : α → Action β}
    {last : β → Memory → Prop}
    (continues : ∀ result after, condition result after → (next result).Ends after last) :
    (action >>= next : Action β).Ends before last := by
  obtain ⟨result, after, found, holds⟩ := ends
  obtain ⟨final, end', reached, meets⟩ := continues result after holds
  refine ⟨final, end', ?_, meets⟩
  show (action before >>= fun pair => next pair.1 pair.2) = _
  rw [found]
  exact reached

theorem pure {result : α} (holds : condition result before) :
    (Pure.pure result : Action α).Ends before condition :=
  ⟨result, before, rfl, holds⟩

theorem map {image : α → β} {last : β → Memory → Prop}
    (ends : action.Ends before fun result after => last (image result) after) :
    (image <$> action : Action β).Ends before last := by
  obtain ⟨result, after, found, holds⟩ := ends
  refine ⟨image result, after, ?_, holds⟩
  show (action before >>= fun pair => some (image pair.1, pair.2)) = _
  rw [found]
  rfl

/-- What comes after a change of memory starts from the changed memory. -/
theorem modify_bind {change : Memory → Memory} {next : PUnit → Action β}
    {last : β → Memory → Prop} (continues : (next ⟨⟩).Ends (change before) last) :
    (modify change >>= next : Action β).Ends before last :=
  continues

/-- What comes after a look at memory starts from the same memory. -/
theorem get_bind {next : Memory → Action β} {last : β → Memory → Prop}
    (continues : (next before).Ends before last) :
    (MonadState.get >>= next : Action β).Ends before last :=
  continues

theorem read_bind {look : Memory → Option α} {result : α} {next : α → Action β}
    {last : β → Memory → Prop} (found : look before = some result)
    (continues : (next result).Ends before last) :
    (Action.read look >>= next : Action β).Ends before last := by
  obtain ⟨final, after, reached, meets⟩ := continues
  refine ⟨final, after, ?_, meets⟩
  show ((look before >>= fun result => some (result, before)) >>=
    fun pair => next pair.1 pair.2) = _
  rw [found]
  exact reached

theorem modify {change : Memory → Memory} {last : PUnit → Memory → Prop}
    (holds : last ⟨⟩ (change before)) : (modify change : Action PUnit).Ends before last :=
  ⟨⟨⟩, change before, rfl, holds⟩

theorem read {look : Memory → Option α} {result : α} (found : look before = some result)
    (holds : condition result before) : (Action.read look).Ends before condition := by
  refine ⟨result, before, ?_, holds⟩
  show (look before >>= fun result => some (result, before)) = _
  rw [found]
  rfl

end Ends

/-- Wherever the action comes to an end, its result and the memory it leaves meet the condition. -/
def Leads (action : Action α) (before : Memory) (condition : α → Memory → Prop) : Prop :=
  ∀ result after, action before = some (result, after) → condition result after

theorem Ends.and_leads {action : Action α} {before : Memory} {condition other : α → Memory → Prop}
    (ends : action.Ends before condition) (leads : action.Leads before other) :
    action.Ends before fun result after => condition result after ∧ other result after := by
  obtain ⟨result, after, found, holds⟩ := ends
  exact ⟨result, after, found, holds, leads result after found⟩

/-- An action has one end. -/
theorem Ends.leads {action : Action α} {before : Memory} {condition : α → Memory → Prop}
    (ends : action.Ends before condition) : action.Leads before condition := by
  obtain ⟨result, after, found, holds⟩ := ends
  intro other last reached
  cases found.symm.trans reached
  exact holds

/-- Wherever the action starts with the invariant and comes to an end, it leaves the invariant, and
its result meets the condition. -/
def Maintains (action : Action α) (invariant : Memory → Prop) (condition : α → Prop) : Prop :=
  ∀ before, invariant before →
    action.Leads before fun result after => invariant after ∧ condition result

namespace Leads

variable {action : Action α} {before : Memory} {condition : α → Memory → Prop}

theorem imp (leads : action.Leads before condition) {weaker : α → Memory → Prop}
    (implies : ∀ result after, condition result after → weaker result after) :
    action.Leads before weaker :=
  fun result after found => implies result after (leads result after found)

theorem bind (leads : action.Leads before condition) {next : α → Action β}
    {last : β → Memory → Prop}
    (continues : ∀ result after, condition result after → (next result).Leads after last) :
    (action >>= next : Action β).Leads before last := by
  intro final end' reached
  obtain ⟨⟨result, after⟩, found, further⟩ := Option.bind_eq_some_iff.mp
    (show (action before).bind (fun pair => next pair.1 pair.2) = some (final, end') from reached)
  exact continues result after (leads result after found) final end' further

theorem pure {result : α} (holds : condition result before) :
    (Pure.pure result : Action α).Leads before condition :=
  (Ends.pure holds).leads

/-- What comes after a look at memory starts from the same memory. -/
theorem get_bind {next : Memory → Action β} {last : β → Memory → Prop}
    (continues : (next before).Leads before last) :
    (MonadState.get >>= next : Action β).Leads before last :=
  continues

end Leads

namespace Maintains

variable {action : Action α} {invariant : Memory → Prop} {condition : α → Prop}

theorem imp (maintains : action.Maintains invariant condition) {weaker : α → Prop}
    (implies : ∀ result, condition result → weaker result) : action.Maintains invariant weaker :=
  fun before holds => (maintains before holds).imp
    fun result _ kept => ⟨kept.1, implies result kept.2⟩

theorem bind (maintains : action.Maintains invariant condition) {next : α → Action β}
    {last : β → Prop}
    (continues : ∀ result, condition result → (next result).Maintains invariant last) :
    (action >>= next : Action β).Maintains invariant last :=
  fun before holds => (maintains before holds).bind
    fun result after kept => continues result kept.2 after kept.1

theorem pure {result : α} (holds : condition result) :
    (Pure.pure result : Action α).Maintains invariant condition :=
  fun _ kept => Leads.pure ⟨kept, holds⟩

theorem map {image : α → β} {last : β → Prop}
    (maintains : action.Maintains invariant fun result => last (image result)) :
    (image <$> action : Action β).Maintains invariant last := by
  intro before holds final after reached
  obtain ⟨⟨result, _⟩, found, same⟩ := Option.bind_eq_some_iff.mp
    (show (action before).bind (fun pair => some (image pair.1, pair.2)) = some (final, after)
      from reached)
  cases same
  exact maintains before holds result _ found

theorem modify {change : Memory → Memory}
    (keeps : ∀ memory, invariant memory → invariant (change memory)) :
    (modify change : Action PUnit).Maintains invariant fun _ => True :=
  fun before kept => (Ends.modify ⟨keeps before kept, trivial⟩).leads

theorem get_bind {next : Memory → Action β} {last : β → Prop}
    (continues : ∀ memory, (next memory).Maintains invariant last) :
    (MonadState.get >>= next : Action β).Maintains invariant last :=
  fun before holds => Leads.get_bind (continues before before holds)

theorem read (look : Memory → Option α) : (Action.read look).Maintains invariant fun _ => True := by
  intro before holds result after reached
  obtain ⟨found, _, same⟩ := Option.bind_eq_some_iff.mp
    (show (look before).bind (fun result => some (result, before)) = some (result, after)
      from reached)
  cases same
  exact ⟨holds, trivial⟩

end Maintains

end Action

end SolidScript
