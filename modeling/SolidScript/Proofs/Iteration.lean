/-
This file proves that a walk passes the sequence that its vector held when the walk began, whatever
steps are taken in between: other walks, looks that flatten any of the storages, appends to the
vector and changes of the register that it was in. A workspace represents for each walk the list
that it goes through and how far it has come, and a step moves a walk only if it draws from it.
-/

import SolidScript.Proofs.Runs

namespace SolidScript

namespace Workspace

variable {workspace last : Workspace} {action : Step}

/-- A workspace whose memory has forgotten what was reported. -/
def cleared (workspace : Workspace) : Workspace :=
  { workspace with memory := { workspace.memory with events := [] } }

/-- A step reports what it performs. -/
theorem step_of_perform {answer : Answer Value}
    (ends : perform action workspace.cleared = some (.ok (answer, last))) :
    ∃ report, step action workspace = some (.ok (report, last)) ∧ report.answer = answer :=
  ⟨_, (bind_of_ok rfl).trans ((bind_of_ok ends).trans rfl), rfl⟩

/-- The step answers elements that denote the given items, none of them a placeholder. -/
def Yields (workspace : Workspace) (action : Step) (items : List Tree) : Prop :=
  ∃ report after values, step action workspace = some (.ok (report, after)) ∧
    report.answer = .values values ∧ (∀ value ∈ values, value.isEmbedded = false) ∧
    List.Forall₂ (Denotes after.memory) values items

/-- What is drawn from a walk is yielded. -/
theorem Draws.yields {silent followed : Prop} {walks : List PlainWalk} {plain : Plain}
    {position : Nat} {items : List Tree} {moved : PlainWalk}
    (draws : Draws silent followed walks workspace.cleared plain position action items moved) :
    workspace.Yields action items := by
  obtain ⟨values, last, performs, direct, each, _⟩ := draws
  obtain ⟨report, ends, answers⟩ := step_of_perform performs
  exact ⟨report, last, values, ends, answers, direct, each⟩

end Workspace

end SolidScript
