/-
This file accounts for every flattening. Looking at values changes the storages that were there in
one way only: some of them, those that were accessed by position, are flattened in turn, each at
most once, and the report names their sizes in that order. Walking, writing and comparing flatten
nothing, and neither does appending.
-/

import SolidScript.Proofs.Silence
import SolidScript.Proofs.Supporting
import SolidScript.Proofs.Tracing

namespace SolidScript

open Value (handles)

namespace Memory

/-- All that became of the storages of the first memory is that some were flattened, in the given
order: they had placeholders and now store the elements that they listed, and their sizes were
reported. These are the sizes that they had before, as arrays are no longer than arrays can be. -/
structure Recorded (before : Memory) (rewritten : List Address) (after : Memory) : Prop where
  once : rewritten.Nodup
  order : Rewrites before.storages.size before rewritten after
  spliced : ∀ address ∈ rewritten, before.excess address ≠ 0
  elements : ∀ address ∈ rewritten, before.list address = some (after.storage address).elements
  flat : ∀ address ∈ rewritten, after.excess address = 0 ∧
    ∀ value ∈ after.contents address, value.isEmbedded = false
  spared : ∀ address < before.storages.size, address ∉ rewritten →
    after.contents address = before.contents address ∧ after.excess address = before.excess address
  traced : after.flattenings = before.flattenings ++ rewritten.map after.size
  grown : Grown before after
  sizes : after.Fits → ∀ address ∈ rewritten, after.size address = before.size address

/-- Every flattening since the first memory is recorded, and new storages are flat. If only walks
were made there is none. -/
def Looked (walked : Bool) (before after : Memory) : Prop :=
  after.Shaped before.storages.size Memory.flat ∧
    ∃ rewritten, Recorded before rewritten after ∧ (walked = true → rewritten = [])

variable {before middle after : Memory} {rewritten : List Address} {address : Address}

/-- A storage that was flattened stores what it listed, as no meaning has changed. -/
theorem Rewrites.recorded {warned : List Warning} {lent : List Address}
    (rewrites : Rewrites before.storages.size before rewritten after)
    (evolves : Evolves warned lent before after) : Recorded before rewritten after := by
  have done := rewrites.done
  have stands : ∀ address ∈ rewritten,
      Expands before (before.contents address) (after.contents address) := by
    intro address member
    cases evolves.carries.relaid address (done.old address member) with
    | same _ excess =>
      exact absurd (excess.symm.trans (done.flat address member)) (done.spliced address member)
    | flattened _ _ expands => exact expands
  refine ⟨done.once, rewrites, done.spliced, fun address member => ?_, fun address member => ?_,
    done.spared, done.traced, evolves.steady.grown, fun fits address member => ?_⟩
  · rw [list_eq (done.old address member) (stands address member)]
    rfl
  · exact ⟨done.flat address member, (stands address member).direct⟩
  · exact evolves.sizes fits address (done.old address member)

theorem Recorded.of_spares (spares : Spares before.storages.size before after) :
    Recorded before [] after where
  once := List.nodup_nil
  order := .spares .none spares
  spliced _ member := absurd member List.not_mem_nil
  elements _ member := absurd member List.not_mem_nil
  flat _ member := absurd member List.not_mem_nil
  spared address below _ := ⟨spares.contents below, spares.excess address below⟩
  traced := by rw [List.map_nil, List.append_nil, spares.flattenings]
  grown address := by
    rcases Nat.lt_or_ge address before.storages.size with inside | outside
    · rw [spares.contents inside]
    · rw [contents, storage_of_outside _ _ outside]
      exact Nat.zero_le _
  sizes _ _ member := absurd member List.not_mem_nil

theorem Recorded.alike (recorded : Recorded before rewritten middle)
    (alike : Alike middle after) : Recorded before rewritten after := by
  have spares : Spares before.storages.size middle after := .of_alike alike
  have order : Rewrites before.storages.size before rewritten after :=
    .spares recorded.order spares
  have old := recorded.order.done.old
  have grown : Grown middle after := fun address =>
    Nat.le_of_eq (congrArg Array.size (alike.elements address).symm)
  refine ⟨recorded.once, order, recorded.spliced, fun address member => ?_,
    fun address member => ?_, order.done.spared, order.done.traced,
    fun address => Nat.le_trans (recorded.grown address) (grown address),
    fun fits address member => ?_⟩
  · rw [recorded.elements address member, spares.elements address (old address member)]
  · rw [spares.excess address (old address member), spares.contents (old address member)]
    exact recorded.flat address member
  · rw [spares.size (old address member)]
    exact recorded.sizes (fits.of_grown grown) address member

theorem Looked.alike {walked : Bool} (looked : Looked walked before middle)
    (alike : Alike middle after) : Looked walked before after := by
  obtain ⟨new, rewritten, recorded, none⟩ := looked
  exact ⟨new.alike alike, rewritten, recorded.alike alike, none⟩

/-- Memory that gained flat vectors since a copy of the first one was walked. -/
theorem Looked.of_adds (copied : Alike before middle) (adds : Adds middle after) :
    Looked true before after := by
  have spares : Spares before.storages.size before after :=
    (Spares.of_alike copied).trans (copied.length ▸ adds.2)
  exact ⟨copied.length ▸ adds.1, [], .of_spares spares, fun _ => rfl⟩

/-- An action that flattens at most is recorded, if it changes no meaning. -/
theorem looked_of_traced {α : Type} {action : Action α} (copied : Alike before middle)
    (traced : action.Maintains (Traced before.storages.size before) fun _ => True)
    {lent : List Address}
    (ends : action.Ends middle fun _ after => ∃ warned, Evolves warned lent before after) :
    action.Ends middle fun _ after => Looked false before after := by
  have started := (admits_traced (Nat.le_refl _)).alike (traced_refl before) copied
  refine (ends.and_leads (traced middle started)).imp ?_
  rintro _ after ⟨⟨_, evolves⟩, ⟨new, rewritten, rewrites⟩, _⟩
  exact ⟨new, rewritten, rewrites.recorded evolves, fun walked => absurd walked Bool.false_ne_true⟩

end Memory

/-! ### Operations -/

namespace Operation

/-- Operations that walk through their operands, if anything. The others access vectors by position:
the product of two vectors, and access to elements and components. -/
def walks : Operation Value → Bool
  | binary .multiply (.vector _) (.vector _) => false
  | index .. | indexAt .. | pair .. | triple .. | tripleOr .. => false
  | _ => true

open Memory

variable {sure : Prop} {atWork : List Address} {memory start : Memory}

theorem perform_traced (operation : Operation Value) (accesses : operation.walks = false) :
    operation.perform.Maintains (Traced start.storages.size start) fun _ => True := by
  have inside := Nat.le_refl start.storages.size
  have component : ∀ {a : Value} {work : List Value → Option (List Float)},
      (a.readingElements work).Maintains (Traced start.storages.size start) fun _ => True :=
    Value.readingElements_traced inside _ _
  cases operation with
  | binary operator a b =>
    unfold walks at accesses
    split at accesses
    case h_1 x y product =>
      cases product
      exact .map (Product.ofVectors_traced inside x y)
    all_goals contradiction
  | index a position => exact .map (Value.index_traced inside a position)
  | indexAt a position => exact .map (Value.elementAt_traced inside a _)
  | pair a finite => exact .map component
  | triple a => exact .map component
  | tripleOr a third => exact .map (Value.tripleOr?_traced inside a third)
  | _ => contradiction

/-- A value that was built is answered, and nothing was flattened for it. -/
theorem adds_of_builds {action : Action Value} {tree : Tree}
    (ends : action.Ends memory (Builds sure memory atWork tree)) :
    (Answer.value <$> action : Action (Answer Value)).Leads memory fun _ after =>
      Adds memory after := by
  have mapped : (Answer.value <$> action : Action (Answer Value)).Ends memory
      fun _ after => Adds memory after := .map (ends.imp fun _ _ builds => builds.adds)
  exact mapped.leads

theorem adds_of_read {α : Type} (look : Memory → Option α) (answer : α → Answer Value) :
    (answer <$> Action.read look : Action (Answer Value)).Leads memory fun _ after =>
      Adds memory after := by
  have reads : (answer <$> Action.read look : Action (Answer Value)).Maintains (Adds memory)
      fun _ => True := .map (.read look)
  exact (reads memory (.refl memory)).imp fun _ _ holds => holds.1

theorem perform_adds (operation : Operation (Value × Tree)) (sound : Sound sure memory atWork)
    (held : ∀ pair ∈ operation.operands, ∀ handle ∈ handles [pair.1], handle ∈ atWork)
    (denotes : ∀ pair ∈ operation.operands, Denotes memory pair.1 pair.2)
    (walked : (operation.map Prod.fst).walks = true) :
    (operation.map Prod.fst).perform.Leads memory fun _ after => Adds memory after := by
  cases operation with
  | binary operator a b =>
    have first := denotes a List.mem_cons_self
    have second := denotes b (List.mem_cons_of_mem _ List.mem_cons_self)
    by_cases product : operator = .multiply
    · subst product
      refine adds_of_builds (Value.times_builds sound first second fun m n left right => ?_).1
      have same : (binary .multiply a b).map Prod.fst =
          (binary .multiply (.vector m) (.vector n) : Operation Value) :=
        congrArg₂ (binary .multiply) left right
      rw [same] at walked
      contradiction
    · obtain ⟨_, builds, _⟩ := operator.evaluate_builds product sound
        (held a List.mem_cons_self) (held b (List.mem_cons_of_mem _ List.mem_cons_self))
        first second
      exact adds_of_builds builds
  | unary operator a =>
    obtain ⟨_, builds, _⟩ := operator.evaluate_builds sound (held a List.mem_cons_self)
      (denotes a List.mem_cons_self)
    exact adds_of_builds builds
  | characters a =>
    have spelt : (Answer.text <$> a.1.characters : Action (Answer Value)).Ends memory
        fun _ after => Adds memory after :=
      .map ((Value.characters_ends sound (denotes a List.mem_cons_self)).imp
        fun _ _ spells => spells.adds)
    exact spelt.leads
  | compare => exact adds_of_read _ _
  | truth => exact adds_of_read _ _
  | «show» => exact adds_of_read _ _
  | echo => exact adds_of_read _ _
  | write => exact adds_of_read _ _
  | inspect => exact adds_of_read _ _
  | _ => contradiction

/-- Whatever an operation flattens is recorded, and it flattens nothing if it walks. -/
theorem perform_looked (operation : Operation (Value × Tree)) {start : Memory}
    (copied : Alike start memory) (kept : Evolves [] [] start memory)
    (sound : Sound sure memory atWork)
    (held : ∀ pair ∈ operation.operands, ∀ handle ∈ handles [pair.1], handle ∈ atWork)
    (denotes : ∀ pair ∈ operation.operands, Denotes memory pair.1 pair.2) :
    (operation.map Prod.fst).perform.Leads memory fun _ after =>
      Looked (operation.map Prod.fst).walks start after := by
  cases walked : (operation.map Prod.fst).walks with
  | true =>
    exact (operation.perform_adds sound held denotes walked).imp
      fun _ _ adds => .of_adds copied adds
  | false =>
    have evolved : (operation.map Prod.fst).perform.Ends memory fun _ after =>
        ∃ warned, Evolves warned [] start after :=
      (operation.perform_ends sound held denotes).imp
        fun _ _ ⟨_, performed, _⟩ => ⟨_, kept.trans performed.evolves⟩
    exact (looked_of_traced copied (perform_traced _ walked) evolved).leads

end Operation

/-! ### Access by position -/

namespace Memory

variable {sure : Prop} {atWork : List Address} {start memory : Memory} {address : Address}

theorem flatten_looked (copied : Alike start memory) (kept : Evolves [] [] start memory)
    (sound : Sound sure memory atWork) (member : address ∈ atWork) :
    (flatten address).Ends memory fun _ after => Looked false start after :=
  looked_of_traced copied (flatten_traced address)
    ((flatten_ends sound (sound.owned.alive_of_mem member)).imp
      fun _ _ ends => ⟨_, kept.trans ends.2.1⟩)

theorem element_looked (copied : Alike start memory) (kept : Evolves [] [] start memory)
    (sound : Sound sure memory atWork) (member : address ∈ atWork) (position : Nat) :
    (element address position).Ends memory fun _ after => Looked false start after :=
  looked_of_traced copied (element_traced (Nat.le_refl _) address position)
    ((element_ends sound member position).imp fun _ _ ends => ⟨_, kept.trans ends.2.1⟩)

theorem reading_looked (copied : Alike start memory) (kept : Evolves [] [] start memory)
    (sound : Sound sure memory atWork) (member : address ∈ atWork) :
    (reading address fun elements => return elements).Ends memory
      fun _ after => Looked false start after := by
  have ends := elements_ends sound member
  exact looked_of_traced copied (reading_traced (Nat.le_refl _) address fun _ => .pure trivial)
    (ends.imp fun _ _ ends => ⟨_, kept.trans ends.2.1⟩)

theorem Looked.weaken {walked : Bool} {before after : Memory}
    (looked : Looked walked before after) :
    Looked false before after := by
  obtain ⟨new, rewritten, recorded, _⟩ := looked
  exact ⟨new, rewritten, recorded, fun walked => absurd walked Bool.false_ne_true⟩

end Memory

/-- The memory at the start of a step, of which nothing is reported yet. -/
def Memory.unreported (memory : Memory) : Memory := { memory with events := [] }

/-- The sizes of the vectors that were flattened, as reported. -/
def Report.flattenings (report : Report) : List Nat := report.events.filterMap Event.flattened?

namespace Workspace

open Memory

variable {silent followed : Prop} {walks : List PlainWalk} {workspace : Workspace} {plain : Plain}

/-! ### Steps that may flatten -/

theorem flatten_looks (represents : Represents silent followed walks [] workspace plain)
    (position : Nat) :
    Refines followed (perform (.flatten position)) (Plain.perform (.flatten position)) workspace
      plain fun _ _ last _ _ => Looked false workspace.memory last.memory := by
  refine (register_refines represents position).bind ?_
  rintro _ address _ items _ ⟨rfl, rfl, rfl, found, _⟩
  have sound := represents.sound
  exact .memory_bind (Memory.flatten_looked (.of_storages rfl rfl) (.refl sound) sound
    (mem_roots found)) fun _ after looked => .pure looked

theorem element_looks (represents : Represents silent followed walks [] workspace plain)
    (position index : Nat) :
    Refines followed (perform (.element position index)) (Plain.perform (.element position index))
      workspace plain fun _ _ last _ _ => Looked false workspace.memory last.memory := by
  refine (register_refines represents position).bind ?_
  rintro _ address _ items _ ⟨rfl, rfl, rfl, found, _⟩
  have sound := represents.sound
  refine .memory_bind (Memory.element_looked (.of_storages rfl rfl) (.refl sound) sound
    (mem_roots found) index) fun element after looked => ?_
  exact .modify_memory_bind (.pure (looked.alike (after.reowned_release [element]).alike))

theorem slice_looks (represents : Represents silent followed walks [] workspace plain)
    (position : Nat) :
    Refines followed (perform (.slice position)) (Plain.perform (.slice position)) workspace plain
      fun _ _ last _ _ => Looked false workspace.memory last.memory := by
  refine (register_refines represents position).bind ?_
  rintro _ address _ items _ ⟨rfl, rfl, rfl, found, _⟩
  have sound := represents.sound
  exact .memory_bind (Memory.reading_looked (.of_storages rfl rfl) (.refl sound) sound
    (mem_roots found)) fun _ after looked => .pure looked

/-- What the answer of an operation is, is of no matter here: no plain lists are followed. -/
theorem operate_looks (represents : Represents silent False walks [] workspace plain)
    (operation : Operation Nat) :
    Refines False (perform (.operate operation)) (Plain.perform (.operate operation)) workspace
      plain fun _ _ last _ _ => Looked false workspace.memory last.memory := by
  refine (operands_refine represents operation).bind ?_
  rintro _ _ _ _ _ ⟨rfl, rfl, rfl, pairs, rfl, rfl, found⟩
  have sound := represents.sound
  have held : ∀ pair ∈ pairs.operands, ∀ handle ∈ handles [pair.1], handle ∈ workspace.roots := by
    intro pair member handle inValue
    have one := List.singleton_sublist.mpr (found pair member).1
    exact List.mem_append_right _ (List.mem_append_right _ ((handles_sublist one).subset inValue))
  have denotes : ∀ pair ∈ pairs.operands, Denotes workspace.memory pair.1 pair.2 :=
    fun pair member => (found pair member).2.2
  have looks := pairs.perform_looked (.of_storages rfl rfl) (.refl sound) sound held denotes
  have ends := (pairs.perform_ends sound held denotes).and_leads looks
  refine .memory_bind ends fun answer after ⟨_, looked⟩ => ?_
  have meets := looked.weaken
  cases answer <;> exact .of_unfollowed none plain rfl meets

theorem perform_looks (represents : Represents silent False walks [] workspace plain)
    {action : Step} (flattens : action.flattens = true) :
    Refines False (perform action) (Plain.perform action) workspace plain
      fun _ _ last _ _ => Looked false workspace.memory last.memory := by
  cases action with
  | flatten position => exact flatten_looks represents position
  | element position index => exact element_looks represents position index
  | slice position => exact slice_looks represents position
  | operate operation => exact operate_looks represents operation
  | _ => contradiction

/-! ### Every step -/

/-- A step that does not append changes the storages that were there by the recorded flattenings
alone, and reports these and no others. -/
structure Stepped (action : Step) (workspace : Workspace) (report : Report)
    (rewritten : List Address) (next : Workspace) : Prop where
  taken : step action workspace = some (.ok (report, next))
  recorded : Recorded workspace.memory.unreported rewritten next.memory
  reported : report.flattenings = rewritten.map workspace.memory.size
  silent : action.flattens = false → rewritten = []

variable {action : Step} {report : Report} {next : Workspace}

/-- What is reported since the start of a step is what the step reports. -/
theorem step_eq_some (taken : step action workspace = some (.ok (report, next))) :
    ∃ answer, perform action { workspace with memory := workspace.memory.unreported } =
        some (.ok (answer, next)) ∧ report.flattenings = next.memory.flattenings := by
  obtain ⟨_, cleared, clears, further⟩ := bind_eq_some_ok taken
  cases clears
  obtain ⟨answer, middle, performs, reports⟩ := bind_eq_some_ok further
  cases reports
  exact ⟨answer, performs, List.filterMap_reverse⟩

/-- A step that does not access vectors by position reports no flattening, however large the vectors
are that it embeds, if no array becomes longer than arrays can be. -/
theorem silent_of_step (represents : Represents silent followed walks [] workspace plain)
    (calm : action.flattens = false) (taken : step action workspace = some (.ok (report, next)))
    (fits : next.memory.Fits) : report.flattenings = [] := by
  obtain ⟨_, _, reported⟩ := step_eq_some taken
  obtain ⟨_, _, _, reports⟩ := (step_refines represents action).of_ends taken
  exact reported.trans (reports.represents.traced calm fits)

/-- What a step that accesses vectors by position flattens is recorded. -/
theorem looked_of_step (represents : Represents silent followed walks [] workspace plain)
    (flattens : action.flattens = true)
    (taken : step action workspace = some (.ok (report, next))) :
    Looked false workspace.memory.unreported next.memory := by
  obtain ⟨answer, performs, _⟩ := step_eq_some taken
  have looks := perform_looks ((represents_cleared represents).mono False.elim) flattens
  obtain ⟨_, _, _, looked⟩ := looks.of_ends performs
  exact looked

/-- Any other step that does not append spares the storages that were there. -/
theorem spares_of_step (represents : Represents silent followed walks [] workspace plain)
    (calm : action.flattens = false) (apart : action.appends = false)
    (taken : step action workspace = some (.ok (report, next))) (fits : next.memory.Fits) :
    Spares workspace.memory.storages.size workspace.memory.unreported next.memory := by
  obtain ⟨answer, performs, reported⟩ := step_eq_some taken
  have upholds : Upholds (perform action)
      (Meets (Kept workspace.memory.storages.size workspace.memory.unreported)) fun _ => True :=
    perform_upholds calm fun appends => absurd (appends.symm.trans apart) Bool.noConfusion
  obtain ⟨⟨_, _, spared⟩, _⟩ := upholds _ _ _ performs (kept_refl (Nat.le_refl _))
  exact spared (reported.symm.trans (silent_of_step represents calm taken fits))

theorem stepped_of_step (represents : Represents silent followed walks [] workspace plain)
    (apart : action.appends = false)
    (taken : step action workspace = some (.ok (report, next))) (fits : next.memory.Fits) :
    ∃ rewritten, Stepped action workspace report rewritten next := by
  obtain ⟨_, _, reported⟩ := step_eq_some taken
  have counted : ∀ {rewritten}, Recorded workspace.memory.unreported rewritten next.memory →
      report.flattenings = rewritten.map workspace.memory.size := by
    intro rewritten recorded
    exact (reported.trans recorded.traced).trans
      (List.map_congr_left (recorded.sizes fits))
  cases flattens : action.flattens with
  | true =>
    obtain ⟨_, rewritten, recorded, _⟩ := looked_of_step represents flattens taken
    exact ⟨rewritten, taken, recorded, counted recorded,
      fun silent => absurd (flattens.symm.trans silent) Bool.noConfusion⟩
  | false =>
    have recorded : Recorded workspace.memory.unreported [] next.memory :=
      .of_spares (spares_of_step represents flattens apart taken fits)
    exact ⟨[], taken, recorded, counted recorded, fun _ => rfl⟩

/-! ### Runs without appending -/

/-- A run of steps that do not append, with the storages that each of them flattens. -/
inductive Trail : Workspace → List Step → List Report → List (List Address) → Workspace → Prop
  | nil (workspace : Workspace) : Trail workspace [] [] [] workspace
  | cons {workspace next last : Workspace} {action : Step} {actions : List Step} {report : Report}
      {reports : List Report} {rewritten : List Address} {later : List (List Address)}
      (stepped : Stepped action workspace report rewritten next)
      (trail : Trail next actions reports later last) :
      Trail workspace (action :: actions) (report :: reports) (rewritten :: later) last

/-- As no step makes a storage shorter, the arrays of all workspaces of the run have the lengths of
arrays if those of the last one do. -/
theorem trail_of_run (represents : Represents silent followed walks [] workspace plain)
    {steps : List Step} (apart : ∀ action ∈ steps, action.appends = false)
    {reports : List Report} {last : Workspace}
    (ran : run steps workspace = some (.ok (reports, last))) (fits : last.memory.Fits) :
    (∃ rewritten, Trail workspace steps reports rewritten last) ∧ workspace.memory.Fits := by
  induction steps generalizing silent followed walks workspace plain reports with
  | nil =>
    cases ran
    exact ⟨⟨[], .nil _⟩, fits⟩
  | cons action actions inductionHypothesis =>
    obtain ⟨report, next, taken, further⟩ := bind_eq_some_ok ran
    obtain ⟨others, final, runs, finishes⟩ := bind_eq_some_ok further
    cases finishes
    obtain ⟨_, _, _, stepped⟩ := (step_refines represents action).of_ends taken
    obtain ⟨⟨later, trail⟩, nextFits⟩ := inductionHypothesis stepped.represents
      (fun action member => apart action (List.mem_cons_of_mem _ member)) runs
    obtain ⟨rewritten, first⟩ := stepped_of_step represents (apart action List.mem_cons_self) taken
      nextFits
    exact ⟨⟨rewritten :: later, .cons first trail⟩, nextFits.of_grown first.recorded.grown⟩

/-- A storage that is flat is not flattened any more, as flat storages stay flat. -/
theorem Trail.spliced {steps : List Step} {reports : List Report} {rewritten : List (List Address)}
    {last : Workspace} (trail : Trail workspace steps reports rewritten last) {address : Address}
    (inside : address < workspace.memory.storages.size)
    (flat : workspace.memory.excess address = 0) : address ∉ rewritten.flatten := by
  induction trail with
  | nil => exact List.not_mem_nil
  | cons stepped _ inductionHypothesis =>
    have recorded := stepped.recorded
    rw [List.flatten_cons, List.mem_append, not_or]
    have first : address ∉ _ := fun member => recorded.spliced address member flat
    refine ⟨first, inductionHypothesis ?_ ?_⟩
    · exact Nat.lt_of_lt_of_le inside recorded.order.done.length
    · exact (recorded.spared address inside first).2.trans flat

/-- In a run without appending no storage is flattened twice. -/
theorem Trail.once {steps : List Step} {reports : List Report} {rewritten : List (List Address)}
    {last : Workspace} (trail : Trail workspace steps reports rewritten last) :
    rewritten.flatten.Nodup := by
  induction trail with
  | nil => exact List.nodup_nil
  | cons stepped trail inductionHypothesis =>
    have recorded := stepped.recorded
    rw [List.flatten_cons, List.nodup_append]
    refine ⟨recorded.once, inductionHypothesis, fun address member other inLater same => ?_⟩
    refine trail.spliced ?_ (recorded.flat address member).1 (same ▸ inLater)
    exact Nat.lt_of_lt_of_le (recorded.order.done.old address member) recorded.order.done.length

/-! ### The account -/

/-- What a workspace leads to can be worked on once it is copied. -/
theorem sound_copied (represents : Represents silent followed walks [] workspace plain)
    {values : List Value} (reaches : ∀ value ∈ values, workspace.Reaches value) :
    Sound (followed ∨ workspace.memory.Fits) (workspace.memory.retain values)
        (handles values ++ workspace.roots) ∧
      Evolves [] [] workspace.memory (workspace.memory.retain values) ∧
      Alike workspace.memory (workspace.memory.retain values) := by
  obtain ⟨sound, evolves⟩ := Memory.Supports.copied
    (fun value member => (reaches value member).supports represents) represents.sound
  exact ⟨sound, evolves, (workspace.memory.reowned_retain values).alike⟩

/-- Every flattening in a workspace, and in what comes of it, is accounted for. Whatever is accessed
is copied for the access, as the operands of operations are. Steps are accounted for as long as no
array is longer than arrays can be. -/
structure Accounts (workspace : Workspace) : Prop where
  operations : ∀ operation : Operation Value,
    (∀ operand ∈ operation.operands, workspace.Reaches operand) →
      operation.perform.Ends (workspace.memory.retain operation.operands)
        fun _ after => Looked operation.walks workspace.memory after
  flattening : ∀ address, workspace.Reaches (.vector address) →
    (Memory.flatten address).Ends (workspace.memory.retain [.vector address])
      fun _ after => Looked false workspace.memory after
  elements : ∀ address, workspace.Reaches (.vector address) → ∀ position,
    (Memory.element address position).Ends (workspace.memory.retain [.vector address])
      fun _ after => Looked false workspace.memory after
  slices : ∀ address, workspace.Reaches (.vector address) →
    (Memory.reading address fun elements => return elements).Ends
      (workspace.memory.retain [.vector address])
      fun _ after => Looked false workspace.memory after
  appending : ∀ action report next, action.appends = true →
    step action workspace = some (.ok (report, next)) → next.memory.Fits → report.flattenings = []
  stepping : ∀ action report next, action.appends = false →
    step action workspace = some (.ok (report, next)) → next.memory.Fits →
      ∃ rewritten, Stepped action workspace report rewritten next
  running : ∀ steps reports last, (∀ action ∈ steps, action.appends = false) →
    run steps workspace = some (.ok (reports, last)) → last.memory.Fits →
      ∃ rewritten, Trail workspace steps reports rewritten last ∧ rewritten.flatten.Nodup

/-- In every workspace that is reached, flattening is the only change that looking makes to the
storages that were there, the report names each flattening in order, and only access by position
flattens: neither walking nor appending does. -/
theorem flattenings_recorded (reached : workspace.Reached) : Accounts workspace := by
  obtain ⟨followed, plain, represents⟩ := reached.represents
  have accessed : ∀ {address : Address}, workspace.Reaches (.vector address) →
      Alike workspace.memory (workspace.memory.retain [.vector address]) ∧
        Evolves [] [] workspace.memory (workspace.memory.retain [.vector address]) ∧
        Sound (followed ∨ workspace.memory.Fits) (workspace.memory.retain [.vector address])
          (handles [.vector address] ++ workspace.roots) := by
    intro address reaches
    have single : ∀ value ∈ [Value.vector address], workspace.Reaches value :=
      fun _ member => List.mem_singleton.mp member ▸ reaches
    obtain ⟨sound, kept, copied⟩ := sound_copied represents single
    exact ⟨copied, kept, sound⟩
  refine ⟨fun operation reaches => ?_, fun address reaches => ?_,
    fun address reaches position => ?_, fun address reaches => ?_,
    fun action report next appends taken fits => ?_,
    fun _ _ _ apart taken fits => stepped_of_step represents apart taken fits,
    fun _ _ _ apart ran fits => ?_⟩
  · obtain ⟨sound, kept, copied⟩ := sound_copied represents reaches
    obtain ⟨pairs, rfl, found⟩ := Operation.exists_pairs fun operand member =>
      ((reaches operand member).denotes represents).1
    have denotes : ∀ pair ∈ pairs.operands, Denotes _ pair.1 pair.2 :=
      fun pair member => kept.denotes (found pair member).2
    have held : ∀ pair ∈ pairs.operands, ∀ handle ∈ handles [pair.1],
        handle ∈ handles (pairs.map Prod.fst).operands ++ workspace.roots := by
      intro pair member handle inPair
      have one := List.singleton_sublist.mpr (found pair member).1
      exact List.mem_append_left _ ((handles_sublist one).subset inPair)
    have looked := pairs.perform_looked copied kept sound held denotes
    exact ((pairs.perform_ends sound held denotes).and_leads looked).imp fun _ _ ends => ends.2
  · obtain ⟨copied, kept, sound⟩ := accessed reaches
    exact Memory.flatten_looked copied kept sound List.mem_cons_self
  · obtain ⟨copied, kept, sound⟩ := accessed reaches
    exact Memory.element_looked copied kept sound List.mem_cons_self position
  · obtain ⟨copied, kept, sound⟩ := accessed reaches
    exact Memory.reading_looked copied kept sound List.mem_cons_self
  · have calm : action.flattens = false := by
      cases action with
      | flatten | element | slice | operate => contradiction
      | _ => rfl
    exact silent_of_step represents calm taken fits
  · obtain ⟨⟨rewritten, trail⟩, _⟩ := trail_of_run represents apart ran fits
    exact ⟨rewritten, trail, trail.once⟩

/-- Two registers share a storage of size three with a placeholder. -/
theorem flattenings_recorded_shared :
    ∃ workspace : Workspace, workspace.Reached ∧ workspace.registers = [0, 0] ∧
      workspace.memory.contents 0 = [.number 1, .embedded 1] ∧ workspace.memory.excess 0 = 1 ∧
      Accounts workspace := by
  have reached : ∃ reports workspace,
      run [.create, .append 0 (.number 1),
        .append 0 (.embedded (.vector [.number 2, .number 3])), .copy 0] empty =
          some (.ok (reports, workspace)) ∧ workspace.registers = [0, 0] ∧
        workspace.memory.contents 0 = [.number 1, .embedded 1] ∧ workspace.memory.excess 0 = 1 :=
    ⟨_, _, rfl, rfl, rfl, rfl⟩
  obtain ⟨reports, workspace, ran, registers, contents, excess⟩ := reached
  exact ⟨workspace, ⟨_, _, ran⟩, registers, contents, excess, flattenings_recorded ⟨_, _, ran⟩⟩

end Workspace

end SolidScript
