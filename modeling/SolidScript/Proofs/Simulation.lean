/-
This file proves that a workspace takes each step as plain lists do: it ends in the same fault, or
it represents the plain lists afterwards and its report agrees with theirs. Steps are put together
from parts, and so are the proofs; each part is proved once.
-/

import SolidScript.Proofs.Representing

namespace SolidScript

open Value (handles)

variable {α β γ δ τ : Type} {silent followed : Prop} {walks : List PlainWalk}
    {workspace : Workspace}
  {plain : Plain} {further : List Address}

/-! ### Work on the memory of a workspace -/

/-- What comes after an action that cannot fail starts from the memory that it leaves. -/
theorem Refines.memory_bind {action : Action α} {reached : α → Memory → Prop}
    (ends : action.Ends workspace.memory reached) {next : α → Workspace.Work γ}
    {work : StateT τ (Except Stop) δ} {model : τ} {final : Prop → γ → Workspace → δ → τ → Prop}
    (continues : ∀ result after, reached result after →
      Refines followed (next result) work { workspace with memory := after } model final) :
    Refines followed (Workspace.withMemory action >>= next) work workspace model final := by
  obtain ⟨result, after, found, meets⟩ := ends
  have reached : (Workspace.withMemory action >>= next : Workspace.Work γ) workspace =
      next result { workspace with memory := after } := by
    show ((ExceptT.mk ((action workspace.memory).map .ok) >>= _) >>= _) = _
    rw [found]
    rfl
  exact (continues result after meets).of_same reached fun holds => .inl ⟨holds, rfl⟩

theorem Refines.modify_memory_bind {change : Memory → Memory} {next : PUnit → Workspace.Work γ}
    {work : StateT τ (Except Stop) δ} {model : τ} {final : Prop → γ → Workspace → δ → τ → Prop}
    (continues : Refines followed (next ⟨⟩) work
      { workspace with memory := change workspace.memory } model final) :
    Refines followed (Workspace.withMemory (modify change) >>= next) work workspace model final :=
  continues.of_same rfl fun holds => .inl ⟨holds, rfl⟩

theorem Refines.lookUp_bind {look : Memory → Option α} (result : α)
    (found : look workspace.memory = some result) {next : α → Workspace.Work γ}
    {work : StateT τ (Except Stop) δ} {model : τ} {final : Prop → γ → Workspace → δ → τ → Prop}
    (continues : Refines followed (next result) work workspace model final) :
    Refines followed (Workspace.lookUp look >>= next) work workspace model final := by
  have ends : (Action.read look).Ends workspace.memory fun found after =>
      found = result ∧ after = workspace.memory := .read found ⟨rfl, rfl⟩
  refine .memory_bind ends ?_
  rintro _ _ ⟨rfl, rfl⟩
  exact continues

/-- Warnings are added to the plain lists alone. The memory has them already. -/
theorem Refines.warn_bind {work : Workspace.Work γ} {warned : List Warning}
    {next : PUnit → Plain.Work δ} {final : Prop → γ → Workspace → δ → Plain → Prop}
    (continues : Refines followed work (next ⟨⟩) workspace
      { plain with warnings := plain.warnings ++ warned } final) :
    Refines followed work (Plain.warn warned >>= next) workspace plain final :=
  continues.of_same rfl fun holds => .inl ⟨holds, rfl⟩

/-- Work on memory that refines work on identities does so in the workspace. -/
theorem Refines.onMemory {attempt : Attempt α} {planting : StateT Nat (Except Stop) β}
    {condition : Prop → α → Memory → β → Nat → Prop}
    (refines : Refines followed attempt planting workspace.memory plain.closures condition) :
    Refines followed (Workspace.onMemory attempt) (Plain.planting planting) workspace plain
      fun still result last meant model => ∃ after closures,
        last = { workspace with memory := after } ∧
          model = { plain with closures := closures } ∧
            condition still result after meant closures := by
  have refused : ∀ {stop}, planting plain.closures = .error stop →
      Plain.planting planting plain = .error stop := by
    intro stop ends
    show (planting plain.closures >>= _) = _
    rw [ends]
    rfl
  cases refines with
  | fault fault ends follows =>
    refine .fault fault ?_ fun holds => (follows holds).imp refused refused
    show ((attempt workspace.memory : ExceptT Fault Option (α × Memory)) >>= _) = _
    rw [show attempt workspace.memory =
      (some (.error fault) : ExceptT Fault Option (α × Memory)) from ends]
    rfl
  | @result still result after meant closures ends meets follows =>
    refine .result ?_ ⟨after, closures, rfl, rfl, meets⟩ fun holds =>
      (follows holds).imp (And.imp_left fun same => ?_) refused
    · show ((attempt workspace.memory : ExceptT Fault Option (α × Memory)) >>= _) = _
      rw [show attempt workspace.memory =
        (some (.ok (result, after)) : ExceptT Fault Option (α × Memory)) from ends]
      rfl
    · show (planting plain.closures >>= _) = _
      rw [same]
      rfl

/-! ### Making values -/

/-- Recipes of a workspace refer to what it holds. -/
theorem Represents.surrounds (represents : Represents silent followed walks [] workspace plain) :
    Surrounds followed workspace.memory workspace.roots
      ⟨workspace.values, workspace.registers⟩ plain.values plain.registers where
  heldEarlier _ member := List.mem_append_right _ (List.mem_append_right _ member)
  heldRegisters _ member := List.mem_append_left _ member
  smallEarlier holds := (represents.small holds).values
  smallRegisters holds := (represents.small holds).registers
  earlier := represents.values
  registers := represents.registers

theorem Represents.made {still : Prop}
    (represents : Represents silent followed walks [] workspace plain)
    {values : List Value} {trees : List Tree} {after : Memory} {closures : Nat}
    (makes : Makes still workspace.memory workspace.roots values after trees closures)
    (implies : still → followed) :
    Represents silent still walks (handles values) { workspace with memory := after }
      { plain with closures := closures } :=
  represents.kept implies (fun holds => ⟨holds, makes.silent⟩) makes.sound makes.idle makes.keeps
    makes.closures
    ((congrArg List.reverse makes.warnings).trans represents.warnings)

/-- Steps that append to the vector of a register. -/
def Step.appends : Step → Bool
  | append .. | extend .. | embed .. | embedMoved .. | concatenate .. | concatenateMoved ..
  | double .. | chain .. => true
  | _ => false

/-- Steps that may flatten vectors: access by position, and operations on values. -/
def Step.flattens : Step → Bool
  | flatten .. | element .. | slice .. | operate .. => true
  | _ => false

namespace Workspace

theorem make_refines (represents : Represents silent followed walks [] workspace plain)
    (item : Recipe) :
    Refines followed (make item) (Plain.make item) workspace plain
      fun still value last tree model =>
        Represents silent still walks (handles [value]) last model ∧ Denotes last.memory value tree
          ∧
          (still → tree.small = true) := by
  have makes := item.make_refines represents.sound represents.idle represents.surrounds
  rw [represents.closures] at makes
  refine .get_bind (makes.onMemory.imp ?_)
  rintro still value _ tree _ ⟨after, closures, rfl, rfl, makes, implies⟩
  exact ⟨represents.made makes implies, makes.denotes, makes.small_single⟩

theorem makeAll_refines (represents : Represents silent followed walks [] workspace plain)
    (items : List Recipe) :
    Refines followed (makeAll items) (Plain.makeAll items) workspace plain
      fun still values last trees model =>
        Represents silent still walks (handles values) last model ∧
          List.Forall₂ (Denotes last.memory) values trees ∧
            (still → ∀ tree ∈ trees, tree.parts.length < 2 ^ 64) := by
  have makes := Recipe.makeAll_refines items represents.sound represents.idle represents.surrounds
  rw [represents.closures] at makes
  refine .get_bind (makes.onMemory.imp ?_)
  rintro still values _ trees _ ⟨after, closures, rfl, rfl, makes, implies⟩
  exact ⟨represents.made makes implies, makes.each, fun holds tree member =>
    Tree.length_parts_lt (makes.small holds tree member)⟩

theorem makeVector_refines (represents : Represents silent followed walks [] workspace plain)
    (item : Recipe) :
    Refines followed (makeVector item) (Plain.makeVector item) workspace plain
      fun still address last items model =>
        Represents silent still walks [address] last model ∧ Lists last.memory address items ∧
          (still → items.length < 2 ^ 64) := by
  refine (make_refines represents item).bind
    fun still value last tree model ⟨made, denotes, small⟩ => ?_
  cases denotes with
  | vector inside expands each =>
    exact .of_ok rfl rfl ⟨made, .vector inside expands each, fun holds =>
      (Tree.small_vector_iff.mp (small holds)).1⟩
  | _ => exact .of_error _ rfl rfl

/-! ### Registers -/

/-- A register was found, and nothing changed. -/
structure FindsRegister (followed : Prop) (workspace : Workspace) (plain : Plain) (position : Nat)
    (still : Prop) (address : Address) (last : Workspace) (items : List Tree) (model : Plain) :
    Prop where
  still : followed = still
  last : workspace = last
  model : plain = model
  found : workspace.registers[position]? = some address
  lists : Lists workspace.memory address items
  small : followed → (Tree.vector items).small = true
  planted : plain.registers[position]? = some items

theorem register_refines (represents : Represents silent followed walks further workspace plain)
    (position : Nat) :
    Refines followed (register position) (Plain.register position) workspace plain
      (FindsRegister followed workspace plain position) := by
  refine .get_bind ?_
  rcases forall₂_getElem? represents.registers position with
    ⟨missing, absent⟩ | ⟨address, items, found, planted, lists⟩
  · rw [missing, absent]
    exact .throw _
  · rw [found, planted]
    exact .pure ⟨rfl, rfl, rfl, found, lists, fun holds =>
      (represents.small holds).registers items (List.mem_of_getElem? planted), planted⟩

/-- With the handle of a register all roots are at work. -/
theorem sound_register (represents : Represents silent followed walks further workspace plain)
    {position : Nat} {address : Address} (found : workspace.registers[position]? = some address) :
    Sound (followed ∨ workspace.memory.Fits) workspace.memory
      (address :: further ++ workspace.rootsBut position) := by
  have perm := ((perm_of_getElem? found).append_right workspace.held).append_left further
  refine (represents.sound.of_perm perm).of_count _ fun other => ?_
  simp only [rootsBut, List.count_append, List.count_cons]
  omega

/-- A vector that grew from the one in a register is put there. -/
theorem setRegister_refines (represents : Represents silent followed walks further workspace plain)
    {position : Nat} {address result : Address} {items expected : List Tree} {after : Memory}
    (more : List Address) (found : workspace.registers[position]? = some address)
    (same : followed → (Tree.vector expected).small = true → items = expected)
    (sound : Sound ((followed ∧ (Tree.vector expected).small = true) ∨ after.Fits) after
      (more ++ result :: workspace.rootsBut position))
    (steady : Calm workspace.memory after) (lists : Lists after result items)
    (keeps : Keeps (workspace.rootsBut position) workspace.memory after) :
    Refines followed (setRegister position result) (Plain.setRegister position expected)
      { workspace with memory := after } plain fun still _ last _ model =>
        Represents silent still walks more last model ∧ last.memory = after ∧ (still → followed) :=
          by
  refine .counted_bind ?_
  have implies : followed ∧ (Tree.vector expected).small = true →
      followed ∧ (Tree.vector items).small = true := fun ⟨holds, small⟩ =>
    ⟨holds, (same holds small) ▸ small⟩
  have set := represents.registerSet found implies sound
    (Memory.idle_of_steady represents.idle steady.toSteady) lists keeps steady
  have sets : Refines (followed ∧ (Tree.vector expected).small = true)
      (setRegister position result)
      (modify fun plain => { plain with registers := plain.registers.set position items })
      { workspace with memory := after } plain fun still _ last _ model =>
        Represents silent still walks more last model ∧ last.memory = after ∧ (still → followed) :=
    .of_ok rfl rfl ⟨set, rfl, And.left⟩
  exact sets.replace fun holds => by rw [same holds.1 holds.2]

/-- A register is replaced by what an action makes of it, as the list is by its image. -/
theorem changeRegister_refines
    (represents : Represents silent followed walks further workspace plain)
    (position : Nat) {action : Address → Action Address} {image : List Tree → List Tree}
    {few : List Tree → Prop}
    (little : ∀ items, followed → items.length < 2 ^ 64 → (image items).length < 2 ^ 64 → few items)
    (grows : ∀ address items rest,
      Sound (followed ∨ workspace.memory.Fits) workspace.memory (address :: further ++ rest) →
        Lists workspace.memory address items →
          (action address).Ends workspace.memory
            (Memory.GrowsTo (followed ∨ workspace.memory.Fits) (few items) workspace.memory rest
              (image items))) :
    Refines followed (changeRegister position action) (Plain.changeRegister position image)
      workspace plain fun still answer last meant model =>
        Represents silent still walks [] last model ∧ answer = .nothing ∧ meant = some .nothing :=
          by
  refine (register_refines represents position).bind ?_
  rintro _ address _ items _ ⟨rfl, rfl, rfl, found, lists, small⟩
  refine .memory_bind (grows address items _ (sound_register represents found) lists) ?_
  rintro result after ⟨grown, grows, exact'⟩
  have enough : followed ∧ (Tree.vector (image items)).small = true → followed ∧ few items :=
    fun ⟨holds, counted⟩ => ⟨holds, little items holds
      (Tree.small_vector_iff.mp (small holds)).1 (Tree.small_vector_iff.mp counted).1⟩
  refine (setRegister_refines represents [] found (fun holds counted =>
    exact' (Or.inl holds) (enough ⟨holds, counted⟩).2) (grows.trusted enough) grows.steady
    grows.denotes grows.keeps).bind ?_
  rintro _ _ _ _ _ ⟨represents, _⟩
  exact .pure ⟨represents, rfl, rfl⟩

/-- The vector of a register is at work outside of it, and the register is empty. -/
theorem takeRegister_refines (represents : Represents silent followed walks [] workspace plain)
    (position : Nat) :
    Refines followed (takeRegister position) (Plain.takeRegister position) workspace plain
      fun still address last items model =>
        Represents silent still walks [address] last model ∧ Lists last.memory address items ∧
          (still → items.length < 2 ^ 64) := by
  refine (register_refines represents position).bind ?_
  rintro _ address _ items _ ⟨rfl, rfl, rfl, found, lists, small⟩
  have ends := Memory.create_ends (sound_register represents found)
  refine .memory_bind ends fun result after ⟨_, sound, evolves, shows, _, calm⟩ => ?_
  have keeps := (Keeps.of_evolves evolves represents.sound).of_subset fun other member =>
    (perm_of_getElem? found).append_right workspace.held |>.symm.subset
      (List.mem_cons_of_mem _ member)
  have swapped := (sound.of_evolves evolves).of_perm (.swap address result _)
  refine (setRegister_refines represents [address] found (fun _ _ => rfl)
    (swapped.mono (Or.imp_left And.left) Or.inr) calm shows.vector keeps).bind ?_
  rintro _ _ _ _ _ ⟨represents, rfl, implies⟩
  exact .pure ⟨represents, evolves.denotes lists, fun holds =>
    (Tree.small_vector_iff.mp (small (implies holds))).1⟩

theorem addRegister_refines {address : Address} {items expected : List Tree}
    (represents : Represents silent followed walks [address] workspace plain)
    (lists : Lists workspace.memory address items) (same : followed → items = expected) :
    Refines followed (addRegister address) (Plain.addRegister expected) workspace plain
      fun still answer last meant model =>
        Represents silent still walks [] last model ∧ answer = .nothing ∧ meant = some .nothing :=
          by
  refine .counted_bind ?_
  have added := (represents.mono And.left).registerAdded lists
    fun ⟨holds, small⟩ => (same holds).symm ▸ small
  have adds : Refines (followed ∧ (Tree.vector expected).small = true) (addRegister address)
      (do
        modify fun plain => { plain with registers := plain.registers ++ [items] }
        return some .nothing : Plain.Work (Option (Answer Tree))) workspace plain
      fun still answer last meant model =>
        Represents silent still walks [] last model ∧ answer = .nothing ∧ meant = some .nothing :=
    .of_ok rfl rfl ⟨added, rfl, rfl⟩
  exact adds.replace fun holds => by rw [same holds.1]

/-! ### Walks -/

theorem walkAt_of_getElem? {position : Nat} {walk : Walk}
    (found : workspace.walks[position]? = some walk) :
    walkAt position workspace = some (.ok (walk, workspace)) := by
  refine (bind_of_ok rfl).trans ?_
  rw [found]
  rfl

theorem lookUp_of_eq {look : Memory → Option α} {result : α}
    (found : look workspace.memory = some result) :
    lookUp look workspace = some (.ok (result, workspace)) := by
  show ((ExceptT.mk ((Action.read look workspace.memory).map .ok) >>= _ : ExceptT Fault Option _)) =
    _
  rw [Action.read, found]
  rfl

/-- The levels of a walk that is held have owners, and so has whatever they lead to. -/
theorem alive_of_walk (represents : Represents silent followed walks further workspace plain)
    {position : Nat} {walk : Walk} (found : workspace.walks[position]? = some walk) :
    ∀ level ∈ walk, workspace.memory.owners level.storage ≠ 0 := by
  intro level member
  refine represents.sound.owned.alive_of_mem (List.mem_append_right _ (List.mem_append_right _ ?_))
  exact List.mem_append_left _ (List.mem_flatMap.mpr
    ⟨walk, List.mem_of_getElem? found, Walk.mem_storages member⟩)

/-- A walk is replaced by what is left of it. Nothing denotes anything else afterwards. -/
theorem setWalk_ends (represents : Represents silent followed walks [] workspace plain)
    {position : Nat}
    {old new : Walk} {meant : PlainWalk} (found : workspace.walks[position]? = some old)
    (alive : ∀ level ∈ new, workspace.memory.owners level.storage ≠ 0)
    (continues : Continues workspace.memory new meant) :
    ∃ last, setWalk position old new workspace = some (.ok ((), last)) ∧
      Represents silent followed (walks.set position meant) [] last
        { plain with walks := plain.walks.set position meant } ∧
      Evolves [] [] workspace.memory last.memory := by
  have retained := represents.sound.retain new.handles fun handle member => by
    rw [Walk.handles_handles] at member
    obtain ⟨level, inNew, rfl⟩ := List.mem_map.mp member
    exact alive level inNew
  have reowned := workspace.memory.reowned_retain new.handles
  have evolves := Evolves.of_reowned represents.sound reowned
  have copied := represents.quiet retained evolves fun holds => ⟨holds, .of_reowned reowned⟩
  rw [Walk.handles_handles] at copied
  have replaced := copied.walkSet found (evolves.continues continues)
  have released := replaced.sound
  rw [← Walk.handles_handles] at released
  have releases := Memory.reowned_release (workspace.memory.retain new.handles) old.handles
  have last := Evolves.of_reowned released releases
  exact ⟨_, rfl, replaced.quiet (Sound.release old.handles released) last
    fun holds => ⟨holds, .of_reowned releases⟩, evolves.trans last⟩

/-- A step answers elements that denote the given items, none of them a placeholder, and moves the
walk at a place. -/
def Draws (silent followed : Prop) (walks : List PlainWalk) (workspace : Workspace) (plain : Plain)
    (position : Nat) (action : Step) (items : List Tree) (moved : PlainWalk) : Prop :=
  ∃ values last, perform action workspace = some (.ok (.values values, last)) ∧
    (∀ value ∈ values, value.isEmbedded = false) ∧
    List.Forall₂ (Denotes last.memory) values items ∧
    Represents silent followed (walks.set position moved) [] last
      { plain with walks := plain.walks.set position moved }

theorem next_draws (represents : Represents silent followed walks [] workspace plain)
    {position : Nat} {walk : PlainWalk} (planted : walks[position]? = some walk) :
    Draws silent followed walks workspace plain position (.next position) walk.left.head?.toList
      { walk with passed := walk.passed + 1 } := by
  obtain ⟨old, found, continues⟩ := represents.exists_walk planted
  obtain ⟨value, left, next, direct, each, further⟩ := continues.next
  have alive := (Memory.next_kept represents.sound.enclosed_alive.closed next
    (alive_of_walk represents found)).2
  obtain ⟨last, sets, represents, evolves⟩ := setWalk_ends represents found alive further
  refine ⟨value.toList, last, ?_, direct, evolves.each each, represents⟩
  exact (bind_of_ok (walkAt_of_getElem? found)).trans
    ((bind_of_ok (lookUp_of_eq next)).trans (bind_of_ok sets))

theorem rest_draws (represents : Represents silent followed walks [] workspace plain)
    {position : Nat} {walk : PlainWalk} (planted : walks[position]? = some walk) :
    Draws silent followed walks workspace plain position (.rest position) walk.left
      { walk with passed := walk.sequence.length } := by
  obtain ⟨old, found, continues⟩ := represents.exists_walk planted
  obtain ⟨elements, collected, direct, each, ended⟩ := continues.rest
  obtain ⟨last, sets, represents, evolves⟩ := setWalk_ends represents found
    (fun _ member => absurd member List.not_mem_nil) ended
  refine ⟨elements, last, ?_, direct, evolves.each each, represents⟩
  exact (bind_of_ok (walkAt_of_getElem? found)).trans
    ((bind_of_ok (lookUp_of_eq collected)).trans (bind_of_ok sets))

/-! ### Values -/

theorem value_refines (represents : Represents silent followed walks further workspace plain)
    (position : Nat) :
    Refines followed (value position) (Plain.value position) workspace plain
      fun still value last meant model => followed = still ∧ workspace = last ∧ plain = model ∧
        value ∈ workspace.values ∧ meant ∈ plain.values ∧
          Denotes workspace.memory value meant := by
  refine .get_bind ?_
  rcases forall₂_getElem? represents.values position with
    ⟨missing, absent⟩ | ⟨value, tree, found, planted, denotes⟩
  · rw [missing, absent]
    exact .throw _
  · rw [found, planted]
    exact .pure ⟨rfl, rfl, rfl, List.mem_of_getElem? found, List.mem_of_getElem? planted, denotes⟩

/-- The operands of an operation are found as pairs of values and trees. -/
def Finds (followed : Prop) (workspace : Workspace) (plain : Plain) (still : Prop)
    (operation : Operation Value) (last : Workspace) (meant : Operation Tree) (model : Plain) :
    Prop :=
  followed = still ∧ workspace = last ∧ plain = model ∧
    ∃ pairs : Operation (Value × Tree),
      operation = pairs.map Prod.fst ∧ meant = pairs.map Prod.snd ∧
        ∀ pair ∈ pairs.operands, pair.1 ∈ workspace.values ∧ pair.2 ∈ plain.values ∧
          Denotes workspace.memory pair.1 pair.2

theorem operand_refines (represents : Represents silent followed walks further workspace plain)
    (position : Nat) {first : Value → Operation Value} {second : Tree → Operation Tree}
    (pairs : Value × Tree → Operation (Value × Tree))
    (split : ∀ pair, first pair.1 = (pairs pair).map Prod.fst ∧
      second pair.2 = (pairs pair).map Prod.snd ∧ (pairs pair).operands = [pair]) :
    Refines followed (do return first (← value position))
      (do return second (← Plain.value position)) workspace plain
      (Finds followed workspace plain) := by
  refine (value_refines represents position).bind ?_
  rintro _ a _ x _ ⟨rfl, rfl, rfl, found⟩
  obtain ⟨values, trees, operands⟩ := split (a, x)
  refine .pure ⟨rfl, rfl, rfl, pairs (a, x), values, trees, fun pair member => ?_⟩
  rw [operands, List.mem_singleton] at member
  exact member ▸ found

theorem operandPair_refines (represents : Represents silent followed walks further workspace plain)
    (position other : Nat) {first : Value → Value → Operation Value}
    {second : Tree → Tree → Operation Tree}
    (pairs : Value × Tree → Value × Tree → Operation (Value × Tree))
    (split : ∀ pair next, first pair.1 next.1 = (pairs pair next).map Prod.fst ∧
      second pair.2 next.2 = (pairs pair next).map Prod.snd ∧
        (pairs pair next).operands = [pair, next]) :
    Refines followed (do return first (← value position) (← value other))
      (do return second (← Plain.value position) (← Plain.value other)) workspace plain
      (Finds followed workspace plain) := by
  refine (value_refines represents position).bind ?_
  rintro _ a _ x _ ⟨rfl, rfl, rfl, foundFirst⟩
  refine (value_refines represents other).bind ?_
  rintro _ b _ y _ ⟨rfl, rfl, rfl, foundSecond⟩
  obtain ⟨values, trees, operands⟩ := split (a, x) (b, y)
  refine .pure ⟨rfl, rfl, rfl, pairs (a, x) (b, y), values, trees, fun pair member => ?_⟩
  rw [operands, List.mem_pair] at member
  rcases member with rfl | rfl
  · exact foundFirst
  · exact foundSecond

theorem operands_refine (represents : Represents silent followed walks further workspace plain)
    (operation : Operation Nat) :
    Refines followed (operation.mapM value) (operation.mapM Plain.value) workspace plain
      (Finds followed workspace plain) := by
  cases operation with
  | binary operator a b =>
    exact operandPair_refines represents a b (.binary operator) fun _ _ => ⟨rfl, rfl, rfl⟩
  | compare a b =>
    exact operandPair_refines represents a b .compare fun _ _ => ⟨rfl, rfl, rfl⟩
  | index a position =>
    exact operandPair_refines represents a position .index fun _ _ => ⟨rfl, rfl, rfl⟩
  | unary operator a =>
    exact operand_refines represents a (.unary operator) fun _ => ⟨rfl, rfl, rfl⟩
  | truth a => exact operand_refines represents a .truth fun _ => ⟨rfl, rfl, rfl⟩
  | indexAt a position =>
    exact operand_refines represents a (.indexAt · position) fun _ => ⟨rfl, rfl, rfl⟩
  | pair a finite => exact operand_refines represents a (.pair · finite) fun _ => ⟨rfl, rfl, rfl⟩
  | triple a => exact operand_refines represents a .triple fun _ => ⟨rfl, rfl, rfl⟩
  | tripleOr a third =>
    exact operand_refines represents a (.tripleOr · third) fun _ => ⟨rfl, rfl, rfl⟩
  | characters a => exact operand_refines represents a .characters fun _ => ⟨rfl, rfl, rfl⟩
  | «show» a => exact operand_refines represents a .show fun _ => ⟨rfl, rfl, rfl⟩
  | echo a => exact operand_refines represents a .echo fun _ => ⟨rfl, rfl, rfl⟩
  | write a => exact operand_refines represents a .write fun _ => ⟨rfl, rfl, rfl⟩
  | inspect a => exact operand_refines represents a .inspect fun _ => ⟨rfl, rfl, rfl⟩

/-- A value that was at work is added to the values. -/
theorem addValue_refines {value : Value} {tree expected : Tree}
    (represents : Represents silent followed walks (handles [value]) workspace plain)
    (denotes : Denotes workspace.memory value tree) (same : followed → tree = expected) :
    Refines followed (addValue value) (Plain.addValue expected) workspace plain
      fun still _ last _ model =>
        Represents silent still walks [] last model ∧ last.memory = workspace.memory ∧
          (still → followed) := by
  refine .counted_bind ?_
  have added := (represents.mono And.left).valueAdded denotes
    fun ⟨holds, small⟩ => (same holds).symm ▸ small
  have adds : Refines (followed ∧ expected.small = true) (addValue value)
      (modify fun plain => { plain with values := plain.values ++ [tree] }) workspace plain
      fun still _ last _ model =>
        Represents silent still walks [] last model ∧ last.memory = workspace.memory ∧
          (still → followed) :=
    .of_ok rfl rfl ⟨added, rfl, And.left⟩
  exact adds.replace fun holds => by rw [same holds.1]

/-! ### Steps -/

/-- A step was taken by a workspace and by plain lists. The answer is what the lists decide. -/
structure Matches (silent : Prop) (walks : List PlainWalk) (still : Prop) (answer : Answer Value)
    (last : Workspace) (meant : Option (Answer Tree)) (model : Plain) : Prop where
  represents : Represents silent still walks [] last model
  answers : ∀ expected ∈ meant, Answers still last.memory answer expected

theorem Matches.intro {answer : Answer Value} {meant : Answer Tree}
    (represents : Represents silent followed walks [] workspace plain)
    (answers : Answers followed workspace.memory answer meant) :
    Matches silent walks followed answer workspace (some meant) plain :=
  ⟨represents, fun _ same => Option.some.inj same ▸ answers⟩

theorem Matches.of_nothing {answer : Answer Value} {meant : Option (Answer Tree)}
    (ends : Represents silent followed walks [] workspace plain ∧ answer = .nothing ∧
      meant = some .nothing) :
    Matches silent walks followed answer workspace meant plain := by
  obtain ⟨represents, rfl, rfl⟩ := ends
  exact .intro represents .nothing

/-- A step was taken, and it moved walks as such a step does. -/
structure Takes (silent : Prop) (walks : List PlainWalk) (action : Step) (still : Prop)
    (answer : Answer Value) (last : Workspace) (meant : Option (Answer Tree)) (model : Plain) : Prop
    extends Matches (silent ∧ action.flattens = false) model.walks still answer last meant model
    where
  moved : Plain.Moved action walks model.walks

/-- A vector that grew is at work instead of what it grew from. -/
theorem represents_grown (represents : Represents silent followed walks further workspace plain)
    {few : Prop} {items : List Tree} {result : Address} {after : Memory}
    (grows : Memory.Grows (followed ∨ workspace.memory.Fits) few workspace.memory workspace.roots
      items result after) (little : followed → few) :
    Represents silent followed walks [result] { workspace with memory := after } plain :=
  represents.kept id (fun holds => ⟨holds, grows.steady.silent⟩)
    (grows.trusted fun holds => ⟨holds, little holds⟩)
    (Memory.idle_of_steady represents.idle grows.steady.toSteady) grows.keeps
    (grows.steady.closures.trans represents.closures)
    ((congrArg List.reverse grows.steady.warnings).trans represents.warnings)

/-- One more handle to the storage of a register is at work. -/
theorem represents_copied (represents : Represents silent followed walks [] workspace plain)
    {position : Nat} {address : Address} (found : workspace.registers[position]? = some address) :
    Represents silent followed walks [address]
      { workspace with memory := workspace.memory.retain [.vector address] } plain := by
  have reowned := workspace.memory.reowned_retain [.vector address]
  refine represents.quiet (represents.sound.retain [.vector address] fun handle member => ?_)
    (.of_reowned represents.sound reowned) fun holds => ⟨holds, .of_reowned reowned⟩
  have held : address ∈ workspace.roots :=
    List.mem_append_left _ (List.mem_of_getElem? found)
  rw [List.mem_singleton.mp member]
  exact represents.sound.owned.alive_of_mem held

/-- What was at work outside of the workspace is given up. -/
theorem represents_released {values : List Value}
    (represents : Represents silent followed walks (handles values) workspace plain) :
    Represents silent followed walks [] { workspace with memory := workspace.memory.release values }
      plain :=
  have reowned := workspace.memory.reowned_release values
  represents.quiet (represents.sound.release values) (.of_reowned represents.sound reowned)
    fun holds => ⟨holds, .of_reowned reowned⟩

theorem decide_length_eq_zero (items : List Tree) :
    decide (items.length = 0) = items.isEmpty := by
  cases items <;> rfl

/-- The size of a vector is the number of its items, if plain lists are followed. -/
theorem size_eq_of_lists (represents : Represents silent followed walks further workspace plain)
    {address : Address} {items : List Tree} (member : address ∈ further ++ workspace.roots)
    (lists : Lists workspace.memory address items) (few : items.length < 2 ^ 64)
    (holds : followed) : workspace.memory.size address = items.length := by
  obtain ⟨elements, shows⟩ := Shows.of_vector lists
  exact shows.size_eq (represents.sound.counts (Or.inl holds))
    (represents.sound.owned.alive_of_mem member) few

section Growing

theorem create_refines (represents : Represents silent followed walks [] workspace plain) :
    Refines followed (perform .create) (Plain.perform .create) workspace plain
      (Matches silent walks) :=
  .memory_bind (Memory.create_ends represents.sound) fun _ _ ⟨_, sound, evolves, shows, _, calm⟩ =>
    (addRegister_refines (represents.quiet sound evolves fun holds => ⟨holds, calm.silent⟩)
      shows.vector fun _ => rfl).imp
      fun _ _ _ _ _ => .of_nothing

theorem fill_refines (represents : Represents silent followed walks [] workspace plain)
    (recipes : List Recipe) :
    Refines followed (perform (.fill recipes)) (Plain.perform (.fill recipes)) workspace plain
      (Matches silent walks) := by
  refine (makeAll_refines represents recipes).bind
    fun still values workspace trees plain ⟨represents, each, little⟩ => ?_
  refine .memory_bind (Memory.newVector_ends represents.sound each represents.idle) ?_
  rintro result after ⟨items, grows, exact'⟩
  exact (addRegister_refines (represents_grown represents grows little) grows.denotes
    fun holds => exact' (Or.inl holds) (little holds)).imp fun _ _ _ _ _ => .of_nothing

theorem copy_refines (represents : Represents silent followed walks [] workspace plain)
    (position : Nat) :
    Refines followed (perform (.copy position)) (Plain.perform (.copy position)) workspace plain
      (Matches silent walks) := by
  refine (register_refines represents position).bind ?_
  rintro _ address _ items _ ⟨rfl, rfl, rfl, found, lists, _⟩
  refine .modify_memory_bind ?_
  refine (addRegister_refines (represents_copied represents found) ?_ fun _ => rfl).imp
    fun _ _ _ _ _ => .of_nothing
  exact (Evolves.of_reowned represents.sound (workspace.memory.reowned_retain _)).denotes lists

theorem append_refines (represents : Represents silent followed walks [] workspace plain)
    (position : Nat) (recipe : Recipe) :
    Refines followed (perform (.append position recipe)) (Plain.perform (.append position recipe))
      workspace plain (Matches silent walks) := by
  refine (make_refines represents recipe).bind
    fun still value workspace tree plain ⟨represents, denotes, small⟩ => ?_
  exact (changeRegister_refines represents position
    (fun _ holds _ _ => Tree.length_parts_lt (small holds))
    fun address items rest sound lists =>
      Memory.append_ends value sound lists denotes (represents.idle address)).imp
        fun _ _ _ _ _ => .of_nothing

theorem extend_refines (represents : Represents silent followed walks [] workspace plain)
    (position : Nat) (recipes : List Recipe) :
    Refines followed (perform (.extend position recipes)) (Plain.perform (.extend position recipes))
      workspace plain (Matches silent walks) := by
  refine (makeAll_refines represents recipes).bind
    fun still values workspace trees plain ⟨represents, each, little⟩ => ?_
  exact (changeRegister_refines represents position (fun _ holds _ _ => little holds)
    fun address items rest sound lists =>
      Memory.extend_ends sound lists each represents.idle).imp fun _ _ _ _ _ => .of_nothing

/-- A vector at work is appended to a register as an embedded one. -/
theorem embedded_refines {other : Address} {more : List Tree}
    (represents : Represents silent followed walks [other] workspace plain)
    (lists : Lists workspace.memory other more) (little : followed → more.length < 2 ^ 64)
    (position : Nat) :
    Refines followed
      (changeRegister position fun receiver => Memory.append receiver (.embedded other))
      (Plain.changeRegister position (· ++ more)) workspace plain
      fun still answer last meant model =>
        Represents silent still walks [] last model ∧ answer = .nothing ∧ meant = some .nothing :=
          by
  obtain ⟨elements, shows⟩ := Shows.of_vector lists
  exact changeRegister_refines represents position (fun _ holds _ _ => little holds)
    fun address items rest sound lists =>
      Memory.append_ends (.embedded other) sound lists shows.embedded (represents.idle address)

theorem embed_refines (represents : Represents silent followed walks [] workspace plain)
    (position : Nat) (recipe : Recipe) :
    Refines followed (perform (.embed position recipe)) (Plain.perform (.embed position recipe))
      workspace plain (Matches silent walks) := by
  refine (makeVector_refines represents recipe).bind
    fun still other workspace items plain ⟨represents, lists, little⟩ => ?_
  have size := fun holds =>
    size_eq_of_lists represents List.mem_cons_self lists (little holds) holds
  refine .lookUp_bind (workspace.memory.size other) rfl ?_
  have grows := embedded_refines represents lists little position
  generalize workspace.memory.size other = counted at size ⊢
  have steps : Refines still
      (do
        let _ ← changeRegister position fun receiver => Memory.append receiver (.embedded other)
        return Answer.size counted (counted = 0))
      (do
        let _ ← Plain.changeRegister position (· ++ items)
        return some (.size counted (counted = 0))) workspace plain (Matches silent walks) :=
    grows.bind fun _ _ _ _ _ ⟨represents, _, _⟩ => .pure (.intro represents (.size _ _))
  refine steps.replace fun holds => ?_
  rw [size holds, decide_length_eq_zero]

theorem embedMoved_refines (represents : Represents silent followed walks [] workspace plain)
    (position source : Nat) :
    Refines followed (perform (.embedMoved position source))
      (Plain.perform (.embedMoved position source)) workspace plain (Matches silent walks) := by
  refine (takeRegister_refines represents source).bind
    fun still other workspace items plain ⟨represents, lists, little⟩ => ?_
  exact (embedded_refines represents lists little position).imp fun _ _ _ _ _ => .of_nothing

/-- The elements of a vector at work are appended to a register. -/
theorem concatenated_refines {other : Address} {more : List Tree}
    (represents : Represents silent followed walks [other] workspace plain)
    (lists : Lists workspace.memory other more) (position : Nat) :
    Refines followed (changeRegister position fun receiver => Memory.concatenate receiver other)
      (Plain.changeRegister position (· ++ more)) workspace plain (Matches silent walks) :=
  (changeRegister_refines represents position (fun _ _ few _ => few)
    fun address _ _ sound receives =>
      Memory.concatenate_ends sound receives lists (represents.idle address)).imp
        fun _ _ _ _ _ => .of_nothing

theorem concatenate_refines (represents : Represents silent followed walks [] workspace plain)
    (position : Nat) (recipe : Recipe) :
    Refines followed (perform (.concatenate position recipe))
      (Plain.perform (.concatenate position recipe)) workspace plain (Matches silent walks) :=
  (makeVector_refines represents recipe).bind fun _ _ _ _ _ ⟨represents, lists, _⟩ =>
    concatenated_refines represents lists position

theorem concatenateMoved_refines (represents : Represents silent followed walks [] workspace plain)
    (position source : Nat) :
    Refines followed (perform (.concatenateMoved position source))
      (Plain.perform (.concatenateMoved position source)) workspace plain (Matches silent walks) :=
  (takeRegister_refines represents source).bind fun _ _ _ _ _ ⟨represents, lists, _⟩ =>
    concatenated_refines represents lists position

end Growing

section Looking

/-- A register is at work. -/
theorem mem_roots {position : Nat} {address : Address}
    (found : workspace.registers[position]? = some address) : address ∈ workspace.roots :=
  List.mem_append_left _ (List.mem_of_getElem? found)

theorem mem_roots_of_register {position : Nat} {address : Address}
    (found : workspace.registers[position]? = some address) :
    ∀ handle ∈ handles [.vector address], handle ∈ workspace.roots := by
  intro handle member
  obtain rfl := List.mem_singleton.mp member
  exact mem_roots found

theorem double_refines (represents : Represents silent followed walks [] workspace plain)
    (position count : Nat) :
    Refines followed (perform (.double position count)) (Plain.perform (.double position count))
      workspace plain (Matches silent walks) :=
  (changeRegister_refines represents position (fun _ _ _ few => few) fun _ _ _ sound lists =>
    Memory.double_ends sound lists represents.idle).imp fun _ _ _ _ _ => .of_nothing

theorem chain_refines (represents : Represents silent followed walks [] workspace plain)
    (position count : Nat) :
    Refines followed (perform (.chain position count)) (Plain.perform (.chain position count))
      workspace plain (Matches silent walks) :=
  (changeRegister_refines represents position (fun _ _ _ few => few) fun _ _ _ sound lists =>
    Memory.chain_ends sound lists represents.idle).imp fun _ _ _ _ _ => .of_nothing

theorem unwrap_refines (represents : Represents silent followed walks [] workspace plain)
    (position : Nat) :
    Refines followed (perform (.unwrap position)) (Plain.perform (.unwrap position)) workspace
      plain (Matches silent walks) := by
  refine (register_refines represents position).bind ?_
  rintro _ address _ items _ ⟨rfl, rfl, rfl, _, _, _⟩
  exact .pure (.intro represents .nothing)

theorem reset_refines (represents : Represents silent followed walks [] workspace plain)
    (position : Nat) :
    Refines followed (perform (.reset position)) (Plain.perform (.reset position)) workspace plain
      (Matches silent walks) := by
  refine (takeRegister_refines represents position).bind
    fun still address workspace items plain ⟨represents, _, _⟩ => ?_
  exact .modify_memory_bind (.pure (.intro (represents_released represents) .nothing))

theorem flatten_refines (represents : Represents silent followed walks [] workspace plain)
    (position : Nat) :
    Refines followed (perform (.flatten position)) (Plain.perform (.flatten position)) workspace
      plain (Matches False walks) := by
  refine (register_refines represents position).bind ?_
  rintro _ address _ items _ ⟨rfl, rfl, rfl, found, _, _⟩
  have alive := represents.sound.owned.alive_of_mem (mem_roots found)
  exact .memory_bind (Memory.flatten_ends represents.sound alive)
    fun _ after ⟨sound, evolves, _⟩ => .pure (.intro (represents.quiet sound evolves False.elim)
      .nothing)

theorem element_refines (represents : Represents silent followed walks [] workspace plain)
    (position index : Nat) :
    Refines followed (perform (.element position index)) (Plain.perform (.element position index))
      workspace plain (Matches False walks) := by
  refine (register_refines represents position).bind ?_
  rintro _ address _ items _ ⟨rfl, rfl, rfl, found, lists, small⟩
  obtain ⟨elements, shows⟩ := Shows.of_vector lists
  refine .memory_bind (Memory.element_ends represents.sound (mem_roots found) index) ?_
  rintro _ after ⟨sound, evolves, values, trees, stores, rfl⟩
  have alive := sound.owned.alive_of_mem (List.mem_append_right _ (mem_roots found))
  have same : followed → values = elements ∧ trees = items := fun holds =>
    stores.eq_of_shows sound alive (Or.inl holds) (evolves.shows shows)
      (Tree.small_vector_iff.mp (small holds)).1
  have released := Evolves.of_reowned sound
    (after.reowned_release [Memory.elementOf values index])
  have taken := represents.quiet sound evolves False.elim
  refine .modify_memory_bind (.pure_eq (.intro (represents_released taken) (.value (fun holds => ?_)
    (released.denotes (Memory.denotes_elementOf stores.each index)))) fun holds => ?_)
  · rw [(same holds).1]
    exact Memory.direct_elementOf shows.expands.direct index
  · rw [(same holds).2]

theorem slice_refines (represents : Represents silent followed walks [] workspace plain)
    (position : Nat) :
    Refines followed (perform (.slice position)) (Plain.perform (.slice position)) workspace plain
      (Matches False walks) := by
  refine (register_refines represents position).bind ?_
  rintro _ address _ items _ ⟨rfl, rfl, rfl, found, lists, small⟩
  obtain ⟨elements, shows⟩ := Shows.of_vector lists
  refine .memory_bind (Memory.elements_ends represents.sound (mem_roots found)) ?_
  rintro _ after ⟨sound, evolves, values, trees, stores, rfl⟩
  have alive := sound.owned.alive_of_mem (mem_roots found)
  have same : followed → values = elements ∧ trees = items := fun holds =>
    stores.eq_of_shows sound alive (Or.inl holds) (evolves.shows shows)
      (Tree.small_vector_iff.mp (small holds)).1
  have taken := represents.quiet sound evolves False.elim
  refine .pure_eq (.intro taken (.values (fun holds => ?_) stores.each))
    fun holds => by rw [(same holds).2]
  rw [(same holds).1]
  exact shows.expands.direct

/-- What is looked up in the memory of a workspace is answered. -/
theorem lookUp_refines {look : Memory → Option α}
    (represents : Represents silent followed walks [] workspace plain) (result : α)
    (found : look workspace.memory = some result) {answer : α → Answer Value}
    {meant expected : Answer Tree}
    (answers : Answers followed workspace.memory (answer result) meant)
    (same : followed → meant = expected) :
    Refines followed (do return answer (← lookUp look)) (do return some expected) workspace plain
      (Matches silent walks) :=
  .lookUp_bind result found (.pure_eq (.intro represents answers)
    fun holds => congrArg some (same holds))

theorem list_refines (represents : Represents silent followed walks [] workspace plain)
    (position : Nat) :
    Refines followed (perform (.list position)) (Plain.perform (.list position)) workspace plain
      (Matches silent walks) := by
  refine (register_refines represents position).bind ?_
  rintro _ address _ items _ ⟨rfl, rfl, rfl, _, lists, _⟩
  obtain ⟨elements, shows⟩ := Shows.of_vector lists
  exact lookUp_refines represents elements.toArray (Memory.list_eq shows.inside shows.expands)
    (.values (fun _ => shows.expands.direct) shows.each) fun _ => rfl

theorem isEmpty_refines (represents : Represents silent followed walks [] workspace plain)
    (position : Nat) :
    Refines followed (perform (.isEmpty position)) (Plain.perform (.isEmpty position)) workspace
      plain (Matches silent walks) := by
  refine (register_refines represents position).bind ?_
  rintro _ address _ items _ ⟨rfl, rfl, rfl, found, lists, small⟩
  refine lookUp_refines represents (workspace.memory.size address) rfl (.flag _) fun holds => ?_
  rw [size_eq_of_lists represents (mem_roots found) lists
    (Tree.small_vector_iff.mp (small holds)).1 holds, decide_length_eq_zero]

theorem equal_refines (represents : Represents silent followed walks [] workspace plain)
    (position other : Nat) :
    Refines followed (perform (.equal position other)) (Plain.perform (.equal position other))
      workspace plain (Matches silent walks) := by
  refine (register_refines represents position).bind ?_
  rintro _ a _ xs _ ⟨rfl, rfl, rfl, foundFirst, first, smallFirst⟩
  refine (register_refines represents other).bind ?_
  rintro _ b _ ys _ ⟨rfl, rfl, rfl, foundSecond, second, smallSecond⟩
  obtain ⟨flag, equal, exact'⟩ := Value.equals_found represents.sound
    (mem_roots_of_register foundFirst) (mem_roots_of_register foundSecond) first second
  exact lookUp_refines represents flag equal (.flag _) fun holds =>
    congrArg Answer.flag (exact' (Or.inl holds) ⟨smallFirst holds, smallSecond holds⟩)

theorem shared_refines (represents : Represents silent followed walks [] workspace plain)
    (position other : Nat) :
    Refines followed (perform (.shared position other)) (Plain.perform (.shared position other))
      workspace plain (Matches silent walks) := by
  refine (register_refines represents position).bind ?_
  rintro _ a _ xs _ ⟨rfl, rfl, rfl, _, _, _⟩
  refine (register_refines represents other).bind ?_
  rintro _ b _ ys _ ⟨rfl, rfl, rfl, _, _, _⟩
  exact .pure ⟨represents, fun _ member => nomatch member⟩

theorem inspect_refines (represents : Represents silent followed walks [] workspace plain)
    (position : Nat) :
    Refines followed (perform (.inspect position)) (Plain.perform (.inspect position)) workspace
      plain (Matches silent walks) := by
  refine (register_refines represents position).bind ?_
  rintro _ address _ items _ ⟨rfl, rfl, rfl, _, lists, _⟩
  exact lookUp_refines represents _ (Memory.inspected_eq lists) (.text _) fun _ => rfl

theorem display_refines (represents : Represents silent followed walks [] workspace plain)
    (position : Nat) :
    Refines followed (perform (.display position)) (Plain.perform (.display position)) workspace
      plain (Matches silent walks) := by
  refine (register_refines represents position).bind ?_
  rintro _ address _ items _ ⟨rfl, rfl, rfl, _, lists, _⟩
  exact lookUp_refines represents _ (Value.shown_eq lists) (.text _) fun _ => rfl

end Looking

section Walking

/-- A walk begins with the items that the register lists, and other walks stay where they are. -/
theorem walk_refines (represents : Represents silent followed walks [] workspace plain)
    (position : Nat) :
    Refines followed (perform (.walk position)) (Plain.perform (.walk position)) workspace plain
      fun still answer last meant model => ∃ items, plain.registers[position]? = some items ∧
        Matches silent (walks ++ [⟨items, 0⟩]) still answer last meant model := by
  refine (register_refines represents position).bind ?_
  rintro _ address _ items _ ⟨rfl, rfl, rfl, found, lists, _, planted⟩
  have kept := (Evolves.of_reowned represents.sound
    (workspace.memory.reowned_retain [.vector address])).denotes lists
  have begun := (represents_copied represents found).walkAdded (.start kept)
  exact .modify_memory_bind (.change_bind (.pure ⟨items, planted, .intro begun .nothing⟩))

/-- A step that draws from the walk at a place moves that walk and no other. -/
theorem draws_refine (represents : Represents silent followed walks [] workspace plain)
    {position : Nat}
    {action : Step} {work : Walk → Work (Answer Value)} {given : PlainWalk → List Tree}
    {passed : PlainWalk → Nat} (works : perform action = walkAt position >>= work)
    (plainWorks : Plain.perform action = do
      let walk ← Plain.walkAt position
      Plain.setWalk position { walk with passed := passed walk }
      return some (.values (given walk)))
    (draws : ∀ walk, walks[position]? = some walk →
      Draws silent followed walks workspace plain position action (given walk)
        { walk with passed := passed walk })
    (own : ∀ walk : PlainWalk,
      Plain.asked position walk.sequence.length walk.passed action = passed walk)
    (others : ∀ place, position ≠ place → ∀ size passed,
      Plain.asked place size passed action = passed) :
    Refines followed (perform action) (Plain.perform action) workspace plain
      (Takes silent walks action) := by
  obtain rfl := represents.tracked
  rcases forall₂_getElem? represents.walks position with
    ⟨missing, absent⟩ | ⟨old, walk, found, planted, _⟩
  · have lacking : Refines followed (walkAt position) (Plain.walkAt position) workspace plain
        fun _ _ _ _ _ => False := by
      refine .get_bind ?_
      rw [missing, absent]
      exact .throw _
    rw [works, plainWorks]
    exact lacking.bind fun _ _ _ _ _ impossible => impossible.elim
  · obtain ⟨values, last, ends, direct, each, moved⟩ := draws walk planted
    have follows : Plain.perform action plain = .ok (some (.values (given walk)),
        { plain with
          walks := plain.walks.set position { walk with passed := passed walk } }) := by
      have there : Plain.walkAt position plain = .ok (walk, plain) := by
        simp only [Plain.walkAt, bind, StateT.bind, get, getThe, MonadStateOf.get, StateT.get, pure,
          Except.bind, Except.pure, planted]
        rfl
      rw [plainWorks]
      show (Plain.walkAt position plain >>= _) = _
      rw [there]
      rfl
    exact .of_ok follows ends
      ⟨.intro (moved.hush And.left) (.values (fun _ => direct) each), .set planted (own walk)
        others⟩

theorem next_refines (represents : Represents silent followed walks [] workspace plain)
    (position : Nat) :
    Refines followed (perform (.next position)) (Plain.perform (.next position)) workspace plain
      (Takes silent walks (.next position)) :=
  draws_refine represents rfl rfl (fun _ => next_draws represents) (fun _ => if_pos rfl)
    fun _ other _ _ => if_neg other

theorem rest_refines (represents : Represents silent followed walks [] workspace plain)
    (position : Nat) :
    Refines followed (perform (.rest position)) (Plain.perform (.rest position)) workspace plain
      (Takes silent walks (.rest position)) :=
  draws_refine represents rfl rfl (fun _ => rest_draws represents) (fun _ => if_pos rfl)
    fun _ other _ _ => if_neg other

end Walking

section Operating

theorem keep_refines (represents : Represents silent followed walks [] workspace plain)
    (recipe : Recipe) :
    Refines followed (perform (.keep recipe)) (Plain.perform (.keep recipe)) workspace plain
      (Matches silent walks) := by
  refine (make_refines represents recipe).bind
    fun still value workspace tree plain ⟨represents, denotes, _⟩ => ?_
  exact (addValue_refines represents denotes fun _ => rfl).bind
    fun _ _ _ _ _ ⟨represents, _⟩ => .pure (.intro represents .nothing)

/-- The answer of an operation is given. -/
theorem give_refines {clear : Prop} {answer : Answer Value} {after : Memory}
    {found : Answer Tree × List Warning}
    (represents : Represents silent followed walks [] workspace plain)
    (performed : Performed (followed ∨ workspace.memory.Fits) clear workspace.memory
      workspace.roots found answer after) (implies : followed → clear) :
    Refines followed
      (do
        if let .value result := answer then addValue result
        return answer : Work (Answer Value)) (Plain.give found)
      { workspace with memory := after } plain (Matches False walks) := by
  obtain ⟨sound, answers, evolves⟩ := performed
  have performed := represents.evolved sound evolves False.elim
  obtain ⟨meant, warned⟩ := found
  have answers := answers.mono implies
  refine .warn_bind ?_
  cases answers with
  | value direct denotes =>
    refine (addValue_refines performed denotes fun _ => rfl).bind
      fun still _ last _ model ⟨represents, same, implies⟩ => .pure (.intro represents ?_)
    rw [same]
    exact .value (fun holds => direct (implies holds)) denotes
  | nothing => exact .pure (.intro performed .nothing)
  | flag flag => exact .pure (.intro performed (.flag flag))
  | flags flags => exact .pure (.intro performed (.flags flags))
  | size size isEmpty => exact .pure (.intro performed (.size size isEmpty))
  | components components => exact .pure (.intro performed (.components components))
  | text text => exact .pure (.intro performed (.text text))
  | values direct each => exact .pure (.intro performed (.values direct each))

theorem operate_refines (represents : Represents silent followed walks [] workspace plain)
    (operation : Operation Nat) :
    Refines followed (perform (.operate operation)) (Plain.perform (.operate operation)) workspace
      plain (Matches False walks) := by
  refine (operands_refine represents operation).bind ?_
  rintro _ _ _ _ _ ⟨rfl, rfl, rfl, pairs, rfl, rfl, found⟩
  have held : ∀ pair ∈ pairs.operands, ∀ handle ∈ handles [pair.1], handle ∈ workspace.roots := by
    intro pair member handle inValue
    have one := List.singleton_sublist.mpr (found pair member).1
    exact List.mem_append_right _ (List.mem_append_right _ ((handles_sublist one).subset inValue))
  have small : followed → (pairs.map Prod.snd).Small := by
    intro holds tree member
    rw [Operation.operands_map] at member
    obtain ⟨pair, inPairs, rfl⟩ := List.mem_map.mp member
    exact (represents.small holds).values _ (found pair inPairs).2.1
  have ends := pairs.perform_ends represents.sound held fun pair member => (found pair member).2.2
  refine .memory_bind ends ?_
  rintro answer after ⟨outcome, performed, exact'⟩
  refine (give_refines represents performed fun holds => ⟨Or.inl holds, small holds⟩).replace
    fun holds => ?_
  rw [exact' (Or.inl holds) (small holds)]

end Operating

/-! ### Runs -/

/-- A step that asks no walk for items leaves all walks where they are. -/
theorem takes_of_matches {action : Step} {calm : Prop}
    (refines : Refines followed (perform action) (Plain.perform action) workspace plain
      (Matches calm walks)) (implies : silent ∧ action.flattens = false → calm)
    (same : ∀ place size passed, Plain.asked place size passed action = passed) :
    Refines followed (perform action) (Plain.perform action) workspace plain
      (Takes silent walks action) := by
  refine refines.imp fun still answer last meant model ends => ⟨?_, ?_⟩
  · rw [ends.represents.tracked]
    exact ⟨ends.represents.hush implies, ends.answers⟩
  · rw [ends.represents.tracked]
    exact .refl same

/-- Every step is taken as plain lists take it. -/
theorem perform_refines (represents : Represents silent followed walks [] workspace plain)
    (action : Step) :
    Refines followed (perform action) (Plain.perform action) workspace plain
      (Takes silent walks action) := by
  have loud : ∀ {action : Step}, action.flattens = true →
      silent ∧ action.flattens = false → False :=
    fun flattens holds => Bool.noConfusion (flattens.symm.trans holds.2)
  cases action with
  | create => exact takes_of_matches (create_refines represents) And.left fun _ _ _ => rfl
  | fill recipes =>
    exact takes_of_matches (fill_refines represents recipes) And.left fun _ _ _ => rfl
  | copy position =>
    exact takes_of_matches (copy_refines represents position) And.left fun _ _ _ => rfl
  | append position recipe =>
    exact takes_of_matches (append_refines represents position recipe) And.left fun _ _ _ => rfl
  | extend position recipes =>
    exact takes_of_matches (extend_refines represents position recipes) And.left fun _ _ _ => rfl
  | embed position recipe =>
    exact takes_of_matches (embed_refines represents position recipe) And.left fun _ _ _ => rfl
  | embedMoved position source =>
    exact takes_of_matches (embedMoved_refines represents position source) And.left fun _ _ _ => rfl
  | concatenate position recipe =>
    exact takes_of_matches (concatenate_refines represents position recipe) And.left fun _ _ _ =>
      rfl
  | concatenateMoved position source =>
    exact takes_of_matches (concatenateMoved_refines represents position source) And.left fun _ _ _
      => rfl
  | double position count =>
    exact takes_of_matches (double_refines represents position count) And.left fun _ _ _ => rfl
  | chain position count =>
    exact takes_of_matches (chain_refines represents position count) And.left fun _ _ _ => rfl
  | unwrap position =>
    exact takes_of_matches (unwrap_refines represents position) And.left fun _ _ _ => rfl
  | reset position =>
    exact takes_of_matches (reset_refines represents position) And.left fun _ _ _ => rfl
  | flatten position =>
    exact takes_of_matches (flatten_refines represents position) (loud rfl) fun _ _ _ => rfl
  | element position index =>
    exact takes_of_matches (element_refines represents position index) (loud rfl) fun _ _ _ => rfl
  | slice position =>
    exact takes_of_matches (slice_refines represents position) (loud rfl) fun _ _ _ => rfl
  | list position =>
    exact takes_of_matches (list_refines represents position) And.left fun _ _ _ => rfl
  | isEmpty position =>
    exact takes_of_matches (isEmpty_refines represents position) And.left fun _ _ _ => rfl
  | equal position other =>
    exact takes_of_matches (equal_refines represents position other) And.left fun _ _ _ => rfl
  | shared position other =>
    exact takes_of_matches (shared_refines represents position other) And.left fun _ _ _ => rfl
  | inspect position =>
    exact takes_of_matches (inspect_refines represents position) And.left fun _ _ _ => rfl
  | display position =>
    exact takes_of_matches (display_refines represents position) And.left fun _ _ _ => rfl
  | walk position =>
    refine (walk_refines represents position).imp ?_
    rintro still answer last meant model ⟨items, _, ends⟩
    refine ⟨?_, ?_⟩
    · rw [ends.represents.tracked]
      exact ⟨ends.represents.hush And.left, ends.answers⟩
    · rw [ends.represents.tracked]
      exact .append (fun _ _ _ => rfl) _
  | next position => exact next_refines represents position
  | rest position => exact rest_refines represents position
  | keep recipe => exact takes_of_matches (keep_refines represents recipe) And.left fun _ _ _ => rfl
  | operate operation =>
    exact takes_of_matches (operate_refines represents operation) (loud rfl) fun _ _ _ => rfl

/-- A report says of the lists what they say of themselves, and the step moved walks as such a step
does. -/
structure Reports (walks : List PlainWalk) (action : Step) (still : Prop) (report : Report)
    (last : Workspace) (meant : PlainReport) (model : Plain) : Prop where
  represents : Represents (action.flattens = false) still model.walks [] last model
  answers : ∀ expected ∈ meant.answer, Answers still last.memory report.answer expected
  sizes : still → report.sizes.map Prod.fst = meant.sizes
  warnings : report.events.filterMap Event.warning? = meant.warnings
  moved : Plain.Moved action walks model.walks

/-- The sizes of registers are the lengths of the lists. -/
theorem sizes_eq (represents : Represents silent followed walks further workspace plain)
    (holds : followed) :
    workspace.registers.map workspace.memory.size = plain.registers.map List.length := by
  refine List.forall₂_eq_eq_eq ▸ ?_
  rw [List.forall₂_map_left_iff, List.forall₂_map_right_iff]
  refine forall₂_imp_of_mem represents.registers fun address member items inPlain lists => ?_
  have counted := (represents.small holds).registers items inPlain
  exact size_eq_of_lists represents
    (List.mem_append_right _ (List.mem_append_left _ member)) lists
    (Tree.small_vector_iff.mp counted).1 holds

/-- Forgetting what was reported changes nothing else. -/
theorem represents_cleared (represents : Represents silent followed walks [] workspace plain) :
    Represents True followed walks []
      { workspace with memory := { workspace.memory with events := [] } }
      { plain with warnings := [] } := by
  have same : ∀ range, workspace.memory.Registers range →
      Memory.Registers { workspace.memory with events := [] } range := fun _ registers => registers
  have keeps : Keeps workspace.roots workspace.memory { workspace.memory with events := [] } :=
    .of_carries (.of_storages represents.sound rfl same) fun _ member =>
      Memory.owners_inside (represents.sound.owned.alive_of_mem member)
  have kept : Represents False followed walks []
      { workspace with memory := { workspace.memory with events := [] } }
      { plain with warnings := [] } :=
    represents.kept id False.elim (represents.sound.of_storages rfl same) represents.idle keeps
      represents.closures rfl
  exact { kept with traced := fun _ _ => rfl }

theorem step_refines (represents : Represents silent followed walks [] workspace plain)
    (action : Step) :
    Refines followed (step action) (Plain.step action) workspace plain (Reports walks action) := by
  refine .change_bind ?_
  refine (perform_refines (represents_cleared represents) action).bind
    fun still answer last meant model ⟨⟨represents, answers⟩, moved⟩ => ?_
  refine .get_bind (.pure ⟨represents.hush fun silent => ⟨trivial, silent⟩, answers, fun holds =>
    ?_, ?_, moved⟩)
  · rw [List.map_map]
    exact sizes_eq represents holds
  · rw [List.filterMap_reverse]
    exact represents.warnings

/-- A run is taken step by step as plain lists take it. Its walks are moved by steps of theirs
alone. -/
theorem run_refines (represents : Represents silent followed walks [] workspace plain)
    (steps : List Step) :
    Refines followed (run steps) (Plain.run steps) workspace plain fun still _ last _ model =>
      Represents False still model.walks [] last model ∧
        ∀ (place : Nat) (walk : PlainWalk), walks[place]? = some walk →
          model.walks[place]? = some { walk with
            passed := steps.foldl (Plain.asked place walk.sequence.length) walk.passed } := by
  induction steps generalizing silent followed walks workspace plain with
  | nil =>
    refine .pure ⟨?_, fun place walk found => ?_⟩
    · rw [represents.tracked]
      exact represents.hush False.elim
    · rw [represents.tracked]
      exact found
  | cons action steps inductionHypothesis =>
    refine (step_refines represents action).bind fun _ _ _ _ _ reports => ?_
    refine (inductionHypothesis reports.represents).bind
      fun _ _ _ _ _ ⟨represents, further⟩ => .pure ⟨represents, fun place walk found => ?_⟩
    exact further place _ (reports.moved place walk found)

end Workspace

end SolidScript
