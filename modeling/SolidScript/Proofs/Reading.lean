/-
This file says what is left of a walk. A walk whose levels are up to date tracks the elements it
still passes: on each level those that the stored elements ahead stand for, behind those of the
levels further in. Taking the next element takes the first of them. A walk follows elements if it
tracks them once it is brought up to date, and it follows the same ones after any change of memory
that carries its storages, whichever of its levels were flattened.
-/

import SolidScript.Proofs.Carrying

namespace SolidScript

open Value (handles)

/-! ### Walks that are up to date -/

/-- The walk passes `rest`, if the levels further in still pass `inner`. -/
inductive Tracks (memory : Memory) : List Value → Walk → List Value → Prop
  | ended {inner : List Value} : Tracks memory inner [] inner
  | level {level : Level} {outer : Walk} {inner all here rest : List Value}
      (inside : level.storage < memory.storages.size)
      (whole : Expands memory (memory.contents level.storage) all)
      (ahead : Expands memory ((memory.contents level.storage).drop level.position) here)
      (passed : all.drop level.passed = inner ++ here)
      (spliced : level.spliced = (memory.excess level.storage != 0))
      (beyond : Tracks memory (inner ++ here) outer rest) :
      Tracks memory inner (level :: outer) rest

namespace Tracks

variable {memory : Memory}

/-- What the levels further in pass comes first. -/
theorem inner_prefix {inner rest : List Value} {walk : Walk}
    (tracks : Tracks memory inner walk rest) : ∃ later, rest = inner ++ later := by
  induction tracks with
  | ended => exact ⟨[], (List.append_nil _).symm⟩
  | level _ _ _ _ _ _ inductionHypothesis =>
    obtain ⟨later, rfl⟩ := inductionHypothesis
    exact ⟨_ ++ later, List.append_assoc ..⟩

theorem pass {inner rest : List Value} {value : Value} {walk : Walk}
    (tracks : Tracks memory (value :: inner) walk (value :: rest)) :
    Tracks memory inner (walk.map Level.pass) rest := by
  generalize start : value :: inner = front at tracks
  generalize whole : value :: rest = all at tracks
  induction tracks generalizing inner with
  | ended =>
    cases start
    cases whole
    exact .ended
  | level inside expands ahead passed spliced _ inductionHypothesis =>
    subst start
    refine .level inside expands ahead ?_ spliced (inductionHypothesis rfl whole)
    show List.drop (_ + 1) _ = _
    rw [← List.tail_drop, passed]
    rfl

/-- The walk from the start of a storage passes everything in it. -/
theorem start {address : Address} {elements : List Value}
    (inside : address < memory.storages.size)
    (expands : Expands memory (memory.contents address) elements) :
    Tracks memory [] (memory.walk address) elements :=
  .level inside expands expands rfl rfl .ended

end Tracks

/-! ### The next element -/

namespace Memory

variable {memory : Memory}

theorem head?_stored (level : Level) :
    (memory.storage level.storage).elements[level.position]? =
      ((memory.contents level.storage).drop level.position).head? := by
  rw [List.head?_drop]
  exact Array.getElem?_toList.symm

theorem advance_nil : memory.advance [] = some (none, []) := by
  rw [advance]

theorem advance_of_done {level : Level} {outer : Walk}
    (done : (memory.contents level.storage).drop level.position = []) :
    memory.advance (level :: outer) = memory.advance outer := by
  rw [advance]
  simp only [head?_stored, done, List.head?_nil]

theorem advance_of_embedded {level : Level} {outer : Walk} {inner : Address} {stored : List Value}
    (found : (memory.contents level.storage).drop level.position = .embedded inner :: stored) :
    memory.advance (level :: outer) =
      memory.advance (memory.enter inner :: level.skip :: outer) := by
  rw [advance]
  simp only [head?_stored, found, List.head?_cons]

theorem advance_of_direct {level : Level} {outer : Walk} {value : Value} {stored : List Value}
    (direct : value.isEmbedded = false)
    (found : (memory.contents level.storage).drop level.position = value :: stored) :
    memory.advance (level :: outer) = some (some value, (level.skip :: outer).map Level.pass) := by
  rw [advance]
  simp only [head?_stored, found, List.head?_cons]
  cases value with
  | embedded => contradiction
  | _ => rfl

theorem drop_skip {level : Level} {value : Value} {stored : List Value}
    (found : (memory.contents level.storage).drop level.position = value :: stored) :
    (memory.contents level.skip.storage).drop level.skip.position = stored := by
  show List.drop (level.position + 1) (memory.contents level.storage) = stored
  rw [← List.tail_drop, found]
  rfl

end Memory

/-- The next element is the first of the given ones, and what is left of the walk tracks the
others. -/
def Draws (memory : Memory) (walk : Walk) : List Value → Prop
  | [] => memory.advance walk = some (none, [])
  | value :: rest =>
    ∃ left, memory.advance walk = some (some value, left) ∧ Tracks memory [] left rest

theorem Draws.of_advance_eq {memory : Memory} {walk other : Walk} {rest : List Value}
    (same : memory.advance walk = memory.advance other) (draws : Draws memory other rest) :
    Draws memory walk rest := by
  cases rest with
  | nil => exact same.trans draws
  | cons value rest =>
    obtain ⟨left, advance, tracks⟩ := draws
    exact ⟨left, same.trans advance, tracks⟩

namespace Tracks

variable {memory : Memory}

/-- The induction is on what the stored elements ahead stand for: a placeholder opens a level
further in, which either draws or is left behind empty. -/
theorem draws_of_expands {stored here : List Value} (ahead : Expands memory stored here)
    {level : Level} {outer : Walk} {all rest : List Value}
    (found : (memory.contents level.storage).drop level.position = stored)
    (inside : level.storage < memory.storages.size)
    (whole : Expands memory (memory.contents level.storage) all)
    (passed : all.drop level.passed = here)
    (spliced : level.spliced = (memory.excess level.storage != 0))
    (beyond : Tracks memory here outer rest) (otherwise : here = [] → Draws memory outer rest) :
    Draws memory (level :: outer) rest := by
  induction ahead generalizing level outer all rest with
  | nil => exact .of_advance_eq (Memory.advance_of_done found) (otherwise rfl)
  | @plain value stored elements direct ahead _ =>
    obtain ⟨later, rfl⟩ := beyond.inner_prefix
    refine ⟨_, Memory.advance_of_direct direct found, ?_⟩
    refine Tracks.level inside whole ?_ ?_ spliced beyond.pass
    · rw [← Memory.drop_skip found] at ahead
      exact ahead
    · show List.drop (level.passed + 1) all = elements
      rw [← List.tail_drop, passed]
      rfl
  | @splice address stored inner elements innerInside hidden ahead innerHypothesis restHypothesis =>
    refine .of_advance_eq (Memory.advance_of_embedded found) ?_
    have behind := Memory.drop_skip found
    have skipped : Tracks memory inner (level.skip :: outer) rest := by
      refine .level inside whole ?_ passed spliced beyond
      rw [behind]
      exact ahead
    refine innerHypothesis rfl innerInside hidden rfl rfl skipped fun empty => ?_
    subst empty
    exact restHypothesis behind inside whole passed spliced beyond otherwise

theorem draws {walk : Walk} {rest : List Value} (tracks : Tracks memory [] walk rest) :
    Draws memory walk rest := by
  induction walk with
  | nil =>
    cases tracks
    exact Memory.advance_nil
  | cons level outer inductionHypothesis =>
    cases tracks with
    | level inside whole ahead passed spliced beyond =>
      refine draws_of_expands ahead rfl inside whole passed spliced beyond fun empty => ?_
      subst empty
      exact inductionHypothesis beyond

/-! ### Flattened levels -/

/-- No level of a walk that is up to date is outdated. -/
theorem restart?_eq {inner rest : List Value} {walk : Walk}
    (tracks : Tracks memory inner walk rest) : memory.restart? walk = none := by
  induction tracks with
  | ended => rfl
  | level _ _ _ _ spliced _ inductionHypothesis =>
    rw [Memory.restart?, inductionHypothesis, Memory.isOutdated, spliced]
    simp

end Tracks

variable {kept : Address → Prop} {before after : Memory}

/-- Once memory has changed, a walk either restarts where its elements go on, or has no level to
restart on and still tracks its elements. -/
theorem Tracks.carried (carries : Carries kept before after) {inner rest : List Value} {walk : Walk}
    (tracks : Tracks before inner walk rest) (start : ∀ level ∈ walk, kept level.storage) :
    (∃ left, after.restart? walk = some left ∧ Tracks after [] left rest) ∨
      (after.restart? walk = none ∧ Tracks after inner walk rest) := by
  induction tracks with
  | ended => exact Or.inr ⟨rfl, .ended⟩
  | @level level outer inner all here rest inside whole ahead passed spliced _
      inductionHypothesis =>
    have keptLevel := start level List.mem_cons_self
    have afterInside := Nat.lt_of_lt_of_le inside carries.length
    have afterWhole := carries.contents_expand keptLevel whole
    rcases inductionHypothesis fun other member => start other (List.mem_cons_of_mem _ member) with
      ⟨left, restarts, tracks⟩ | ⟨stays, beyond⟩
    · refine Or.inl ⟨left, ?_, tracks⟩
      rw [Memory.restart?, restarts]
    · rw [Memory.restart?, stays]
      cases carries.relaid level.storage keptLevel with
      | same contents excess =>
        refine Or.inr ⟨?_, .level afterInside afterWhole ?_ passed ?_ beyond⟩
        · simp [Memory.isOutdated, spliced, excess]
        · rw [contents]
          refine carries.expands ahead fun handle member => ?_
          exact carries.enclosed.closed _ keptLevel handle
            ((handles_sublist (List.drop_sublist ..)).subset member)
        · rw [spliced, excess]
      | flattened laterSpliced flat expands =>
        have outdated : after.isOutdated level = true := by
          simp [Memory.isOutdated, spliced, laterSpliced, flat]
        have stored : after.contents level.storage = all := expands.unique whole
        refine Or.inl ⟨level.restart :: outer, by simp [outdated], ?_⟩
        refine .level afterInside afterWhole ?_ passed ?_ beyond
        · show Expands after ((after.contents level.storage).drop level.passed) _
          rw [stored, passed]
          refine .of_direct after _ fun value member => whole.direct value ?_
          exact List.drop_subset level.passed all (passed ▸ member)
        · show false = (after.excess level.storage != 0)
          rw [flat]
          rfl

/-- A walk that is brought up to date twice is brought up to date for the second memory. -/
theorem resync_resync (flat : ∀ address, kept address → before.excess address = 0 →
      after.excess address = 0) (walk : Walk) (start : ∀ level ∈ walk, kept level.storage) :
    after.resync (before.resync walk) = after.resync walk := by
  suffices restarts : ∀ left, before.restart? walk = some left →
      after.restart? walk = some (after.resync left) by
    show after.resync ((before.restart? walk).getD walk) = (after.restart? walk).getD walk
    cases once : before.restart? walk with
    | none => rfl
    | some left =>
      rw [restarts left once]
      rfl
  induction walk with
  | nil => exact fun _ restarts => nomatch restarts
  | cons level outer inductionHypothesis =>
    have outerHypothesis :=
      inductionHypothesis fun other member => start other (List.mem_cons_of_mem _ member)
    intro left restarts
    rw [Memory.restart?] at restarts ⊢
    cases found : before.restart? outer with
    | some further =>
      rw [found] at restarts
      cases restarts
      rw [outerHypothesis left found]
    | none =>
      simp only [found] at restarts
      by_cases outdated : before.isOutdated level = true
      · rw [if_pos outdated] at restarts
        cases restarts
        have still : after.isOutdated level = true := by
          simp only [Memory.isOutdated, Bool.and_eq_true, beq_iff_eq] at outdated ⊢
          exact ⟨outdated.1, flat _ (start level List.mem_cons_self) outdated.2⟩
        have settled : after.isOutdated level.restart = false := rfl
        rw [Memory.resync, Memory.restart?]
        cases after.restart? outer with
        | some further => rfl
        | none => simp [still, settled]
      · rw [if_neg outdated] at restarts
        cases restarts

/-! ### Storages that a walk reaches -/

theorem Memory.mem_restart? {memory : Memory} {walk left : Walk}
    (restarts : memory.restart? walk = some left) :
    ∀ level ∈ left, ∃ other ∈ walk, level.storage = other.storage := by
  induction walk with
  | nil => contradiction
  | cons level outer inductionHypothesis =>
    rw [Memory.restart?] at restarts
    cases found : memory.restart? outer with
    | some further =>
      simp only [found, Option.some.injEq] at restarts
      subst restarts
      intro other member
      obtain ⟨origin, inOuter, same⟩ := inductionHypothesis found other member
      exact ⟨origin, List.mem_cons_of_mem _ inOuter, same⟩
    | none =>
      simp only [found] at restarts
      by_cases outdated : memory.isOutdated level = true
      · rw [if_pos outdated] at restarts
        cases restarts
        intro other member
        rcases List.mem_cons.mp member with rfl | later
        · exact ⟨level, List.mem_cons_self, rfl⟩
        · exact ⟨other, List.mem_cons_of_mem _ later, rfl⟩
      · rw [if_neg outdated] at restarts
        cases restarts

theorem Memory.mem_resync {memory : Memory} {walk : Walk} :
    ∀ level ∈ memory.resync walk, ∃ other ∈ walk, level.storage = other.storage := by
  unfold Memory.resync
  cases restarts : memory.restart? walk with
  | none => exact fun level member => ⟨level, member, rfl⟩
  | some left => exact Memory.mem_restart? restarts

/-- The levels entered on the way to the next element, and the element, are held by the storages of
the walk or by storages that these hold. -/
theorem Memory.advance_kept {memory : Memory} {kept : Address → Prop}
    (closed : ∀ address, kept address → ∀ handle ∈ handles (memory.contents address), kept handle)
    {walk : Walk} {outcome : Option Value × Walk} (advances : memory.advance walk = some outcome)
    (start : ∀ level ∈ walk, kept level.storage) :
    (∀ handle ∈ handles outcome.1.toList, kept handle) ∧
      ∀ level ∈ outcome.2, kept level.storage := by
  revert start
  refine Memory.advance.partial_correctness memory
    (fun walk outcome => (∀ level ∈ walk, kept level.storage) →
      (∀ handle ∈ handles outcome.1.toList, kept handle) ∧
        ∀ level ∈ outcome.2, kept level.storage) ?_ walk outcome advances
  intro advance inductionHypothesis walk outcome advances start
  cases walk with
  | nil =>
    cases advances
    exact ⟨fun _ member => absurd member List.not_mem_nil, start⟩
  | cons level outer =>
    have keptLevel := start level List.mem_cons_self
    have keptOuter : ∀ other ∈ outer, kept other.storage :=
      fun other member => start other (List.mem_cons_of_mem _ member)
    have skipped : ∀ other ∈ level.skip :: outer, kept other.storage :=
      List.forall_mem_cons.mpr ⟨keptLevel, keptOuter⟩
    simp only at advances
    split at advances
    · exact inductionHypothesis _ _ advances keptOuter
    next inner found =>
      refine inductionHypothesis _ _ advances (List.forall_mem_cons.mpr ⟨?_, skipped⟩)
      refine closed _ keptLevel inner (mem_handles.mpr (Or.inr ?_))
      exact Array.mem_toList_iff.mpr (Array.mem_of_getElem? found)
    next value _ found =>
      cases advances
      refine ⟨fun handle member => closed _ keptLevel handle ?_, fun other member => ?_⟩
      · refine (handles_sublist (List.singleton_sublist.mpr ?_)).subset member
        exact Array.mem_toList_iff.mpr (Array.mem_of_getElem? found)
      · obtain ⟨origin, inWalk, rfl⟩ := List.mem_map.mp member
        exact skipped origin inWalk

theorem Memory.next_kept {memory : Memory} {kept : Address → Prop}
    (closed : ∀ address, kept address → ∀ handle ∈ handles (memory.contents address), kept handle)
    {walk : Walk} {outcome : Option Value × Walk} (next : memory.next walk = some outcome)
    (start : ∀ level ∈ walk, kept level.storage) :
    (∀ handle ∈ handles outcome.1.toList, kept handle) ∧
      ∀ level ∈ outcome.2, kept level.storage := by
  refine Memory.advance_kept closed next fun level member => ?_
  obtain ⟨other, inWalk, same⟩ := Memory.mem_resync level member
  exact same ▸ start other inWalk

namespace Tracks

/-- The elements that a walk passes refer to what its storages hold. -/
theorem handles_of {memory : Memory} {kept : Address → Prop}
    (closed : ∀ address, kept address → ∀ handle ∈ handles (memory.contents address), kept handle)
    {inner rest : List Value} {walk : Walk} (tracks : Tracks memory inner walk rest)
    (start : ∀ level ∈ walk, kept level.storage) (further : ∀ handle ∈ handles inner, kept handle) :
    ∀ handle ∈ handles rest, kept handle := by
  induction tracks with
  | ended => exact further
  | @level level _ _ _ _ _ _ _ ahead _ _ _ inductionHypothesis =>
    refine inductionHypothesis
      (fun other member => start other (List.mem_cons_of_mem _ member)) fun handle member => ?_
    rw [handles_append] at member
    rcases List.mem_append.mp member with inFurther | inHere
    · exact further handle inFurther
    · refine ahead.handles_of closed (fun other stored => ?_) handle inHere
      refine closed _ (start level List.mem_cons_self) other ?_
      exact (handles_sublist (List.drop_sublist ..)).subset stored

/-- A walk passes no placeholder. -/
theorem direct {memory : Memory} {inner rest : List Value} {walk : Walk}
    (tracks : Tracks memory inner walk rest)
    (further : ∀ value ∈ inner, value.isEmbedded = false) :
    ∀ value ∈ rest, value.isEmbedded = false := by
  induction tracks with
  | ended => exact further
  | level _ _ ahead _ _ _ inductionHypothesis =>
    refine inductionHypothesis fun value member => ?_
    rcases List.mem_append.mp member with inFurther | inHere
    · exact further value inFurther
    · exact ahead.direct value inHere

theorem inside {memory : Memory} {inner rest : List Value} {walk : Walk}
    (tracks : Tracks memory inner walk rest) :
    ∀ level ∈ walk, level.storage < memory.storages.size := by
  induction tracks with
  | ended => exact fun _ member => absurd member List.not_mem_nil
  | level inside _ _ _ _ _ inductionHypothesis =>
    exact List.forall_mem_cons.mpr ⟨inside, inductionHypothesis⟩

theorem resync_eq {memory : Memory} {inner rest : List Value} {walk : Walk}
    (tracks : Tracks memory inner walk rest) : memory.resync walk = walk := by
  rw [Memory.resync, tracks.restart?_eq]
  rfl

end Tracks

/-! ### All elements -/

namespace Memory

variable {memory : Memory}

theorem collect_eq {walk : Walk} {elements : List Value}
    (tracks : Tracks memory [] (memory.resync walk) elements) (found : Array Value) :
    memory.collect found walk = some (found ++ elements) := by
  induction elements generalizing walk found with
  | nil =>
    have advance : memory.next walk = some (none, []) := tracks.draws
    rw [collect, advance, Array.appendList_nil]
    rfl
  | cons value elements inductionHypothesis =>
    obtain ⟨left, advance, further⟩ := tracks.draws
    have next : memory.next walk = some (some value, left) := advance
    rw [← further.resync_eq] at further
    rw [collect, next]
    show memory.collect (found.push value) left = _
    rw [inductionHypothesis further]
    simp

/-- All elements of a vector are those that its stored elements stand for. -/
theorem list_eq {address : Address} {elements : List Value}
    (inside : address < memory.storages.size)
    (expands : Expands memory (memory.contents address) elements) :
    memory.list address = some elements.toArray := by
  have tracks := Tracks.start inside expands
  rw [← tracks.resync_eq] at tracks
  rw [list, collect_eq tracks]
  simp

end Memory

/-! ### Following a walk through changes of memory -/

/-- What is left of the walk denotes the given trees, in order. -/
def Follows (memory : Memory) (walk : Walk) (items : List Tree) : Prop :=
  (∀ level ∈ walk, level.storage < memory.storages.size) ∧
    ∃ elements, Tracks memory [] (memory.resync walk) elements ∧
      List.Forall₂ (Denotes memory) elements items

namespace Follows

theorem of_tracks {memory : Memory} {walk : Walk} {elements : List Value} {items : List Tree}
    (tracks : Tracks memory [] walk elements)
    (each : List.Forall₂ (Denotes memory) elements items) : Follows memory walk items := by
  refine ⟨tracks.inside, elements, ?_, each⟩
  rw [tracks.resync_eq]
  exact tracks

theorem start {memory : Memory} {address : Address} {elements : List Value} {items : List Tree}
    (shows : Shows memory address elements items) : Follows memory (memory.walk address) items :=
  of_tracks (.start shows.inside shows.expands) shows.each

theorem of_vector {memory : Memory} {address : Address} {items : List Tree}
    (denotes : Denotes memory (.vector address) (.vector items)) :
    Follows memory (memory.walk address) items := by
  obtain ⟨elements, shows⟩ := Shows.of_vector denotes
  exact start shows

theorem ended (memory : Memory) : Follows memory [] [] :=
  of_tracks .ended .nil

/-- A walk of which nothing is left gives nothing more. -/
theorem next_nil {memory : Memory} {walk : Walk} (follows : Follows memory walk []) :
    memory.next walk = some (none, []) := by
  obtain ⟨_, elements, tracks, each⟩ := follows
  cases each
  exact tracks.draws

/-- The next element of a walk denotes the first of the trees that it follows. -/
theorem next_cons {memory : Memory} {walk : Walk} {item : Tree} {items : List Tree}
    (follows : Follows memory walk (item :: items)) :
    ∃ value left, memory.next walk = some (some value, left) ∧ value.isEmbedded = false ∧
      Denotes memory value item ∧ Follows memory left items := by
  obtain ⟨_, elements, tracks, each⟩ := follows
  cases each with
  | cons head rest =>
    obtain ⟨left, advance, further⟩ := tracks.draws
    have direct := tracks.direct (fun _ member => absurd member List.not_mem_nil)
    exact ⟨_, left, advance, direct _ List.mem_cons_self, head, of_tracks further rest⟩

/-- All that is left of a walk denotes the trees that it follows. -/
theorem collect {memory : Memory} {walk : Walk} {items : List Tree}
    (follows : Follows memory walk items) :
    ∃ elements : List Value, memory.collect #[] walk = some elements.toArray ∧
      (∀ value ∈ elements, value.isEmbedded = false) ∧
      List.Forall₂ (Denotes memory) elements items := by
  obtain ⟨_, elements, tracks, each⟩ := follows
  refine ⟨elements, ?_, tracks.direct fun _ member => absurd member List.not_mem_nil, each⟩
  rw [Memory.collect_eq tracks]
  simp

/-- A walk follows the same trees after a change of memory that carries its storages. -/
theorem carried {kept : Address → Prop} {before after : Memory}
    (carries : Carries kept before after) {walk : Walk} {items : List Tree}
    (follows : Follows before walk items) (start : ∀ level ∈ walk, kept level.storage) :
    Follows after walk items := by
  obtain ⟨inside, elements, tracks, each⟩ := follows
  have current : ∀ level ∈ before.resync walk, kept level.storage := by
    intro level member
    obtain ⟨other, inWalk, same⟩ := Memory.mem_resync level member
    exact same ▸ start other inWalk
  have keptElements : ∀ handle ∈ handles elements, kept handle :=
    tracks.handles_of carries.enclosed.closed current fun _ member => absurd member List.not_mem_nil
  refine ⟨fun level member => Nat.lt_of_lt_of_le (inside level member) carries.length, elements, ?_,
    carries.each each keptElements⟩
  rw [← resync_resync carries.flat walk start, Memory.resync]
  rcases tracks.carried carries current with ⟨left, restarts, further⟩ | ⟨stays, further⟩
  · rw [restarts]
    exact further
  · rw [stays]
    exact further

end Follows

/-- A vector is walked through the items it denotes. -/
theorem Denotes.follows {memory : Memory} {address : Address} {tree : Tree}
    (denotes : Denotes memory (.vector address) tree) :
    ∃ items, tree = .vector items ∧ Follows memory (memory.walk address) items := by
  obtain ⟨elements, items, rfl, shows⟩ := denotes_vector_iff.mp denotes
  exact ⟨items, rfl, .start shows⟩

theorem Denotes.follows_embedded {memory : Memory} {address : Address} {tree : Tree}
    (denotes : Denotes memory (.embedded address) tree) :
    ∃ items, tree = .embedded items ∧ Follows memory (memory.walk address) items := by
  obtain ⟨elements, items, rfl, shows⟩ := denotes_embedded_iff.mp denotes
  exact ⟨items, rfl, .start shows⟩

end SolidScript
