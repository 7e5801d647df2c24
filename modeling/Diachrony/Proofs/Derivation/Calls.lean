import Diachrony.Proofs.Derivation.Growth

/-
  What is run in the course of a derivation.

  A derivation is a tree of tasks. A sequence calls for its
  items and for what persists, and a block for its rounds.
  Each task is carried out from the state in which the ones
  before it have left the word, and what it has left behind
  stays: records may be marked later on, but nothing that
  was recorded or reported is lost.

  Key definitions include:
    * `RunState.Carries`
    * `Task`
    * `Task.step`
    * `Task.Calls`
    * `Task.Reaches`
    * `Ruleset.Runs`

  Key theorems include:
    * `Task.step_carries`
    * `Task.Calls.carried`
    * `Task.Reaches.carried`
    * `Ruleset.Runs.carried`
-/

namespace Diachrony

------------------------------------------------------------
-- What is not lost
------------------------------------------------------------

/-
  A later state has all the records of an earlier one in
  their places, perhaps with more diagnostics, and it has
  all its reports, perhaps with more behind them.
-/
structure RunState.Carries
    (earlier later : RunState) : Prop where
  records :
    ∀ (i : Nat) (record : Record),
      earlier.trace[i]? = some record →
        ∃ other : Record,
          later.trace[i]? = some other ∧
            other.edit = record.edit ∧
            record.diagnostics ⊆ other.diagnostics
  reports : earlier.diagnostics <+: later.diagnostics

namespace RunState

variable {state next last : RunState}
variable {changed : Bool}

theorem Carries.same
    (state : RunState) :
    state.Carries state where
  records := fun _ record hRecord =>
    ⟨record, hRecord, rfl, List.Subset.refl _⟩
  reports := List.prefix_rfl

theorem Carries.trans
    (hNext : state.Carries next)
    (hLast : next.Carries last) :
    state.Carries last where
  records := by
    intro i record hRecord
    rcases hNext.records i record hRecord with
      ⟨other, hOther, hEdit, hMore⟩
    rcases hLast.records i other hOther with
      ⟨final, hFinal, hSame, hAll⟩
    exact
      ⟨final, hFinal, hSame.trans hEdit,
        List.Subset.trans hMore hAll⟩
  reports := List.IsPrefix.trans hNext.reports hLast.reports

/- A report keeps its place. -/
theorem Carries.getElem?_diagnostics
    (hLast : state.Carries last)
    {i : Nat}
    (hInside : i < state.diagnostics.length) :
    state.diagnostics[i]? = last.diagnostics[i]? := by
  rcases hLast.reports with ⟨more, hMore⟩
  rw [← hMore, List.getElem?_append_left hInside]

/- What only grows keeps all that was there. -/
theorem Grows.carries
    (hNext : state.Grows changed next) :
    state.Carries next := by
  rcases hNext with ⟨records, reports, hNext⟩
  constructor
  case records =>
    intro i record hRecord
    refine ⟨record, ?_, rfl, List.Subset.refl _⟩
    have hInside := (List.getElem?_eq_some_iff.mp hRecord).1
    rw [hNext.trace_eq, List.getElem?_append_left hInside]
    exact hRecord
  case reports =>
    rw [hNext.diagnostics_eq]
    exact List.prefix_append _ _

/- The records of a marked state, one by one. -/
theorem getElem?_trace_mark
    (state : RunState)
    (first i : Nat)
    (diagnostic : Diagnostic) :
    (state.mark first diagnostic).trace[i]? =
      (state.trace[i]?).map fun record =>
        if i < first then
          record
        else
          attachNew diagnostic record := by
  rw [mark]
  by_cases hInside : i < state.trace.length
  · by_cases hEarly : i < first
    · rw [List.getElem?_append_left (by simp; omega),
        List.getElem?_take_of_lt hEarly]
      simp [hEarly]
    · have hFirst : (state.trace.take first).length = first :=
        List.length_take_of_le (by omega)
      rw [List.getElem?_append_right (by omega), hFirst,
        List.getElem?_map, List.getElem?_drop,
        Nat.add_sub_cancel' (by omega)]
      simp [hEarly]
  · have hBehind : state.trace.length ≤ i := by
      omega
    rw [List.getElem?_eq_none hBehind, Option.map_none,
      List.getElem?_eq_none]
    simp
    omega

theorem mark_carries
    (state : RunState)
    (first : Nat)
    (diagnostic : Diagnostic) :
    state.Carries (state.mark first diagnostic) where
  records := by
    intro i record hRecord
    rw [getElem?_trace_mark, hRecord]
    refine ⟨_, rfl, ?_, ?_⟩
    · split
      · rfl
      · exact edit_attachNew diagnostic record
    · split
      · exact List.Subset.refl _
      · exact subset_attachNew diagnostic record
  reports := List.prefix_append _ _

end RunState

------------------------------------------------------------
-- Tasks
------------------------------------------------------------

variable {options : EngineOptions}
variable {choice : OptionalChoice}

/- The step that runs an item, with its flags. -/
def Item.flaggedStep
    (options : EngineOptions)
    (choice : OptionalChoice)
    (item : Item) : FlaggedStep where
  flags := item.flags
  step := Item.step options choice item

@[simp] theorem Item.flags_flaggedStep
    (item : Item) :
    (item.flaggedStep options choice).flags = item.flags :=
  rfl

theorem Items.steps_cons
    (item : Item)
    (rest : List Item) :
    Items.steps options choice (item :: rest) =
      item.flaggedStep options choice ::
        Items.steps options choice rest := by
  rw [Items.steps]
  rfl

/- An item that is run again after each of the next items. -/
structure PersistingItem where
  item : Item
  left : Int

namespace PersistingItem

/- The step that runs the item again. -/
def persisting
    (options : EngineOptions)
    (choice : OptionalChoice)
    (entry : PersistingItem) : Persisting where
  step := Item.step options choice entry.item
  left := entry.left

/- The items that still persist after one more run. -/
def remaining
    (entries : List PersistingItem) : List PersistingItem :=
  (entries.map fun entry =>
    { entry with left := entry.left - 1 }).filter
      fun entry => 0 < entry.left

/- The items that persist after an item has been run. -/
def next
    (entries : List PersistingItem)
    (item : Item) : List PersistingItem :=
  if 1 < item.flags.persist then
    remaining entries ++
      [{ item := item, left := item.flags.persist - 1 }]
  else
    remaining entries

theorem map_remaining
    (entries : List PersistingItem) :
    (remaining entries).map (persisting options choice) =
      Persisting.remaining
        (entries.map (persisting options choice)) := by
  simp only [remaining, Persisting.remaining, List.filter_map,
    List.map_map]
  rfl

/- What persists is known by the items it comes from. -/
theorem map_next
    (entries : List PersistingItem)
    (item : Item) :
    (next entries item).map (persisting options choice) =
      Persisting.add
        (Persisting.remaining
          (entries.map (persisting options choice)))
        (item.flaggedStep options choice) := by
  rw [← map_remaining, next, Persisting.add]
  change
    List.map _ (if 1 < item.flags.persist then _ else _) =
      if 1 < item.flags.persist then _ else _
  split
  · rw [List.map_append]
    rfl
  · rfl

/- What persists is an item or has persisted before it. -/
theorem mem_next
    {entries : List PersistingItem}
    {item : Item}
    {entry : PersistingItem}
    (hEntry : entry ∈ next entries item) :
    entry.item = item ∨
      ∃ other ∈ entries, entry.item = other.item := by
  have hOld : ∀ old ∈ remaining entries,
      ∃ other ∈ entries, old.item = other.item := by
    intro old hMem
    rcases List.mem_map.mp (List.mem_filter.mp hMem).1 with
      ⟨other, hOther, rfl⟩
    exact ⟨other, hOther, rfl⟩
  unfold next at hEntry
  split at hEntry
  · rcases List.mem_append.mp hEntry with hEarlier | hNew
    · exact Or.inr (hOld entry hEarlier)
    · obtain rfl := List.mem_singleton.mp hNew
      exact Or.inl rfl
  · exact Or.inr (hOld entry hEntry)

/- The items that persist, and all items inside them. -/
def walk
    (entries : List PersistingItem) : List Item :=
  entries.flatMap fun entry => entry.item.walk

end PersistingItem

/- What is carried out at some point of a derivation. -/
inductive Task where
  | item (item : Item)
  | again (entries : List PersistingItem)
  | items
      (rest : List Item)
      (previous : Bool)
      (entries : List PersistingItem)
      (changed : Bool)
  | rounds
      (head : BlockHead)
      (items : List Item)
      (first left : Nat)
      (seen : List Form)
      (changed : Bool)

namespace Task

/- The step that carries out a task. -/
def step
    (options : EngineOptions)
    (choice : OptionalChoice) : Task → Step
  | .item part => Item.step options choice part
  | .again entries =>
      Persisting.runAll
        (entries.map
          (PersistingItem.persisting options choice))
  | .items rest previous entries changed =>
      sequence choice (Items.steps options choice rest) previous
        (entries.map
          (PersistingItem.persisting options choice))
        changed
  | .rounds head inside first left seen changed =>
      repeatRounds options head
        (head.flags.passBound options.maxPasses)
        (sequenceAll choice
          (Items.steps options choice inside))
        first left seen changed

/- All items that a task may come to. -/
def walk : Task → List Item
  | .item part => part.walk
  | .again entries => PersistingItem.walk entries
  | .items rest _ entries _ =>
      Items.walk rest ++ PersistingItem.walk entries
  | .rounds _ inside _ _ _ _ => Items.walk inside

/-
  The task of carrying out a list of items from the start.
-/
def all
    (rest : List Item) : Task :=
  items rest false [] false

/-
  A task calls for another one, which is carried out from
  the state that the ones before it have left. The probe at
  the bound of a block is not among them: nothing comes of
  it but a report.
-/
inductive Calls
    (options : EngineOptions)
    (choice : OptionalChoice) :
    Task → RunState → Task → RunState → Prop where
  | plain
      {head : BlockHead}
      {inside : List Item}
      {state : RunState}
      (hPlain : head.flags.persistent = false) :
      Calls options choice
        (item (.block head inside)) state
        (all inside) state
  | block
      {head : BlockHead}
      {inside : List Item}
      {state : RunState}
      (hPersistent : head.flags.persistent = true) :
      Calls options choice
        (item (.block head inside)) state
        (rounds head inside state.trace.length
          (head.flags.passBound options.maxPasses).toNat
          [Form.ofWord state.word] false)
        state
  | round
      {head : BlockHead}
      {inside : List Item}
      {first left : Nat}
      {seen : List Form}
      {changed : Bool}
      {state : RunState} :
      Calls options choice
        (rounds head inside first (left + 1) seen changed) state
        (all inside) state
  | nextRound
      {head : BlockHead}
      {inside : List Item}
      {first left : Nat}
      {seen : List Form}
      {changed : Bool}
      {state next : RunState}
      (hNext :
        (all inside).step options choice state =
          .ok (next, true))
      (hGoing : next.stopped = false)
      (hNew :
        ¬(options.detectCycles = true ∧
          Form.ofWord next.word ∈ seen)) :
      Calls options choice
        (rounds head inside first (left + 1) seen changed) state
        (rounds head inside first left
          (Form.ofWord next.word :: seen) true)
        next
  | skip
      {first : Item}
      {rest : List Item}
      {previous changed : Bool}
      {entries : List PersistingItem}
      {state : RunState}
      (hSkipped :
        (first.flaggedStep options choice).isSkipped choice
          previous = true) :
      Calls options choice
        (items (first :: rest) previous entries changed) state
        (items rest false entries changed) state.skipItem
  | run
      {first : Item}
      {rest : List Item}
      {previous changed : Bool}
      {entries : List PersistingItem}
      {state : RunState}
      (hRun :
        (first.flaggedStep options choice).isSkipped choice
          previous = false) :
      Calls options choice
        (items (first :: rest) previous entries changed) state
        (item first) state
  | repeated
      {first : Item}
      {rest : List Item}
      {previous changed itemChanged : Bool}
      {entries : List PersistingItem}
      {state next : RunState}
      (hRun :
        (first.flaggedStep options choice).isSkipped choice
          previous = false)
      (hNext :
        (item first).step options choice state =
          .ok (next, itemChanged)) :
      Calls options choice
        (items (first :: rest) previous entries changed) state
        (again entries) next
  | rest
      {first : Item}
      {rest : List Item}
      {previous changed itemChanged laterChanged : Bool}
      {entries : List PersistingItem}
      {state next after : RunState}
      (hRun :
        (first.flaggedStep options choice).isSkipped choice
          previous = false)
      (hNext :
        (item first).step options choice state =
          .ok (next, itemChanged))
      (hAfter :
        (again entries).step options choice next =
          .ok (after, laterChanged))
      (hGoing :
        (after.stopIf
          (first.flags.stopsAfter itemChanged)).stopped =
            false) :
      Calls options choice
        (items (first :: rest) previous entries changed) state
        (items rest itemChanged
          (PersistingItem.next entries first)
          (changed || itemChanged || laterChanged))
        (after.stopIf (first.flags.stopsAfter itemChanged))
  | entry
      {entry : PersistingItem}
      {rest : List PersistingItem}
      {state : RunState} :
      Calls options choice
        (again (entry :: rest)) state
        (item entry.item) state
  | entries
      {entry : PersistingItem}
      {rest : List PersistingItem}
      {changed : Bool}
      {state next : RunState}
      (hNext :
        (item entry.item).step options choice state =
          .ok (next, changed)) :
      Calls options choice
        (again (entry :: rest)) state
        (again rest) next

/- A task that comes up in the course of another one. -/
inductive Reaches
    (options : EngineOptions)
    (choice : OptionalChoice)
    (root : Task)
    (start : RunState) : Task → RunState → Prop where
  | start : Reaches options choice root start root start
  | call
      {task part : Task}
      {state next : RunState}
      (hReaches :
        Reaches options choice root start task state)
      (hCalls : Calls options choice task state part next) :
      Reaches options choice root start part next

variable {task part root : Task}
variable {state next start : RunState}

/- A task calls for nothing but what it holds. -/
theorem Calls.walk_subset
    (hCalls : Calls options choice task state part next) :
    part.walk ⊆ task.walk := by
  intro one hOne
  cases hCalls with
  | plain _ =>
      simp only [walk, all, PersistingItem.walk,
        List.flatMap_nil, List.append_nil] at hOne
      exact List.mem_cons_of_mem _ hOne
  | block _ => exact List.mem_cons_of_mem _ hOne
  | round =>
      simpa only [walk, all, PersistingItem.walk,
        List.flatMap_nil, List.append_nil] using hOne
  | nextRound _ _ _ => exact hOne
  | skip _ =>
      rcases List.mem_append.mp hOne with hRest | hEntry
      · exact
          List.mem_append_left _
            (List.mem_append_right _ hRest)
      · exact List.mem_append_right _ hEntry
  | run _ =>
      exact
        List.mem_append_left _ (List.mem_append_left _ hOne)
  | repeated _ _ => exact List.mem_append_right _ hOne
  | rest _ _ _ _ =>
      rcases List.mem_append.mp hOne with hRest | hEntry
      · exact
          List.mem_append_left _
            (List.mem_append_right _ hRest)
      rcases List.mem_flatMap.mp hEntry with
        ⟨entry, hNext, hInside⟩
      rcases PersistingItem.mem_next hNext with
        hItem | ⟨other, hOther, hItem⟩
      · rw [hItem] at hInside
        exact
          List.mem_append_left _
            (List.mem_append_left _ hInside)
      · rw [hItem] at hInside
        exact
          List.mem_append_right _
            (List.mem_flatMap.mpr ⟨other, hOther, hInside⟩)
  | entry => exact List.mem_append_left _ hOne
  | entries _ => exact List.mem_append_right _ hOne

theorem Reaches.walk_subset
    (hReaches : Reaches options choice root start task state) :
    task.walk ⊆ root.walk := by
  induction hReaches with
  | start => exact List.Subset.refl _
  | call _ hCalls ih =>
      exact List.Subset.trans hCalls.walk_subset ih

end Task

------------------------------------------------------------
-- What a task leaves behind
------------------------------------------------------------

theorem PersistingItem.steps_grow
    (options : EngineOptions)
    (choice : OptionalChoice)
    (entries : List PersistingItem) :
    ∀ entry ∈ entries.map (persisting options choice),
      entry.step.Obeys RunState.Grows := by
  intro entry hEntry
  rcases List.mem_map.mp hEntry with ⟨part, _, rfl⟩
  exact part.item.step_grows

section Rounds

variable {head : BlockHead}
variable {bound : Int}
variable {body : Step}
variable {first left : Nat}
variable {seen : List Form}
variable {state last : RunState}
variable {changed anyChanged : Bool}

theorem endRounds_carries
    (hEnd :
      endRounds head bound body first changed state =
        .ok (last, anyChanged)) :
    state.Carries last := by
  rcases endRounds_cases hEnd with
    ⟨_, _, _, _, ⟨_, rfl⟩ | ⟨_, rfl⟩⟩
  · exact RunState.mark_carries state first _
  · exact RunState.Carries.same _

/- The rounds of a block mark what has been made in them. -/
theorem repeatRounds_carries
    (hBody : body.Obeys RunState.Grows)
    (hStep :
      repeatRounds options head bound body first left seen
          changed state =
        .ok (last, anyChanged)) :
    state.Carries last := by
  induction left generalizing seen changed state with
  | zero => exact endRounds_carries hStep
  | succ left ih =>
      rcases repeatRounds_cases hStep with
        ⟨next, roundChanged, hNext, hEnd⟩
      have hMade := (hBody hNext).carries
      rcases hEnd with ⟨_, rfl, _⟩ | ⟨_, _, _, _, rfl, _⟩ |
        ⟨_, _, _, hMore⟩
      · exact hMade
      · exact hMade.trans (RunState.mark_carries next first _)
      · exact hMade.trans (ih hMore)

end Rounds

namespace Task

variable {task part root : Task}
variable {state next start last : RunState}
variable {changed : Bool}

/- A task loses nothing that was there before it. -/
theorem step_carries
    (hStep : task.step options choice state = .ok (last, changed)) :
    state.Carries last := by
  cases task with
  | item part => exact (part.step_grows hStep).carries
  | again entries =>
      have hEntries :=
        PersistingItem.steps_grow options choice entries
      exact
        (Step.Obeys.runAll RunState.grows_composes hEntries
          hStep).carries
  | items rest previous entries changed =>
      have hEntries :=
        PersistingItem.steps_grow options choice entries
      rcases Step.Obeys.sequence RunState.grows_composes
          (Items.steps_grow rest) hEntries hStep with
        ⟨_, _, hGrows⟩
      exact hGrows.carries
  | rounds head inside first left seen changed =>
      exact
        repeatRounds_carries (Items.sequenceAll_grows inside)
          hStep

section Parts

variable {first : Item}
variable {rest : List Item}
variable {previous anyChanged : Bool}
variable {entries : List PersistingItem}
variable
  (hRun :
    (first.flaggedStep options choice).isSkipped choice
      previous = false)
variable
  (hStep :
    (items (first :: rest) previous entries changed).step
        options choice state =
      .ok (last, anyChanged))

include hRun hStep

/-
  An item is run, then all that persists, and then the rest
  of the items, unless the run is to end.
-/
theorem items_parts :
    ∃ next itemChanged after laterChanged,
      (item first).step options choice state =
          .ok (next, itemChanged) ∧
        (again entries).step options choice next =
          .ok (after, laterChanged) ∧
        (((after.stopIf
              (first.flags.stopsAfter itemChanged)).stopped =
            true ∧
          last =
            after.stopIf
              (first.flags.stopsAfter itemChanged)) ∨
        ((after.stopIf
              (first.flags.stopsAfter itemChanged)).stopped =
            false ∧
          (items rest itemChanged
              (PersistingItem.next entries first)
              (changed || itemChanged || laterChanged)).step
              options choice
              (after.stopIf
                (first.flags.stopsAfter itemChanged)) =
            .ok (last, anyChanged))) := by
  rw [step, Items.steps_cons] at hStep
  rcases sequence_cases hStep with ⟨hSkipped, _⟩ |
    ⟨_, next, itemChanged, after, laterChanged, hNext,
      hAfter, hEnd⟩
  · rw [hRun] at hSkipped
    cases hSkipped
  refine
    ⟨next, itemChanged, after, laterChanged, hNext, hAfter, ?_⟩
  rw [← PersistingItem.map_next,
    Item.flags_flaggedStep] at hEnd
  rcases hEnd with ⟨hStopped, hLast, _⟩ | ⟨hGoing, hMore⟩
  · exact Or.inl ⟨hStopped, hLast⟩
  · exact Or.inr ⟨hGoing, hMore⟩

/- What has been made by then is not lost by the rest. -/
theorem items_carry :
    ∃ next itemChanged after laterChanged,
      (item first).step options choice state =
          .ok (next, itemChanged) ∧
        (again entries).step options choice next =
          .ok (after, laterChanged) ∧
        after.Carries last := by
  rcases items_parts hRun hStep with
    ⟨next, itemChanged, after, laterChanged, hNext, hAfter,
      hEnd⟩
  refine
    ⟨next, itemChanged, after, laterChanged, hNext, hAfter, ?_⟩
  have hStop :
      after.Carries
        (after.stopIf (first.flags.stopsAfter itemChanged)) :=
    (RunState.grows_composes.stopIf after _).carries
  rcases hEnd with ⟨_, rfl⟩ | ⟨_, hRest⟩
  · exact hStop
  · exact hStop.trans (step_carries hRest)

end Parts

/-
  What a task has called for comes to a result, and the rest
  of the task loses nothing of it.
-/
theorem Calls.carried
    (hCalls : Calls options choice task state part next)
    (hStep : task.step options choice state = .ok (last, changed)) :
    ∃ after partChanged,
      part.step options choice next =
          .ok (after, partChanged) ∧
        after.Carries last := by
  cases hCalls with
  | plain hPlain =>
      rw [step, Item.step,
        BlockHead.step_of_plain hPlain] at hStep
      exact ⟨last, changed, hStep, RunState.Carries.same _⟩
  | block hPersistent =>
      rw [step, Item.step,
        BlockHead.step_of_persistent hPersistent] at hStep
      exact ⟨last, changed, hStep, RunState.Carries.same _⟩
  | round =>
      rcases repeatRounds_cases hStep with
        ⟨after, roundChanged, hAfter, hEnd⟩
      refine ⟨after, roundChanged, hAfter, ?_⟩
      rcases hEnd with ⟨_, rfl, _⟩ | ⟨_, _, _, _, rfl, _⟩ |
        ⟨_, _, _, hMore⟩
      · exact RunState.Carries.same _
      · exact RunState.mark_carries _ _ _
      · exact
          repeatRounds_carries (Items.sequenceAll_grows _)
            hMore
  | nextRound hNext hGoing hNew =>
      rcases repeatRounds_cases hStep with
        ⟨after, roundChanged, hAfter, hEnd⟩
      obtain ⟨rfl, rfl⟩ := Step.result_unique hAfter hNext
      rcases hEnd with ⟨hLast, _⟩ | ⟨_, _, hDetect, hSeen, _⟩ |
        ⟨_, _, _, hMore⟩
      · simp [hGoing] at hLast
      · exact absurd ⟨hDetect, hSeen⟩ hNew
      · exact ⟨last, changed, hMore, RunState.Carries.same _⟩
  | skip hSkipped =>
      rw [step, Items.steps_cons,
        sequence_of_skipped hSkipped] at hStep
      exact ⟨last, changed, hStep, RunState.Carries.same _⟩
  | run hRun =>
      rcases items_carry hRun hStep with
        ⟨next, itemChanged, after, _, hNext, hAfter, hLast⟩
      exact
        ⟨next, itemChanged, hNext,
          (step_carries hAfter).trans hLast⟩
  | repeated hRun hNext =>
      rcases items_carry hRun hStep with
        ⟨_, _, after, laterChanged, hSame, hAfter, hLast⟩
      obtain ⟨rfl, rfl⟩ := Step.result_unique hSame hNext
      exact ⟨after, laterChanged, hAfter, hLast⟩
  | rest hRun hNext hAfter hGoing =>
      rcases items_parts hRun hStep with
        ⟨_, _, _, _, hSame, hOther, hEnd⟩
      obtain ⟨rfl, rfl⟩ := Step.result_unique hSame hNext
      obtain ⟨rfl, rfl⟩ := Step.result_unique hOther hAfter
      rcases hEnd with ⟨hStopped, _⟩ | ⟨_, hRest⟩
      · rw [hGoing] at hStopped
        cases hStopped
      · exact ⟨last, changed, hRest, RunState.Carries.same _⟩
  | entry =>
      rename_i rest
      rcases Persisting.runAll_cases hStep with
        ⟨after, _, laterChanged, hAfter, hRest, _⟩
      have hOthers :
          (again rest).step options choice after =
            .ok (last, laterChanged) :=
        hRest
      exact ⟨after, _, hAfter, step_carries hOthers⟩
  | entries hNext =>
      rcases Persisting.runAll_cases hStep with
        ⟨_, _, laterChanged, hSame, hRest, _⟩
      obtain ⟨rfl, rfl⟩ := Step.result_unique hSame hNext
      exact ⟨last, _, hRest, RunState.Carries.same _⟩

/-
  All that comes up in the course of a task comes to a
  result, and the task loses nothing of it.
-/
theorem Reaches.carried
    (hReaches : Reaches options choice root start task state)
    (hStep : root.step options choice start = .ok (last, changed)) :
    ∃ after taskChanged,
      task.step options choice state =
          .ok (after, taskChanged) ∧
        after.Carries last := by
  induction hReaches with
  | start =>
      exact ⟨last, changed, hStep, RunState.Carries.same _⟩
  | call _ hCalls ih =>
      rcases ih with ⟨after, taskChanged, hTask, hLast⟩
      rcases hCalls.carried hTask with
        ⟨other, partChanged, hPart, hAfter⟩
      exact ⟨other, partChanged, hPart, hAfter.trans hLast⟩

end Task

------------------------------------------------------------
-- Applying a ruleset
------------------------------------------------------------

/-
  An item that is run in the course of applying a ruleset to
  a word, with the state from which it is run.
-/
def Ruleset.Runs
    (ruleset : Ruleset)
    (config : Config)
    (word : Word)
    (item : Item)
    (state : RunState) : Prop :=
  Task.Reaches config.engine config.optional
    (Task.all ruleset.items) { word := word } (.item item)
    state

section Apply

variable {ruleset : Ruleset}
variable {config : Config}
variable {spelling : Spelling}
variable {result : ApplyResult}

variable
  (hApply : ruleset.apply config spelling = .ok result)

include hApply

/- A result is that of carrying out all items of a ruleset. -/
theorem Ruleset.apply_cases :
    ∃ changed,
      (Task.all ruleset.items).step config.engine
          config.optional { word := result.input } =
        .ok (result.final, changed) := by
  rw [Ruleset.apply] at hApply
  split at hApply
  · cases hApply
  rename_i state hDerive
  cases hApply
  unfold derive at hDerive
  split at hDerive
  · cases hDerive
  rename_i changed hStep
  cases hDerive
  exact ⟨changed, hStep⟩

/-
  An item that is run comes to a result, and none of it is
  lost up to the result of all.
-/
theorem Ruleset.Runs.carried
    {item : Item}
    {state : RunState}
    (hRuns : ruleset.Runs config result.input item state) :
    ∃ after changed,
      Item.step config.engine config.optional item state =
          .ok (after, changed) ∧
        after.Carries result.final := by
  rcases Ruleset.apply_cases hApply with ⟨_, hStep⟩
  exact Task.Reaches.carried hRuns hStep

end Apply

section Runs

variable {ruleset : Ruleset}
variable {config : Config}
variable {word : Word}
variable {item : Item}
variable {state : RunState}

variable (hRuns : ruleset.Runs config word item state)

include hRuns

/- Nothing is run but what is found in the ruleset. -/
theorem Ruleset.Runs.walk_subset :
    item.walk ⊆ Items.walk ruleset.items := by
  intro one hOne
  have hInside := Task.Reaches.walk_subset hRuns hOne
  simpa [Task.all, Task.walk, PersistingItem.walk]
    using hInside

theorem Ruleset.Runs.mem_walk :
    item ∈ Items.walk ruleset.items :=
  Ruleset.Runs.walk_subset hRuns (Item.mem_walk_self item)

end Runs

end Diachrony
