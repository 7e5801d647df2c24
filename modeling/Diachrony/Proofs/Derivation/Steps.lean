import Diachrony.Derivation

/-
  What the steps of a derivation can do.

  Every step of a derivation is put together from the runs
  of rules. For each way to put steps together there is a
  list of cases, and a law that composes, and that holds of
  rules and of the rounds of blocks, holds of all items.

  Key definitions include:
    * `Step.Obeys`
    * `RunState.Composes`
    * `Item.walk`

  Key theorems include:
    * `sequence_cases`
    * `repeatRounds_cases`
    * `Step.Obeys.sequence`
    * `Item.step_obeys`
-/

namespace Diachrony

------------------------------------------------------------
-- Cases of a step
------------------------------------------------------------

/- Let a condition stop a run. -/
def RunState.stopIf
    (state : RunState)
    (condition : Bool) : RunState :=
  if condition then { state with stopped := true } else state

@[simp] theorem RunState.trace_stopIf
    (state : RunState)
    (condition : Bool) :
    (state.stopIf condition).trace = state.trace := by
  cases condition with
  | false => rfl
  | true => rfl

/- A step comes to one result only. -/
theorem Step.result_unique
    {step : Step}
    {state next other : RunState}
    {changed moved : Bool}
    (hNext : step state = .ok (next, changed))
    (hOther : step state = .ok (other, moved)) :
    next = other ∧ changed = moved :=
  Prod.mk.inj (Except.ok.inj (hNext.symm.trans hOther))

section Cases

variable {options : EngineOptions}
variable {choice : OptionalChoice}
variable {state last : RunState}
variable {changed anyChanged : Bool}

/- A rule adds the outcome of its run. -/
theorem Rule.step_cases
    {rule : Rule}
    (hStep :
      rule.step options state = .ok (last, anyChanged)) :
    ∃ outcome,
      rule.run options state.word = .ok outcome ∧
        last = state.addOutcome rule.name outcome ∧
        anyChanged = outcome.changed := by
  unfold Rule.step at hStep
  split at hStep
  · cases hStep
  · rename_i outcome hRun
    cases hStep
    exact ⟨outcome, hRun, rfl, rfl⟩

/- Persisting steps are run one after another. -/
theorem Persisting.runAll_cases
    {entry : Persisting}
    {rest : List Persisting}
    (hStep :
      Persisting.runAll (entry :: rest) state =
        .ok (last, anyChanged)) :
    ∃ next entryChanged laterChanged,
      entry.step state = .ok (next, entryChanged) ∧
        Persisting.runAll rest next =
          .ok (last, laterChanged) ∧
        anyChanged = (entryChanged || laterChanged) := by
  unfold Persisting.runAll at hStep
  split at hStep
  · cases hStep
  · rename_i next entryChanged hNext
    split at hStep
    · cases hStep
    · rename_i laterChanged hLast
      cases hStep
      exact
        ⟨next, entryChanged, laterChanged, hNext, hLast, rfl⟩

/- Whether an item is left out after the previous one. -/
def FlaggedStep.isSkipped
    (choice : OptionalChoice)
    (previous : Bool)
    (item : FlaggedStep) : Bool :=
  !choice.admits item.flags ||
    item.flags.dittoForbids previous

theorem sequence_of_skipped
    {item : FlaggedStep}
    {rest : List FlaggedStep}
    {previous : Bool}
    {persisting : List Persisting}
    (hSkipped : item.isSkipped choice previous = true) :
    sequence choice (item :: rest) previous persisting changed
        state =
      sequence choice rest false persisting changed
        state.skipItem := by
  rw [sequence, ← FlaggedStep.isSkipped, if_pos hSkipped]

theorem sequence_of_run
    {item : FlaggedStep}
    {rest : List FlaggedStep}
    {previous itemChanged laterChanged : Bool}
    {persisting : List Persisting}
    {next after : RunState}
    (hRun : item.isSkipped choice previous = false)
    (hNext : item.step state = .ok (next, itemChanged))
    (hAfter :
      Persisting.runAll persisting next =
        .ok (after, laterChanged)) :
    sequence choice (item :: rest) previous persisting changed
        state =
      if (after.stopIf
          (item.flags.stopsAfter itemChanged)).stopped then
        .ok
          (after.stopIf (item.flags.stopsAfter itemChanged),
          changed || itemChanged || laterChanged)
      else
        sequence choice rest itemChanged
          (Persisting.add (Persisting.remaining persisting)
            item)
          (changed || itemChanged || laterChanged)
          (after.stopIf
            (item.flags.stopsAfter itemChanged)) := by
  rw [sequence, ← FlaggedStep.isSkipped,
    if_neg (Bool.eq_false_iff.mp hRun), hNext]
  dsimp only
  rw [hAfter]
  rfl

/-
  The next item of a sequence is left out, or it is run, all
  that persists is run again, and the sequence ends or goes
  on.
-/
theorem sequence_cases
    {item : FlaggedStep}
    {rest : List FlaggedStep}
    {previous : Bool}
    {persisting : List Persisting}
    (hStep :
      sequence choice (item :: rest) previous persisting changed
          state =
        .ok (last, anyChanged)) :
    (item.isSkipped choice previous = true ∧
      sequence choice rest false persisting changed
          state.skipItem =
        .ok (last, anyChanged)) ∨
    (item.isSkipped choice previous = false ∧
      ∃ next itemChanged after laterChanged,
        item.step state = .ok (next, itemChanged) ∧
          Persisting.runAll persisting next =
            .ok (after, laterChanged) ∧
          (((after.stopIf
                (item.flags.stopsAfter itemChanged)).stopped =
              true ∧
            last =
              after.stopIf
                (item.flags.stopsAfter itemChanged) ∧
            anyChanged =
              (changed || itemChanged || laterChanged)) ∨
          ((after.stopIf
                (item.flags.stopsAfter itemChanged)).stopped =
              false ∧
            sequence choice rest itemChanged
                (Persisting.add
                  (Persisting.remaining persisting) item)
                (changed || itemChanged || laterChanged)
                (after.stopIf
                  (item.flags.stopsAfter itemChanged)) =
              .ok (last, anyChanged)))) := by
  cases hSkipped : item.isSkipped choice previous with
  | true =>
      rw [sequence_of_skipped hSkipped] at hStep
      exact Or.inl ⟨rfl, hStep⟩
  | false =>
  cases hNext : item.step state with
  | error fault =>
      rw [sequence, ← FlaggedStep.isSkipped, hSkipped,
        hNext] at hStep
      cases hStep
  | ok result =>
  rcases result with ⟨next, itemChanged⟩
  cases hAfter : Persisting.runAll persisting next with
  | error fault =>
      rw [sequence, ← FlaggedStep.isSkipped, hSkipped,
        hNext] at hStep
      simp only [hAfter] at hStep
      cases hStep
  | ok result =>
  rcases result with ⟨after, laterChanged⟩
  rw [sequence_of_run hSkipped hNext hAfter] at hStep
  refine
    Or.inr
      ⟨rfl, next, itemChanged, after, laterChanged, rfl,
        hAfter, ?_⟩
  split at hStep
  · rename_i hStopped
    cases hStep
    exact Or.inl ⟨hStopped, rfl, rfl⟩
  · rename_i hGoing
    exact Or.inr ⟨Bool.eq_false_iff.mpr hGoing, hStep⟩

section Rounds

variable {head : BlockHead}
variable {bound : Int}
variable {body : Step}
variable {first : Nat}

/- At the bound of a block a probe decides. -/
theorem endRounds_cases
    (hEnd :
      endRounds head bound body first changed state =
        .ok (last, anyChanged)) :
    anyChanged = changed ∧
      ∃ probe moved,
        body state.fresh = .ok (probe, moved) ∧
          ((moved = true ∧
            last =
              state.mark first
                (head.diagnostic (.blockPassBound bound))) ∨
          (moved = false ∧ last = state)) := by
  unfold endRounds at hEnd
  split at hEnd
  · cases hEnd
  · rename_i probe hProbe
    cases hEnd
    exact ⟨rfl, probe, true, hProbe, Or.inl ⟨rfl, rfl⟩⟩
  · rename_i probe hProbe
    cases hEnd
    exact ⟨rfl, probe, false, hProbe, Or.inr ⟨rfl, rfl⟩⟩

/-
  A round of a block is the last one because it changed
  nothing or stopped the run, or because an earlier form has
  come back, or the block goes on.
-/
theorem repeatRounds_cases
    {left : Nat}
    {seen : List Form}
    (hStep :
      repeatRounds options head bound body first (left + 1) seen
          changed state =
        .ok (last, anyChanged)) :
    ∃ next roundChanged,
      body state = .ok (next, roundChanged) ∧
        (((roundChanged = false ∨ next.stopped = true) ∧
          last = next ∧
          anyChanged =
            (changed || first < next.trace.length)) ∨
        (roundChanged = true ∧ next.stopped = false ∧
          options.detectCycles = true ∧
          Form.ofWord next.word ∈ seen ∧
          last =
            next.mark first
              (head.diagnostic (.blockCycle next.word.text)) ∧
          anyChanged = true) ∨
        (roundChanged = true ∧ next.stopped = false ∧
          ¬(options.detectCycles = true ∧
            Form.ofWord next.word ∈ seen) ∧
          repeatRounds options head bound body first left
              (Form.ofWord next.word :: seen) true next =
            .ok (last, anyChanged))) := by
  unfold repeatRounds at hStep
  split at hStep
  · cases hStep
  rename_i next roundChanged hNext
  refine ⟨next, roundChanged, hNext, ?_⟩
  split at hStep
  · rename_i hLast
    cases hStep
    refine Or.inl ⟨?_, rfl, rfl⟩
    simpa using hLast
  rename_i hMore
  have hGoing : roundChanged = true ∧ next.stopped = false := by
    simpa using hMore
  split at hStep
  · rename_i hCycle
    cases hStep
    exact Or.inr (Or.inl
      ⟨hGoing.1, hGoing.2, hCycle.1, hCycle.2, rfl, rfl⟩)
  · rename_i hNew
    exact Or.inr (Or.inr ⟨hGoing.1, hGoing.2, hNew, hStep⟩)

/- A persistent block goes through its rounds. -/
theorem BlockHead.step_of_persistent
    (hPersistent : head.flags.persistent = true) :
    head.step options body state =
      repeatRounds options head
        (head.flags.passBound options.maxPasses) body
        state.trace.length
        (head.flags.passBound options.maxPasses).toNat
        [Form.ofWord state.word] false state := by
  rw [BlockHead.step, if_pos hPersistent]

/- Any other block is its items. -/
theorem BlockHead.step_of_plain
    (hPlain : head.flags.persistent = false) :
    head.step options body = body := by
  rw [BlockHead.step, hPlain]
  rfl

end Rounds

end Cases

------------------------------------------------------------
-- Laws
------------------------------------------------------------

/-
  A law relates the state before a step, its report of a
  change, and the state after it.
-/
def Step.Obeys
    (law : RunState → Bool → RunState → Prop)
    (step : Step) : Prop :=
  ∀ ⦃state next : RunState⦄ ⦃changed : Bool⦄,
    step state = .ok (next, changed) →
      law state changed next

/-
  A law that holds of steps in turn if it holds of each, and
  of what a sequence itself does to a state.
-/
structure RunState.Composes
    (law : RunState → Bool → RunState → Prop) : Prop where
  stay : ∀ state : RunState, law state false state
  andThen :
    ∀ ⦃first second third : RunState⦄ ⦃one other : Bool⦄,
      law first one second →
      law second other third →
        law first (one || other) third
  skipItem : ∀ state : RunState, law state false state.skipItem
  stop :
    ∀ state : RunState,
      law state false { state with stopped := true }

section Laws

variable {choice : OptionalChoice}
variable {law : RunState → Bool → RunState → Prop}

theorem RunState.Composes.stopIf
    (hLaw : RunState.Composes law)
    (state : RunState)
    (condition : Bool) :
    law state false (state.stopIf condition) := by
  cases condition with
  | false => exact hLaw.stay state
  | true => exact hLaw.stop state

theorem Step.Obeys.runAll
    (hLaw : RunState.Composes law)
    {entries : List Persisting}
    (hEntries : ∀ entry ∈ entries, entry.step.Obeys law) :
    Step.Obeys law (Persisting.runAll entries) := by
  induction entries with
  | nil =>
      intro state next changed hStep
      cases hStep
      exact hLaw.stay state
  | cons entry rest ih =>
      intro state last changed hStep
      rcases List.forall_mem_cons.mp hEntries with
        ⟨hEntry, hRest⟩
      rcases Persisting.runAll_cases hStep with
        ⟨next, _, _, hNext, hLast, rfl⟩
      exact hLaw.andThen (hEntry hNext) (ih hRest hLast)

/-
  What persists after an item has persisted before it, or is
  the item itself.
-/
theorem Persisting.forall_next
    {holds : Step → Prop}
    {entries : List Persisting}
    {item : FlaggedStep}
    (hEntries : ∀ entry ∈ entries, holds entry.step)
    (hItem : holds item.step) :
    ∀ entry ∈
        Persisting.add (Persisting.remaining entries) item,
      holds entry.step := by
  have hRemaining : ∀ entry ∈ Persisting.remaining entries,
      holds entry.step := by
    intro entry hEntry
    rcases List.mem_map.mp (List.mem_filter.mp hEntry).1
      with ⟨other, hOther, rfl⟩
    exact hEntries other hOther
  intro entry hEntry
  unfold Persisting.add at hEntry
  split at hEntry
  · rcases List.mem_append.mp hEntry with hOld | hNew
    · exact hRemaining entry hOld
    · obtain rfl := List.mem_singleton.mp hNew
      exact hItem
  · exact hRemaining entry hEntry

/-
  A sequence under way reports a change if there was one
  before, or if it makes one from there on.
-/
theorem Step.Obeys.sequence
    (hLaw : RunState.Composes law)
    {items : List FlaggedStep}
    (hItems : ∀ item ∈ items, item.step.Obeys law)
    {previous : Bool}
    {persisting : List Persisting}
    (hPersisting :
      ∀ entry ∈ persisting, entry.step.Obeys law)
    {changed anyChanged : Bool}
    {state last : RunState}
    (hStep :
      Diachrony.sequence choice items previous persisting
          changed state =
        .ok (last, anyChanged)) :
    ∃ later,
      anyChanged = (changed || later) ∧
        law state later last := by
  induction items generalizing previous persisting changed
    state with
  | nil =>
      cases hStep
      exact ⟨false, (Bool.or_false _).symm, hLaw.stay _⟩
  | cons item rest ih =>
      rcases List.forall_mem_cons.mp hItems with
        ⟨hItem, hRest⟩
      rcases sequence_cases hStep with ⟨_, hMore⟩ |
        ⟨_, next, itemChanged, after, laterChanged, hNext,
          hAfter, hEnd⟩
      · rcases ih hRest hPersisting hMore with
          ⟨later, rfl, hLater⟩
        exact ⟨later, rfl,
          hLaw.andThen (hLaw.skipItem state) hLater⟩
      have hHere :=
        hLaw.andThen
          (hLaw.andThen (hItem hNext)
            (Step.Obeys.runAll hLaw hPersisting hAfter))
          (hLaw.stopIf after
            (item.flags.stopsAfter itemChanged))
      rw [Bool.or_false] at hHere
      rcases hEnd with ⟨_, rfl, rfl⟩ | ⟨_, hMore⟩
      · exact ⟨_, Bool.or_assoc _ _ _, hHere⟩
      · have hNextPersisting :=
          Persisting.forall_next hPersisting hItem
        rcases ih hRest hNextPersisting hMore with
          ⟨later, rfl, hLater⟩
        refine ⟨_, ?_, hLaw.andThen hHere hLater⟩
        simp only [Bool.or_assoc]

theorem Step.Obeys.sequenceAll
    (hLaw : RunState.Composes law)
    {items : List FlaggedStep}
    (hItems : ∀ item ∈ items, item.step.Obeys law) :
    Step.Obeys law (Diachrony.sequenceAll choice items) := by
  intro state next changed hStep
  rcases Step.Obeys.sequence hLaw hItems (by simp) hStep with
    ⟨later, rfl, hLater⟩
  exact hLater

end Laws

------------------------------------------------------------
-- Items
------------------------------------------------------------

mutual

/- An item and all items inside it. -/
def Item.walk : Item → List Item
  | .rule rule => [.rule rule]
  | .block head items => .block head items :: Items.walk items

/- A list of items and all items inside them. -/
def Items.walk : List Item → List Item
  | [] => []
  | item :: rest => Item.walk item ++ Items.walk rest

end

/- An item is among those that are found inside it. -/
theorem Item.mem_walk_self
    (item : Item) :
    item ∈ item.walk := by
  cases item with
  | rule rule => exact List.mem_singleton_self _
  | block head items => exact List.mem_cons_self

mutual

/- The rules of an item are found inside it. -/
theorem Item.mem_walk_of_mem_rules :
    ∀ (item : Item) {rule : Rule},
      rule ∈ item.rules → .rule rule ∈ item.walk
  | .rule _, _, hRule => by
      rw [Item.rules, List.mem_singleton] at hRule
      rw [hRule]
      exact Item.mem_walk_self _
  | .block _ items, _, hRule =>
      List.mem_cons_of_mem _
        (Items.mem_walk_of_mem_rules items hRule)

theorem Items.mem_walk_of_mem_rules :
    ∀ (items : List Item) {rule : Rule},
      rule ∈ Items.rules items →
        .rule rule ∈ Items.walk items
  | [], _, hRule => by cases hRule
  | item :: rest, _, hRule => by
      rw [Items.rules] at hRule
      rw [Items.walk, List.mem_append]
      rcases List.mem_append.mp hRule with hItem | hRest
      · exact Or.inl (Item.mem_walk_of_mem_rules item hItem)
      · exact Or.inr (Items.mem_walk_of_mem_rules rest hRest)

end

section Items

variable {options : EngineOptions}
variable {choice : OptionalChoice}
variable {law : RunState → Bool → RunState → Prop}

mutual

/-
  A law that composes is obeyed by an item if it is by the
  rules inside it and by the persistent blocks whose items
  obey it.
-/
theorem Item.step_obeys
    (hLaw : RunState.Composes law) :
    ∀ item : Item,
      (∀ rule, .rule rule ∈ item.walk →
        (rule.step options).Obeys law) →
      (∀ head inside, .block head inside ∈ item.walk →
        head.flags.persistent = true →
        Step.Obeys law
          (sequenceAll choice
            (Items.steps options choice inside)) →
          Step.Obeys law
            (head.step options
              (sequenceAll choice
                (Items.steps options choice inside)))) →
      (Item.step options choice item).Obeys law
  | .rule rule, hRule, _ => by
      rw [Item.step]
      exact hRule rule (Item.mem_walk_self _)
  | .block head items, hRule, hBlock => by
      rw [Item.step]
      have hBody :
          Step.Obeys law
            (sequenceAll choice
              (Items.steps options choice items)) :=
        Step.Obeys.sequenceAll hLaw
          (Items.steps_obey hLaw items
            (fun rule hMem =>
              hRule rule (List.mem_cons_of_mem _ hMem))
            (fun other inside hMem =>
              hBlock other inside
                (List.mem_cons_of_mem _ hMem)))
      cases hPersistent : head.flags.persistent with
      | true =>
          exact hBlock head items (Item.mem_walk_self _)
            hPersistent hBody
      | false =>
          rw [BlockHead.step_of_plain hPersistent]
          exact hBody

theorem Items.steps_obey
    (hLaw : RunState.Composes law) :
    ∀ items : List Item,
      (∀ rule, .rule rule ∈ Items.walk items →
        (rule.step options).Obeys law) →
      (∀ head inside, .block head inside ∈ Items.walk items →
        head.flags.persistent = true →
        Step.Obeys law
          (sequenceAll choice
            (Items.steps options choice inside)) →
          Step.Obeys law
            (head.step options
              (sequenceAll choice
                (Items.steps options choice inside)))) →
      ∀ item ∈ Items.steps options choice items,
        item.step.Obeys law
  | [], _, _ => by simp [Items.steps]
  | first :: rest, hRule, hBlock => by
      intro item hItem
      rw [Items.steps] at hItem
      rcases List.mem_cons.mp hItem with rfl | hRest
      · exact
          Item.step_obeys hLaw first
            (fun rule hMem =>
              hRule rule (List.mem_append_left _ hMem))
            (fun head inside hMem =>
              hBlock head inside
                (List.mem_append_left _ hMem))
      · exact
          Items.steps_obey hLaw rest
            (fun rule hMem =>
              hRule rule (List.mem_append_right _ hMem))
            (fun head inside hMem =>
              hBlock head inside
                (List.mem_append_right _ hMem))
            item hRest

end

end Items

end Diachrony
