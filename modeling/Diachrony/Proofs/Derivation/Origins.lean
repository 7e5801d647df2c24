import Diachrony.Proofs.Derivation.Calls

/-
  Where records and reports come from.

  Each record of a derivation is made by the run of a rule
  that comes up in its course, and each report by such a run
  or by the end of a persistent block. So nothing of a
  derivation lies outside the tasks that it calls for.

  Key definitions include:
    * `Task.Writes`
    * `Task.Explains`
    * `Task.Traced`

  Key theorems include:
    * `Task.Writes.of_calls`
    * `Task.items_traced`
    * `Items.traced`
    * `Ruleset.exists_run_of_record`
    * `Ruleset.exists_run_of_report`
-/

namespace Diachrony

variable {options : EngineOptions}
variable {choice : OptionalChoice}

namespace Task

------------------------------------------------------------
-- Origins
------------------------------------------------------------

/-
  The entry at a position is written by an item that comes
  up in the course of a task. What counts as the item's own
  entry is told by a relation between the item, the states
  before and after it, and the position.
-/
def Writes
    (options : EngineOptions)
    (choice : OptionalChoice)
    (origin : Item → RunState → RunState → Nat → Prop)
    (root : Task)
    (start : RunState)
    (i : Nat) : Prop :=
  ∃ part state after changed,
    Reaches options choice root start (.item part) state ∧
      Item.step options choice part state =
        .ok (after, changed) ∧
      origin part state after i

/-
  A relation that explains how a list of entries grows, of
  which a size is known in each state: a rule writes all
  that is new after it, and a persistent block writes what
  its own mark adds.
-/
structure Explains
    (options : EngineOptions)
    (choice : OptionalChoice)
    (size : RunState → Nat)
    (origin : Item → RunState → RunState → Nat → Prop) :
    Prop where
  skipItem : ∀ state : RunState,
    size state.skipItem = size state
  stopIf : ∀ (state : RunState) (condition : Bool),
    size (state.stopIf condition) = size state
  rule : ∀ ⦃rule : Rule⦄ ⦃state after : RunState⦄
      ⦃changed : Bool⦄,
    rule.step options state = .ok (after, changed) →
      ∀ i, size state ≤ i → i < size after →
        origin (.rule rule) state after i
  mark : ∀ ⦃head : BlockHead⦄ ⦃inside : List Item⦄
      ⦃state before : RunState⦄ ⦃diagnostic : Diagnostic⦄,
    head.flags.persistent = true →
      ∀ i, size state ≤ i → size before ≤ i →
        i < size
          (before.mark state.trace.length diagnostic) →
          origin (.block head inside) state
            (before.mark state.trace.length diagnostic) i

/- All that a task adds is written by its items. -/
def Traced
    (options : EngineOptions)
    (choice : OptionalChoice)
    (size : RunState → Nat)
    (origin : Item → RunState → RunState → Nat → Prop)
    (task : Task) : Prop :=
  ∀ ⦃state last : RunState⦄ ⦃changed : Bool⦄,
    task.step options choice state = .ok (last, changed) →
      ∀ i, size state ≤ i → i < size last →
        task.Writes options choice origin state i

variable {size : RunState → Nat}
variable {origin : Item → RunState → RunState → Nat → Prop}
variable {task part root : Task}
variable {state next start : RunState}

/- What comes up in a part of a task comes up in the task. -/
theorem Reaches.of_calls
    {other : Task}
    {last : RunState}
    (hCalls : Calls options choice root start task state)
    (hReaches : Reaches options choice task state other last) :
    Reaches options choice root start other last := by
  induction hReaches with
  | start => exact Reaches.call Reaches.start hCalls
  | call _ hNext ih => exact Reaches.call ih hNext

theorem Writes.of_calls
    {i : Nat}
    (hCalls : Calls options choice task state part next)
    (hWrites : part.Writes options choice origin next i) :
    task.Writes options choice origin state i := by
  rcases hWrites with
    ⟨item, before, after, changed, hReaches, hRest⟩
  exact
    ⟨item, before, after, changed, hReaches.of_calls hCalls,
      hRest⟩

------------------------------------------------------------
-- Parts of a task
------------------------------------------------------------

theorem again_traced
    {entries : List PersistingItem}
    (hEntries :
      ∀ entry ∈ entries,
        (item entry.item).Traced options choice size origin) :
    (again entries).Traced options choice size origin := by
  induction entries with
  | nil =>
      intro state last changed hStep i hFirst hLast
      cases hStep
      omega
  | cons entry rest ih =>
      intro state last changed hStep i hFirst hLast
      rcases List.forall_mem_cons.mp hEntries with
        ⟨hEntry, hRest⟩
      rcases Persisting.runAll_cases hStep with
        ⟨next, _, _, hNext, hOthers, _⟩
      by_cases hHere : i < size next
      · exact
          (hEntry hNext i hFirst hHere).of_calls Calls.entry
      · exact
          (ih hRest hOthers i (Nat.le_of_not_lt hHere)
            hLast).of_calls (Calls.entries hNext)

section Explained

variable (hExplains : Explains options choice size origin)

include hExplains

theorem rule_traced
    (rule : Rule) :
    (item (.rule rule)).Traced options choice size
      origin := by
  intro state last changed hStep i hFirst hLast
  refine
    ⟨.rule rule, state, last, changed, Reaches.start, hStep,
      ?_⟩
  rw [step, Item.step] at hStep
  exact hExplains.rule hStep i hFirst hLast

/-
  A sequence adds what its items add, and what is added by
  those that persist.
-/
theorem items_traced
    {rest : List Item}
    (hItems :
      ∀ part ∈ rest,
        (item part).Traced options choice size origin)
    (previous changed : Bool)
    {entries : List PersistingItem}
    (hEntries :
      ∀ entry ∈ entries,
        (item entry.item).Traced options choice size origin) :
    (items rest previous entries changed).Traced options
      choice size origin := by
  induction rest generalizing previous changed entries with
  | nil =>
      intro state last anyChanged hStep i hFirst hLast
      cases hStep
      omega
  | cons first rest ih =>
      intro state last anyChanged hStep i hFirst hLast
      rcases List.forall_mem_cons.mp hItems with
        ⟨hItem, hRest⟩
      cases hRun :
        (first.flaggedStep options choice).isSkipped choice
          previous with
      | true =>
          rw [step, Items.steps_cons,
            sequence_of_skipped hRun] at hStep
          rw [← hExplains.skipItem] at hFirst
          exact
            (ih hRest false changed hEntries hStep i hFirst
              hLast).of_calls (Calls.skip hRun)
      | false =>
      rcases items_parts hRun hStep with
        ⟨next, itemChanged, after, laterChanged, hNext, hAfter,
          hEnd⟩
      by_cases hHere : i < size next
      · exact
          (hItem hNext i hFirst hHere).of_calls
            (Calls.run hRun)
      by_cases hSoon : i < size after
      · exact
          (again_traced hEntries hAfter i
            (Nat.le_of_not_lt hHere) hSoon).of_calls
              (Calls.repeated hRun hNext)
      have hSame :=
        hExplains.stopIf after
          (first.flags.stopsAfter itemChanged)
      rcases hEnd with ⟨_, rfl⟩ | ⟨hGoing, hMore⟩
      · omega
      · have hNextEntries :
            ∀ entry ∈ PersistingItem.next entries first,
              (item entry.item).Traced options choice size
                origin := by
          intro entry hEntry
          rcases PersistingItem.mem_next hEntry with
            hFirst | ⟨other, hOther, hSame⟩
          · rw [hFirst]
            exact hItem
          · rw [hSame]
            exact hEntries other hOther
        exact
          (ih hRest itemChanged _ hNextEntries hMore i
            (by omega) hLast).of_calls
              (Calls.rest hRun hNext hAfter hGoing)

omit hExplains in
/-
  The rounds of a block add what their items add, and the
  mark of the block may be added to this.
-/
theorem rounds_traced
    {head : BlockHead}
    {inside : List Item}
    (hAll : (all inside).Traced options choice size origin)
    (first left : Nat)
    {seen : List Form}
    {changed anyChanged : Bool}
    {last : RunState}
    (hStep :
      (rounds head inside first left seen changed).step options
          choice state =
        .ok (last, anyChanged))
    {i : Nat}
    (hFirst : size state ≤ i)
    (hLast : i < size last) :
    (rounds head inside first left seen changed).Writes options
        choice origin state i ∨
      ∃ (before : RunState) (diagnostic : Diagnostic),
        last = before.mark first diagnostic ∧
          size before ≤ i := by
  induction left generalizing seen changed state with
  | zero =>
      rcases endRounds_cases hStep with
        ⟨_, _, _, _, ⟨_, rfl⟩ | ⟨_, rfl⟩⟩
      · exact Or.inr ⟨state, _, rfl, hFirst⟩
      · omega
  | succ left ih =>
      rcases repeatRounds_cases hStep with
        ⟨next, roundChanged, hNext, hEnd⟩
      by_cases hHere : i < size next
      · exact
          Or.inl
            ((hAll hNext i hFirst hHere).of_calls Calls.round)
      have hLater : size next ≤ i := Nat.le_of_not_lt hHere
      rcases hEnd with ⟨_, rfl, _⟩ | ⟨_, _, _, _, rfl, _⟩ |
        ⟨rfl, hGoing, hNew, hMore⟩
      · omega
      · exact Or.inr ⟨next, _, rfl, hLater⟩
      · rcases ih hMore hLater with hWrites | hMark
        · exact
            Or.inl
              (hWrites.of_calls
                (Calls.nextRound hNext hGoing hNew))
        · exact Or.inr hMark

/- A block adds what its items add, and perhaps its mark. -/
theorem block_traced
    {inside : List Item}
    (hAll : (all inside).Traced options choice size origin)
    (head : BlockHead) :
    (item (.block head inside)).Traced options choice size
      origin := by
  intro state last changed hStep i hFirst hLast
  have hBlock := hStep
  cases hPersistent : head.flags.persistent with
  | true =>
      rw [step, Item.step,
        BlockHead.step_of_persistent hPersistent] at hBlock
      rcases rounds_traced hAll _ _ hBlock hFirst hLast with
        hWrites | ⟨before, diagnostic, rfl, hBefore⟩
      · exact hWrites.of_calls (Calls.block hPersistent)
      · exact
          ⟨.block head inside, state, _, changed,
            Reaches.start, hStep,
            hExplains.mark hPersistent i hFirst hBefore
              hLast⟩
  | false =>
      rw [step, Item.step,
        BlockHead.step_of_plain hPersistent] at hBlock
      exact
        (hAll hBlock i hFirst hLast).of_calls
          (Calls.plain hPersistent)

end Explained

end Task

------------------------------------------------------------
-- Items
------------------------------------------------------------

section Items

variable {size : RunState → Nat}
variable {origin : Item → RunState → RunState → Nat → Prop}

mutual

theorem Item.traced
    (hExplains : Task.Explains options choice size origin) :
    ∀ item : Item,
      (Task.item item).Traced options choice size origin
  | .rule rule => Task.rule_traced hExplains rule
  | .block head inside =>
      Task.block_traced hExplains
        (Task.items_traced hExplains
          (Items.traced hExplains inside) false false
          (by simp))
        head

theorem Items.traced
    (hExplains : Task.Explains options choice size origin) :
    ∀ items : List Item,
      ∀ item ∈ items,
        (Task.item item).Traced options choice size origin
  | [] => by simp
  | first :: rest => by
      intro item hItem
      rcases List.mem_cons.mp hItem with hFirst | hRest
      · rw [hFirst]
        exact Item.traced hExplains first
      · exact Items.traced hExplains rest item hRest

end

end Items

------------------------------------------------------------
-- Applying a ruleset
------------------------------------------------------------

/- A rule makes the records that are new after it. -/
def Item.MakesRecord : Item → RunState → RunState → Nat → Prop
  | .rule _, state, after, i =>
      state.trace.length ≤ i ∧ i < after.trace.length
  | .block _ _, _, _, _ => False

/-
  A rule makes the reports that are new after it, and a
  persistent block the one that it marks its records with.
-/
def Item.MakesReport : Item → RunState → RunState → Nat → Prop
  | .rule _, state, after, i =>
      state.diagnostics.length ≤ i ∧
        i < after.diagnostics.length
  | .block head _, state, after, i =>
      head.flags.persistent = true ∧
        state.diagnostics.length ≤ i ∧
        ∃ (before : RunState) (diagnostic : Diagnostic),
          after = before.mark state.trace.length diagnostic ∧
            i = before.diagnostics.length

theorem Item.makesRecord_explains :
    Task.Explains options choice
      (fun state => state.trace.length)
      Item.MakesRecord where
  skipItem := fun _ => rfl
  stopIf := fun state condition => by
    rw [RunState.trace_stopIf]
  rule := fun _ _ _ _ _ _ hFirst hLast => ⟨hFirst, hLast⟩
  mark := by
    intro head inside state before diagnostic _ i _ hBefore
      hLast
    rw [RunState.length_trace_mark] at hLast
    omega

theorem Item.makesReport_explains :
    Task.Explains options choice
      (fun state => state.diagnostics.length)
      Item.MakesReport where
  skipItem := fun _ => rfl
  stopIf := fun state condition => by
    cases condition with
    | false => rfl
    | true => rfl
  rule := fun _ _ _ _ _ _ hFirst hLast => ⟨hFirst, hLast⟩
  mark := by
    intro head inside state before diagnostic hPersistent i
      hFirst hBefore hLast
    rw [RunState.mark, List.length_append,
      List.length_singleton] at hLast
    exact
      ⟨hPersistent, hFirst, before, diagnostic, rfl,
        by omega⟩

section Apply

variable {ruleset : Ruleset}
variable {config : Config}
variable {spelling : Spelling}
variable {result : ApplyResult}

variable
  (hApply : ruleset.apply config spelling = .ok result)

include hApply

/-
  What a result holds has been written by an item that was
  run on the way to it.
-/
theorem Ruleset.exists_run_of_entry
    {size : RunState → Nat}
    {origin : Item → RunState → RunState → Nat → Prop}
    (hExplains :
      Task.Explains config.engine config.optional size origin)
    (hEmpty : ∀ word : Word, size { word := word } = 0)
    {i : Nat}
    (hInside : i < size result.final) :
    ∃ item state after changed,
      ruleset.Runs config result.input item state ∧
        Item.step config.engine config.optional item state =
          .ok (after, changed) ∧
        after.Carries result.final ∧
        origin item state after i := by
  rcases Ruleset.apply_cases hApply with ⟨_, hStep⟩
  have hTraced :
      (Task.all ruleset.items).Traced config.engine
        config.optional size origin :=
    Task.items_traced hExplains
      (Items.traced hExplains ruleset.items) false false
      (by simp)
  have hFirst : size { word := result.input } ≤ i := by
    rw [hEmpty]
    exact Nat.zero_le i
  rcases hTraced hStep i hFirst hInside with
    ⟨item, state, after, changed, hRuns, hItem, hOrigin⟩
  rcases Ruleset.Runs.carried hApply hRuns with
    ⟨_, _, hSame, hCarries⟩
  obtain ⟨rfl, rfl⟩ := Step.result_unique hSame hItem
  exact
    ⟨item, state, _, _, hRuns, hItem, hCarries, hOrigin⟩

/-
  Each record of a result is made by the run of a rule, at
  its place among the records of that run.
-/
theorem Ruleset.exists_run_of_record
    {i : Nat}
    (hInside : i < result.final.trace.length) :
    ∃ rule state outcome,
      ruleset.Runs config result.input (.rule rule) state ∧
        rule.run config.engine state.word = .ok outcome ∧
        (state.addOutcome rule.name outcome).Carries
          result.final ∧
        state.trace.length ≤ i ∧
        i < state.trace.length + outcome.changes.length := by
  rcases Ruleset.exists_run_of_entry hApply
      Item.makesRecord_explains (fun _ => rfl) hInside with
    ⟨item, state, after, changed, hRuns, hItem, hCarries,
      hOrigin⟩
  cases item with
  | block head inside => cases hOrigin
  | rule rule =>
      rcases hOrigin with ⟨hFirst, hLast⟩
      rw [Item.step] at hItem
      rcases Rule.step_cases hItem with
        ⟨outcome, hRun, rfl, _⟩
      rw [RunState.addOutcome, List.length_append] at hLast
      exact
        ⟨rule, state, outcome, hRuns, hRun, hCarries, hFirst,
          hLast⟩

/-
  Each report of a result is made by the run of a rule, or
  it is the mark of a persistent block.
-/
theorem Ruleset.exists_run_of_report
    {diagnostic : Diagnostic}
    (hReport : diagnostic ∈ result.final.diagnostics) :
    (∃ rule state outcome,
      ruleset.Runs config result.input (.rule rule) state ∧
        rule.run config.engine state.word = .ok outcome ∧
        (state.addOutcome rule.name outcome).Carries
          result.final ∧
        diagnostic ∈ outcome.diagnostics) ∨
    ∃ (head : BlockHead) (inside : List Item)
        (state before : RunState) (changed : Bool),
      ruleset.Runs config result.input (.block head inside)
          state ∧
        head.flags.persistent = true ∧
        Item.step config.engine config.optional
            (.block head inside) state =
          .ok
            (before.mark state.trace.length diagnostic,
            changed) ∧
        (before.mark state.trace.length diagnostic).Carries
          result.final ∧
        state.diagnostics.length ≤
          before.diagnostics.length := by
  rcases List.mem_iff_getElem?.mp hReport with ⟨i, hEntry⟩
  have hInside := (List.getElem?_eq_some_iff.mp hEntry).1
  rcases Ruleset.exists_run_of_entry hApply
      Item.makesReport_explains (fun _ => rfl) hInside with
    ⟨item, state, after, changed, hRuns, hItem, hCarries,
      hOrigin⟩
  cases item with
  | rule rule =>
      rcases hOrigin with ⟨hFirst, hLast⟩
      rw [Item.step] at hItem
      rcases Rule.step_cases hItem with
        ⟨outcome, hRun, rfl, _⟩
      rw [← hCarries.getElem?_diagnostics hLast,
        RunState.addOutcome,
        List.getElem?_append_right hFirst] at hEntry
      exact
        Or.inl
          ⟨rule, state, outcome, hRuns, hRun, hCarries,
            List.mem_of_getElem? hEntry⟩
  | block head inside =>
      rcases hOrigin with
        ⟨hPersistent, hFirst, before, mark, rfl, rfl⟩
      rw [← hCarries.getElem?_diagnostics
          (by simp [RunState.mark]),
        RunState.mark, List.getElem?_concat_length] at hEntry
      cases hEntry
      exact
        Or.inr
          ⟨head, inside, state, before, changed, hRuns,
            hPersistent, hItem, hCarries, hFirst⟩

end Apply

end Diachrony
