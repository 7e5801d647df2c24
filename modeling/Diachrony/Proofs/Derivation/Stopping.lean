import Diachrony.Proofs.Derivation.Calls

/-
  What is run after a stop.

  An item that stops a run is the last one of its sequence
  and of the sequences around it. What is still run is what
  persists in these sequences: all that was to be run again
  after the item, the innermost sequence first. Where
  nothing persists, the run ends as the item has left it.

  Key definitions include:
    * `Task.pendingAfter`
    * `Task.Awaits`

  Key theorems include:
    * `Task.Calls.unwound`
    * `Task.Awaits.unwound`
    * `Task.Awaits.nothing_pending`
    * `Ruleset.apply_stops`
-/

namespace Diachrony

theorem RunState.stopIf_of_stopped
    {state : RunState}
    (hStopped : state.stopped = true)
    (condition : Bool) :
    state.stopIf condition = state := by
  cases condition with
  | false => rfl
  | true =>
      rcases state with ⟨_, _, _, _, stopped⟩
      obtain rfl : stopped = true := hStopped
      rfl

variable {options : EngineOptions}
variable {choice : OptionalChoice}

namespace Task

------------------------------------------------------------
-- What is pending
------------------------------------------------------------

/-
  What a task still runs again after a part of it that has
  stopped the run: what persists after the item of a
  sequence, or those behind an item that is run again.
-/
def pendingAfter : Task → Task → List PersistingItem
  | .items _ _ entries _, .item _ => entries
  | .again (_ :: rest), .item _ => rest
  | _, _ => []

/-
  A task that comes up in the course of another one, with
  all that is pending around it, the innermost first.
-/
inductive Awaits
    (options : EngineOptions)
    (choice : OptionalChoice)
    (root : Task)
    (start : RunState) :
    Task → RunState → List PersistingItem → Prop where
  | start : Awaits options choice root start root start []
  | call
      {task part : Task}
      {state next : RunState}
      {pending : List PersistingItem}
      (hAwaits :
        Awaits options choice root start task state pending)
      (hCalls : Calls options choice task state part next) :
      Awaits options choice root start part next
        (task.pendingAfter part ++ pending)

variable {root task part : Task}
variable {start state next after last : RunState}
variable {pending front back : List PersistingItem}
variable {changed later partChanged : Bool}

theorem Awaits.reaches
    (hAwaits :
      Awaits options choice root start task state pending) :
    Reaches options choice root start task state := by
  induction hAwaits with
  | start => exact Reaches.start
  | call _ hCalls ih => exact ih.call hCalls

/- Whatever comes up, something or nothing is pending there. -/
theorem Reaches.exists_awaits
    (hReaches : Reaches options choice root start task state) :
    ∃ pending,
      Awaits options choice root start task state pending := by
  induction hReaches with
  | start => exact ⟨[], Awaits.start⟩
  | call _ hCalls ih =>
      rcases ih with ⟨pending, hAwaits⟩
      exact ⟨_, hAwaits.call hCalls⟩

/- A run that has been stopped is not taken up again. -/
theorem stopped_of_step
    (hStopped : state.stopped = true)
    (hStep :
      (again pending).step options choice state =
        .ok (last, changed)) :
    last.stopped = true := by
  have hEntries :=
    PersistingItem.steps_grow options choice pending
  exact
    (Step.Obeys.runAll RunState.grows_composes hEntries
      hStep).stopped hStopped

theorem again_nil
    (state : RunState) :
    (again []).step options choice state =
      .ok (state, false) :=
  rfl

/- What is pending in one place is run before the rest. -/
theorem again_append
    (hFront :
      (again front).step options choice state =
        .ok (next, changed))
    (hBack :
      (again back).step options choice next =
        .ok (last, later)) :
    ∃ anyChanged,
      (again (front ++ back)).step options choice state =
        .ok (last, anyChanged) := by
  induction front generalizing state changed with
  | nil =>
      cases hFront
      exact ⟨later, hBack⟩
  | cons entry rest ih =>
      rcases Persisting.runAll_cases hFront with
        ⟨middle, entryChanged, restChanged, hEntry, hRest, _⟩
      rcases ih hRest with ⟨anyChanged, hAll⟩
      refine ⟨entryChanged || anyChanged, ?_⟩
      have hTail :
          Persisting.runAll
              ((rest ++ back).map
                (PersistingItem.persisting options choice))
              middle =
            .ok (last, anyChanged) :=
        hAll
      rw [step, List.cons_append, List.map_cons,
        Persisting.runAll, hEntry]
      dsimp only
      rw [hTail]

------------------------------------------------------------
-- Unwinding
------------------------------------------------------------

/-
  A task of which a part has stopped the run does no more
  than to run again what is pending there.
-/
theorem Calls.unwound
    (hCalls : Calls options choice task state part next)
    (hPart :
      part.step options choice next = .ok (after, partChanged))
    (hStopped : after.stopped = true)
    (hStep :
      task.step options choice state = .ok (last, changed)) :
    ∃ anyChanged,
      (again (task.pendingAfter part)).step options choice
          after =
        .ok (last, anyChanged) := by
  cases hCalls with
  | plain hPlain =>
      rw [step, Item.step,
        BlockHead.step_of_plain hPlain] at hStep
      obtain ⟨rfl, _⟩ := Step.result_unique hPart hStep
      exact ⟨false, rfl⟩
  | block hPersistent =>
      rw [step, Item.step,
        BlockHead.step_of_persistent hPersistent] at hStep
      obtain ⟨rfl, _⟩ := Step.result_unique hPart hStep
      exact ⟨false, rfl⟩
  | round =>
      rcases repeatRounds_cases hStep with
        ⟨other, roundChanged, hOther, hEnd⟩
      obtain ⟨rfl, rfl⟩ := Step.result_unique hPart hOther
      rcases hEnd with ⟨_, rfl, _⟩ | ⟨_, hGoing, _⟩ |
        ⟨_, hGoing, _⟩
      · exact ⟨false, rfl⟩
      · rw [hStopped] at hGoing
        cases hGoing
      · rw [hStopped] at hGoing
        cases hGoing
  | nextRound hNext hGoing hNew =>
      rcases repeatRounds_cases hStep with
        ⟨other, roundChanged, hOther, hEnd⟩
      obtain ⟨rfl, rfl⟩ := Step.result_unique hNext hOther
      rcases hEnd with ⟨hLast, _⟩ | ⟨_, _, hDetect, hSeen, _⟩ |
        ⟨_, _, _, hMore⟩
      · simp [hGoing] at hLast
      · exact absurd ⟨hDetect, hSeen⟩ hNew
      · obtain ⟨rfl, _⟩ := Step.result_unique hPart hMore
        exact ⟨false, rfl⟩
  | skip hSkipped =>
      rw [step, Items.steps_cons,
        sequence_of_skipped hSkipped] at hStep
      obtain ⟨rfl, _⟩ := Step.result_unique hPart hStep
      exact ⟨false, rfl⟩
  | run hRun =>
      rcases items_parts hRun hStep with
        ⟨other, itemChanged, middle, laterChanged, hOther,
          hMiddle, hEnd⟩
      obtain ⟨rfl, rfl⟩ := Step.result_unique hPart hOther
      have hStays := stopped_of_step hStopped hMiddle
      rw [RunState.stopIf_of_stopped hStays] at hEnd
      rcases hEnd with ⟨_, rfl⟩ | ⟨hGoing, _⟩
      · exact ⟨laterChanged, hMiddle⟩
      · rw [hStays] at hGoing
        cases hGoing
  | repeated hRun hNext =>
      rcases items_parts hRun hStep with
        ⟨other, itemChanged, middle, laterChanged, hOther,
          hMiddle, hEnd⟩
      obtain ⟨rfl, rfl⟩ := Step.result_unique hNext hOther
      obtain ⟨rfl, rfl⟩ := Step.result_unique hPart hMiddle
      rw [RunState.stopIf_of_stopped hStopped] at hEnd
      rcases hEnd with ⟨_, rfl⟩ | ⟨hGoing, _⟩
      · exact ⟨false, rfl⟩
      · rw [hStopped] at hGoing
        cases hGoing
  | rest hRun hNext hAfter hGoing =>
      rcases items_parts hRun hStep with
        ⟨other, itemChanged, middle, laterChanged, hOther,
          hMiddle, hEnd⟩
      obtain ⟨rfl, rfl⟩ := Step.result_unique hNext hOther
      obtain ⟨rfl, rfl⟩ := Step.result_unique hAfter hMiddle
      rcases hEnd with ⟨hEnded, _⟩ | ⟨_, hRest⟩
      · rw [hGoing] at hEnded
        cases hEnded
      · obtain ⟨rfl, _⟩ := Step.result_unique hPart hRest
        exact ⟨false, rfl⟩
  | entry =>
      rcases Persisting.runAll_cases hStep with
        ⟨other, _, laterChanged, hOther, hRest, _⟩
      obtain ⟨rfl, rfl⟩ := Step.result_unique hPart hOther
      exact ⟨laterChanged, hRest⟩
  | entries hNext =>
      rcases Persisting.runAll_cases hStep with
        ⟨other, _, laterChanged, hOther, hRest, _⟩
      obtain ⟨rfl, rfl⟩ := Step.result_unique hNext hOther
      obtain ⟨rfl, _⟩ := Step.result_unique hPart hRest
      exact ⟨false, rfl⟩

/-
  After a task that has stopped the run nothing is run but
  what is pending around it.
-/
theorem Awaits.unwound
    (hAwaits :
      Awaits options choice root start task state pending)
    (hRoot :
      root.step options choice start = .ok (last, changed))
    (hTask :
      task.step options choice state = .ok (after, partChanged))
    (hStopped : after.stopped = true) :
    ∃ anyChanged,
      (again pending).step options choice after =
        .ok (last, anyChanged) := by
  induction hAwaits generalizing after partChanged with
  | start =>
      obtain ⟨rfl, _⟩ := Step.result_unique hTask hRoot
      exact ⟨false, rfl⟩
  | call hAwaits hCalls ih =>
      -- the task around it ends with what is pending there
      rcases hAwaits.reaches.carried hRoot with
        ⟨middle, _, hMiddle, _⟩
      rcases hCalls.unwound hTask hStopped hMiddle with
        ⟨_, hHere⟩
      have hStays := stopped_of_step hStopped hHere
      rcases ih hMiddle hStays with ⟨_, hAround⟩
      exact again_append hHere hAround

------------------------------------------------------------
-- Where nothing persists
------------------------------------------------------------

/- What persists while a task is carried out. -/
def persisting : Task → List PersistingItem
  | .item _ => []
  | .again entries => entries
  | .items _ _ entries _ => entries
  | .rounds _ _ _ _ _ _ => []

theorem Calls.nothing_persists
    (hCalls : Calls options choice task state part next)
    (hItems : ∀ item ∈ task.walk, item.flags.persist ≤ 1)
    (hNothing : task.persisting = []) :
    part.persisting = [] ∧ task.pendingAfter part = [] := by
  cases hCalls with
  | plain _ => exact ⟨rfl, rfl⟩
  | block _ => exact ⟨rfl, rfl⟩
  | round => exact ⟨rfl, rfl⟩
  | nextRound _ _ _ => exact ⟨rfl, rfl⟩
  | skip _ => exact ⟨hNothing, rfl⟩
  | run _ => exact ⟨rfl, hNothing⟩
  | repeated _ _ => exact ⟨hNothing, rfl⟩
  | @rest first _ _ _ _ _ entries _ _ _ _ _ _ _ =>
      obtain rfl : entries = [] := hNothing
      have hFirst : ¬1 < first.flags.persist := by
        apply Int.not_lt.mpr
        apply hItems first
        exact
          List.mem_append_left _
            (List.mem_append_left _ (Item.mem_walk_self first))
      refine ⟨?_, rfl⟩
      rw [persisting, PersistingItem.next, if_neg hFirst]
      rfl
  | entry => cases hNothing
  | entries _ => cases hNothing

theorem Awaits.nothing_pending
    (hAwaits :
      Awaits options choice root start task state pending)
    (hItems : ∀ item ∈ root.walk, item.flags.persist ≤ 1)
    (hNothing : root.persisting = []) :
    task.persisting = [] ∧ pending = [] := by
  induction hAwaits with
  | start => exact ⟨hNothing, rfl⟩
  | call hAwaits hCalls ih =>
      have hInside := hAwaits.reaches.walk_subset
      rcases hCalls.nothing_persists
          (fun item hItem => hItems item (hInside hItem))
          ih.1 with
        ⟨hPart, hPending⟩
      exact ⟨hPart, by rw [hPending, ih.2]; rfl⟩

end Task

------------------------------------------------------------
-- Applying a ruleset
------------------------------------------------------------

/-
  A stop is final but for what persists. When an item that
  is run in its turn stops the run, what persists in its
  sequence is run again, then what is pending around it, and
  this is the end. If there is nothing of the kind, as in a
  ruleset in which nothing persists, the result is what the
  item has left.
-/
theorem Ruleset.apply_stops
    {ruleset : Ruleset}
    {config : Config}
    {spelling : Spelling}
    {result : ApplyResult}
    {item : Item}
    {rest : List Item}
    {previous changed : Bool}
    {entries pending : List PersistingItem}
    {state : RunState}
    (hApply : ruleset.apply config spelling = .ok result)
    (hAwaits :
      Task.Awaits config.engine config.optional
        (Task.all ruleset.items) { word := result.input }
        (.items (item :: rest) previous entries changed) state
        pending)
    (hRun :
      (item.flaggedStep config.engine
          config.optional).isSkipped config.optional previous =
        false) :
    ∃ next itemChanged,
      Item.step config.engine config.optional item state =
          .ok (next, itemChanged) ∧
        (item.flags.stopsAfter itemChanged = true →
          (∃ after againChanged pendingChanged,
            (Task.again entries).step config.engine
                config.optional next =
              .ok (after, againChanged) ∧
            (Task.again pending).step config.engine
                config.optional { after with stopped := true } =
              .ok (result.final, pendingChanged)) ∧
          (entries = [] → pending = [] →
            result.final = { next with stopped := true }) ∧
          ((∀ other ∈ Items.walk ruleset.items,
              other.flags.persist ≤ 1) →
            result.final = { next with stopped := true })) := by
  rcases Ruleset.apply_cases hApply with ⟨_, hRoot⟩
  rcases hAwaits.reaches.carried hRoot with
    ⟨middle, _, hSequence, _⟩
  rcases Task.items_parts hRun hSequence with
    ⟨next, itemChanged, after, againChanged, hNext, hAfter,
      hEnd⟩
  refine ⟨next, itemChanged, hNext, fun hStops => ?_⟩
  rw [hStops] at hEnd
  have hMiddle : middle = { after with stopped := true } := by
    rcases hEnd with ⟨_, hMiddle⟩ | ⟨hGoing, _⟩
    · exact hMiddle
    · cases hGoing
  have hStopped : middle.stopped = true := by
    rw [hMiddle]
  rcases hAwaits.unwound hRoot hSequence hStopped with
    ⟨pendingChanged, hFinal⟩
  rw [hMiddle] at hFinal
  have hAlone :
      entries = [] → pending = [] →
        result.final = { next with stopped := true } := by
    rintro rfl rfl
    obtain ⟨rfl, _⟩ :=
      Step.result_unique hAfter (Task.again_nil next)
    exact (Step.result_unique hFinal (Task.again_nil _)).1
  refine
    ⟨⟨after, againChanged, pendingChanged, hAfter, hFinal⟩,
      hAlone, fun hItems => ?_⟩
  have hInside :
      ∀ other ∈ (Task.all ruleset.items).walk,
        other.flags.persist ≤ 1 := by
    simpa [Task.all, Task.walk, PersistingItem.walk]
      using hItems
  rcases hAwaits.nothing_pending hInside rfl with
    ⟨hEntries, hPending⟩
  exact hAlone hEntries hPending

/- A rule that is run again after each of the next two. -/
def raisingRule : Rule where
  branches := [{ target := [.literal "a"] }]
  predicates := [{ replacements := [[.literal "b"]] }]
  flags := { persist := 3 }
  source := "a > b persist:3"

/- A rule that stops the run if it changes the word. -/
def stoppingRule : Rule where
  branches := [{ target := [.literal "c"] }]
  predicates := [{ replacements := [[.literal "a"]] }]
  flags := { stop := 1 }
  source := "c > a stop"

/- A rule for which there is work left in the end. -/
def droppingRule : Rule where
  branches := [{ target := [.literal "b"] }]
  predicates := [{ replacements := [[.literal "d"]] }]
  source := "b > d"

/- What stops the run is inside a block. -/
def blockedRuleset : Ruleset where
  items :=
    [ .rule raisingRule,
      .block { source := "!block: 2" }
        [.rule stoppingRule, .rule droppingRule],
      .rule droppingRule ]

/- The state after the first rule, which changes nothing. -/
def unraisedState : RunState where
  word := ["c"]
  stats := { rulesRun := 1 }

/- The state in which the stop leaves the word. -/
def stoppedState : RunState where
  word := ["a"]
  trace :=
    [ { rule := "c > a stop"
        start := 0
        stop := 1
        before := ["c"]
        after := ["a"]
        pass := 1 } ]
  stats :=
    { rulesRun := 2
      changes := 1
      changesByRule := [("c > a stop", 1)] }
  stopped := true

/- The state after the first rule has been run again. -/
def raisedState : RunState where
  word := ["b"]
  trace :=
    stoppedState.trace ++
      [ { rule := "a > b persist:3"
          start := 0
          stop := 1
          before := ["a"]
          after := ["b"]
          pass := 1 } ]
  stats :=
    { rulesRun := 3
      changes := 2
      changesByRule :=
        [("c > a stop", 1), ("a > b persist:3", 1)] }
  stopped := true

/- The first rule is pending where the run is stopped. -/
theorem stoppingRule_awaits :
    Task.Awaits {} {} (Task.all blockedRuleset.items)
      { word := ["c"] }
      (Task.all [.rule stoppingRule, .rule droppingRule])
      unraisedState
      [{ item := .rule raisingRule, left := 2 }] := by
  have hRun :
      (Item.flaggedStep {} {} (.rule raisingRule)).isSkipped
        {} false = false := by
    decide
  have hNext :
      (Task.item (.rule raisingRule)).step {} {}
          { word := ["c"] } =
        .ok (unraisedState, false) := by
    decide +kernel
  have hBlock :
      (Item.flaggedStep {} {}
          (.block { source := "!block: 2" }
            [.rule stoppingRule,
              .rule droppingRule])).isSkipped
        {} false = false := by
    decide
  exact
    ((Task.Awaits.start.call
        (Task.Calls.rest hRun hNext
          (Task.again_nil unraisedState) rfl)).call
      (Task.Calls.run hBlock)).call
        (Task.Calls.plain rfl)

/-
  After the stop the first rule is run again, but neither
  the rest of the block nor what follows the block is run.
-/
theorem stoppingRule_stops :
    blockedRuleset.apply {} (.word ["c"]) =
        .ok { input := ["c"], final := raisedState } ∧
      (Item.flaggedStep {} {} (.rule stoppingRule)).isSkipped
          {} false = false ∧
      Item.step {} {} (.rule stoppingRule) unraisedState =
        .ok ({ stoppedState with stopped := false }, true) ∧
      stoppingRule.flags.stopsAfter true = true ∧
      ∃ changed,
        (Task.again
            [{ item := .rule raisingRule, left := 2 }]).step
            {} {} stoppedState =
          .ok (raisedState, changed) := by
  have hApply :
      blockedRuleset.apply {} (.word ["c"]) =
        .ok { input := ["c"], final := raisedState } := by
    decide +kernel
  have hRun :
      (Item.flaggedStep {} {} (.rule stoppingRule)).isSkipped
        {} false = false := by
    decide
  have hStep :
      Item.step {} {} (.rule stoppingRule) unraisedState =
        .ok ({ stoppedState with stopped := false }, true) := by
    decide +kernel
  rcases Ruleset.apply_stops hApply stoppingRule_awaits hRun
    with ⟨next, itemChanged, hNext, hStops⟩
  obtain ⟨rfl, rfl⟩ := Step.result_unique hNext hStep
  rcases (hStops rfl).1 with
    ⟨after, _, pendingChanged, hAfter, hFinal⟩
  obtain ⟨rfl, _⟩ :=
    Step.result_unique hAfter (Task.again_nil _)
  exact ⟨hApply, hRun, hStep, rfl, pendingChanged, hFinal⟩

/- What persists is run again after the stop that follows it. -/
def overrunRuleset : Ruleset where
  items := [.rule raisingRule, .rule stoppingRule]

/- A rule that is to stop the run, but persists as well. -/
def lastingRule : Rule where
  branches := [{ target := [.literal "a"] }]
  predicates := [{ replacements := [[.literal "b"]] }]
  flags := { stop := 1, persist := 2 }
  source := "a > b stop; persist:2"

/- A rule that gives the one before it something to change. -/
def feedingRule : Rule where
  branches := [{ target := [.literal "c"] }]
  predicates := [{ replacements := [[.literal "a"]] }]
  source := "c > a"

/- A rule changes the word when run again, and stops nothing. -/
def unstoppedRuleset : Ruleset where
  items :=
    [.rule lastingRule, .rule feedingRule, .rule droppingRule]

/- The state in which the last rule finds the word. -/
def fedState : RunState where
  word := ["a"]
  trace :=
    [ { rule := "c > a"
        start := 0
        stop := 1
        before := ["c"]
        after := ["a"]
        pass := 1 } ]
  stats :=
    { rulesRun := 2
      changes := 1
      changesByRule := [("c > a", 1)] }

/-
  A stop is not final in two ways: what persists is run
  after it, and an item that is run again does not stop the
  run at all.
-/
theorem run_goes_on_after_stop :
    (Task.Awaits {} {} (Task.all overrunRuleset.items)
        { word := ["c"] } (.item (.rule stoppingRule))
        unraisedState
        [{ item := .rule raisingRule, left := 2 }] ∧
      Item.step {} {} (.rule stoppingRule) unraisedState =
        .ok ({ stoppedState with stopped := false }, true) ∧
      stoppingRule.flags.stopsAfter true = true ∧
      stoppedState.word = ["a"] ∧
      overrunRuleset.apply {} (.word ["c"]) =
        .ok { input := ["c"], final := raisedState } ∧
      raisedState.word = ["b"]) ∧
    (Task.Awaits {} {} (Task.all unstoppedRuleset.items)
        { word := ["c"] } (.item (.rule lastingRule))
        fedState [] ∧
      ((Item.step {} {} (.rule lastingRule) fedState).map
          fun last => (last.1.word, last.2)) =
        .ok (["b"], true) ∧
      lastingRule.flags.stopsAfter true = true ∧
      ((unstoppedRuleset.apply {} (.word ["c"])).map
          fun result => (result.word, result.final.stopped)) =
        .ok (["d"], false)) := by
  have hRaising :
      (Item.flaggedStep {} {} (.rule raisingRule)).isSkipped
        {} false = false := by
    decide
  have hRaised :
      (Task.item (.rule raisingRule)).step {} {}
          { word := ["c"] } =
        .ok (unraisedState, false) := by
    decide +kernel
  have hStopping :
      (Item.flaggedStep {} {} (.rule stoppingRule)).isSkipped
        {} false = false := by
    decide
  have hLasting :
      (Item.flaggedStep {} {} (.rule lastingRule)).isSkipped
        {} false = false := by
    decide
  have hLasted :
      (Task.item (.rule lastingRule)).step {} {}
          { word := ["c"] } =
        .ok (unraisedState, false) := by
    decide +kernel
  have hFeeding :
      (Item.flaggedStep {} {} (.rule feedingRule)).isSkipped
        {} false = false := by
    decide
  have hFed :
      (Task.item (.rule feedingRule)).step {} {}
          unraisedState =
        .ok (fedState, true) := by
    decide +kernel
  constructor
  · refine
      ⟨?_, by decide +kernel, rfl, rfl, by decide +kernel,
        rfl⟩
    exact
      (Task.Awaits.start.call
        (Task.Calls.rest hRaising hRaised
          (Task.again_nil unraisedState) rfl)).call
        (Task.Calls.run hStopping)
  · refine ⟨?_, by decide +kernel, rfl, by decide +kernel⟩
    exact
      ((Task.Awaits.start.call
          (Task.Calls.rest hLasting hLasted
            (Task.again_nil unraisedState) rfl)).call
        (Task.Calls.repeated hFeeding hFed)).call
          Task.Calls.entry

end Diachrony
