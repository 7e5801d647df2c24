import Diachrony.Proofs.Derivation.Marks
import Diachrony.Proofs.Derivation.Origins

/-
  Reports about runs that were cut off.

  What a persistent rule or block reports about its end is
  found in the result of the whole derivation: with the
  result itself, and on each record that was made in the
  run. Runs that come later, and those around it, leave it
  there. And nothing else is reported about the end of a
  run.

  Key definitions include:
    * `RunState.ShowsBetween`
    * `ApplyResult.ShowsRule`
    * `ApplyResult.ShowsBlock`
    * `Ruleset.CutsOff`

  Key theorems include:
    * `RunState.ShowsBetween.carried`
    * `Ruleset.Runs.rule_shown`
    * `Ruleset.Runs.block_shown`
    * `Ruleset.exists_run_of_unsettled`
    * `Ruleset.apply_reports`
-/

namespace Diachrony

------------------------------------------------------------
-- What a state shows
------------------------------------------------------------

namespace RunState

/-
  A diagnostic is on all records from one position up to
  another.
-/
def Shows
    (state : RunState)
    (diagnostic : Diagnostic)
    (first last : Nat) : Prop :=
  ∀ i, first ≤ i → i < last →
    ∃ record,
      state.trace[i]? = some record ∧
        diagnostic.isReported record.diagnostics = true

/-
  A diagnostic is reported with a run, and it is on each
  record that was made between two states of the run.
-/
structure ShowsBetween
    (final : RunState)
    (diagnostic : Diagnostic)
    (state after : RunState) : Prop where
  reported : diagnostic ∈ final.diagnostics
  shown :
    final.Shows diagnostic state.trace.length
      after.trace.length

variable {state next after last : RunState}
variable {diagnostic : Diagnostic}

/- A mark shows on the records it was put on. -/
theorem showsBetween_mark
    (state before : RunState)
    (diagnostic : Diagnostic) :
    (before.mark state.trace.length diagnostic).ShowsBetween
      diagnostic state
      (before.mark state.trace.length diagnostic) where
  reported :=
    List.mem_append_right _ (List.mem_singleton_self _)
  shown := by
    intro i hFirst hLast
    rw [length_trace_mark] at hLast
    rw [getElem?_trace_mark, List.getElem?_eq_getElem hLast]
    refine ⟨_, rfl, ?_⟩
    dsimp only
    rw [if_neg (Nat.not_lt.mpr hFirst)]
    exact isReported_attachNew diagnostic _

/- What a rule says about its end shows on all its records. -/
theorem showsBetween_addOutcome
    {outcome : RuleOutcome}
    {marks : List Diagnostic}
    (hMarked : outcome.MarkedWith marks)
    (hMem : diagnostic ∈ outcome.diagnostics)
    (hUnsettled : diagnostic.kind.isUnsettled = true)
    (state : RunState)
    (name : String) :
    (state.addOutcome name outcome).ShowsBetween diagnostic
      state (state.addOutcome name outcome) where
  reported := List.mem_append_right _ hMem
  shown := by
    have hMark : diagnostic ∈ marks := by
      rw [← hMarked.reported]
      exact List.mem_filter.mpr ⟨hMem, hUnsettled⟩
    intro i hFirst hLast
    rw [addOutcome, List.length_append] at hLast
    have hInside :
        i - state.trace.length < outcome.changes.length := by
      omega
    refine ⟨outcome.changes[i - state.trace.length], ?_, ?_⟩
    · rw [addOutcome, List.getElem?_append_right hFirst,
        List.getElem?_eq_getElem hInside]
    · apply Diagnostic.isReported_of_mem
      rw [hMarked.recorded _ (List.getElem_mem hInside)]
      exact hMark

/- What shows on records is not taken away from them. -/
theorem ShowsBetween.carried
    (hShows : next.ShowsBetween diagnostic state after)
    (hLast : next.Carries last) :
    last.ShowsBetween diagnostic state after where
  reported := hLast.reports.subset hShows.reported
  shown := by
    intro i hFirst hStop
    rcases hShows.shown i hFirst hStop with
      ⟨record, hRecord, hReported⟩
    rcases hLast.records i record hRecord with
      ⟨other, hOther, _, hMore⟩
    exact
      ⟨other, hOther,
        Diagnostic.isReported_of_subset hMore hReported⟩

end RunState

/- The mark of a block shows on all that was made in it. -/
theorem BlockHead.Ended.shows
    {head : BlockHead}
    {bound : Int}
    {body : Step}
    {start last final : RunState}
    {n : Nat}
    {mark : Diagnostic}
    (hEnded :
      head.Ended bound body start n last (some mark) final) :
    final.ShowsBetween mark start final := by
  have hFinal :
      final = last.mark start.trace.length mark :=
    hEnded.final_eq
  rw [hFinal]
  exact RunState.showsBetween_mark start last mark

------------------------------------------------------------
-- Applying a ruleset
------------------------------------------------------------

/-
  A rule that is run from a state has come to an outcome of
  which nothing is lost, and what it says about the end of
  its run is shown by the result.
-/
def ApplyResult.ShowsRule
    (result : ApplyResult)
    (config : Config)
    (rule : Rule)
    (state : RunState) : Prop :=
  ∃ outcome,
    rule.run config.engine state.word = .ok outcome ∧
      (state.addOutcome rule.name outcome).Carries
        result.final ∧
      ∀ d ∈ outcome.diagnostics,
        d.kind.isUnsettled = true →
          result.final.ShowsBetween d state
            (state.addOutcome rule.name outcome)

/-
  A block that is run from a state has ended in a state of
  which nothing is lost, and its mark is shown by the result
  if there is one.
-/
def ApplyResult.ShowsBlock
    (result : ApplyResult)
    (config : Config)
    (head : BlockHead)
    (inside : List Item)
    (state : RunState) : Prop :=
  ∃ after changed n last mark,
    Item.step config.engine config.optional
          (.block head inside) state =
        .ok (after, changed) ∧
      after.Carries result.final ∧
      head.Ended
        (head.flags.passBound config.engine.maxPasses)
        (sequenceAll config.optional
          (Items.steps config.engine config.optional inside))
        state n last mark after ∧
      ∀ d ∈ mark, result.final.ShowsBetween d state after

/-
  A persistent item has been run, a diagnostic was reported
  in that run, there are records of the run, and the result
  shows the diagnostic on all of them.
-/
def Ruleset.CutsOff
    (ruleset : Ruleset)
    (config : Config)
    (result : ApplyResult)
    (diagnostic : Diagnostic) : Prop :=
  ∃ item state after changed,
    ruleset.Runs config result.input item state ∧
      item.flags.persistent = true ∧
      Item.step config.engine config.optional item state =
        .ok (after, changed) ∧
      diagnostic ∈
        after.diagnostics.drop state.diagnostics.length ∧
      state.trace.length < after.trace.length ∧
      result.final.ShowsBetween diagnostic state after

section Apply

variable {ruleset : Ruleset}
variable {config : Config}
variable {spelling : Spelling}
variable {result : ApplyResult}

variable
  (hApply : ruleset.apply config spelling = .ok result)
variable
  (hBounds :
    Items.AllowPasses config.engine ruleset.items)

include hApply hBounds

theorem Ruleset.apply_inBothPlaces :
    InBothPlaces result.final.trace
      result.final.diagnostics := by
  rcases Ruleset.apply_cases hApply with ⟨_, hStep⟩
  rcases Step.Obeys.sequenceAll RunState.reportsBoth_composes
      (Items.steps_reportBoth hBounds) hStep with
    ⟨_, records, reports, hAdds, hBoth⟩
  have hTrace : result.final.trace = records :=
    hAdds.trace_eq
  have hReports : result.final.diagnostics = reports :=
    hAdds.diagnostics_eq
  rw [hTrace, hReports]
  exact hBoth

omit hApply in
/- What an item that is run adds is said in both places. -/
theorem Ruleset.Runs.reportsBoth
    {item : Item}
    {state after : RunState}
    {changed : Bool}
    (hRuns : ruleset.Runs config result.input item state)
    (hStep :
      Item.step config.engine config.optional item state =
        .ok (after, changed)) :
    state.ReportsBoth changed after := by
  have hInside :
      Items.AllowPasses config.engine [item] := by
    intro one hOne
    rw [Items.walk, Items.walk, List.append_nil] at hOne
    exact hBounds one (hRuns.walk_subset hOne)
  exact
    Items.steps_reportBoth hInside
      (item.flaggedStep config.engine config.optional)
      (List.mem_singleton_self _) hStep

/- What a rule that is run says about its end is shown. -/
theorem Ruleset.Runs.rule_shown
    {rule : Rule}
    {state : RunState}
    (hRuns :
      ruleset.Runs config result.input (.rule rule) state) :
    result.ShowsRule config rule state := by
  rcases hRuns.carried hApply with
    ⟨after, changed, hStep, hCarries⟩
  rw [Item.step] at hStep
  rcases Rule.step_cases hStep with
    ⟨outcome, hRun, rfl, _⟩
  rcases rule.run_marked (hBounds _ hRuns.mem_walk) hRun with
    ⟨marks, hMarked⟩
  refine
    ⟨outcome, hRun, hCarries, fun d hMem hUnsettled => ?_⟩
  have hShows :=
    RunState.showsBetween_addOutcome hMarked hMem hUnsettled
      state rule.name
  exact hShows.carried hCarries

/- What a block that is run says about its end is shown. -/
theorem Ruleset.Runs.block_shown
    {head : BlockHead}
    {inside : List Item}
    {state : RunState}
    (hRuns :
      ruleset.Runs config result.input (.block head inside)
        state)
    (hPersistent : head.flags.persistent = true) :
    result.ShowsBlock config head inside state := by
  rcases hRuns.carried hApply with
    ⟨after, changed, hStep, hCarries⟩
  have hBound := hBounds _ hRuns.mem_walk hPersistent
  have hBlock := hStep
  rw [Item.step] at hBlock
  rcases BlockHead.step_ended (Items.sequenceAll_grows inside)
      (Items.sequenceAll_replays inside) hPersistent hBound
      hBlock with
    ⟨n, last, mark, hEnded⟩
  refine
    ⟨after, changed, n, last, mark, hStep, hCarries, hEnded,
      ?_⟩
  rintro d rfl
  exact hEnded.shows.carried hCarries

/- Each report of a run that was cut off is that of a run. -/
theorem Ruleset.exists_run_of_unsettled
    {diagnostic : Diagnostic}
    (hReport : diagnostic ∈ result.final.diagnostics)
    (hUnsettled : diagnostic.kind.isUnsettled = true) :
    ruleset.CutsOff config result diagnostic := by
  rcases Ruleset.exists_run_of_report hApply hReport with
    ⟨rule, state, outcome, hRuns, hRun, hCarries, hMem⟩ |
    ⟨head, inside, state, before, changed, hRuns, hPersistent,
      hStep, hCarries, hFirst⟩
  · rcases rule.run_marked (hBounds _ hRuns.mem_walk) hRun with
      ⟨marks, hMarked⟩
    have hShows :=
      RunState.showsBetween_addOutcome hMarked hMem hUnsettled
        state rule.name
    have hStep :
        Item.step config.engine config.optional (.rule rule)
            state =
          .ok
            (state.addOutcome rule.name outcome,
            outcome.changed) := by
      rw [Item.step, Rule.step, hRun]
    have hHere :
        diagnostic ∈
          (state.addOutcome rule.name
            outcome).diagnostics.drop
              state.diagnostics.length := by
      rw [RunState.addOutcome, List.drop_left]
      exact hMem
    have hLonger :=
      (hRuns.reportsBoth hBounds hStep).longer hHere
        hUnsettled
    exact
      ⟨.rule rule, state, _, _, hRuns,
        Rule.persistent_of_unsettled hRun hMem hUnsettled,
        hStep, hHere, hLonger, hShows.carried hCarries⟩
  · have hShows :=
      RunState.showsBetween_mark state before diagnostic
    have hHere :
        diagnostic ∈
          (before.mark state.trace.length
            diagnostic).diagnostics.drop
              state.diagnostics.length := by
      rw [RunState.mark, List.drop_append_of_le_length hFirst]
      exact
        List.mem_append_right _ (List.mem_singleton_self _)
    have hLonger :=
      (hRuns.reportsBoth hBounds hStep).longer hHere
        hUnsettled
    exact
      ⟨.block head inside, state, _, changed, hRuns,
        hPersistent, hStep, hHere, hLonger,
        hShows.carried hCarries⟩

end Apply

/-
  Runs that were cut off are reported in both places:
    * what is on a record is among the diagnostics of the
      result;
    * the result is truncated, or unsettled, if some record
      is;
    * what a persistent rule that is run reports about its
      end is on each record of that run;
    * what a persistent block reports about its end is on
      each record made in the block;
    * and nothing else is reported about the end of a run.
-/
theorem Ruleset.apply_reports
    {ruleset : Ruleset}
    {config : Config}
    {spelling : Spelling}
    {result : ApplyResult}
    (hApply : ruleset.apply config spelling = .ok result)
    (hBounds :
      Items.AllowPasses config.engine ruleset.items) :
    (∀ record ∈ result.final.trace,
      ∀ d ∈ record.diagnostics,
        d ∈ result.final.diagnostics) ∧
    (result.truncated = true ↔
      ∃ record ∈ result.final.trace,
        record.truncated = true) ∧
    (result.unsettled = true ↔
      ∃ record ∈ result.final.trace,
        record.unsettled = true) ∧
    (∀ rule state,
      ruleset.Runs config result.input (.rule rule) state →
        result.ShowsRule config rule state) ∧
    (∀ head inside state,
      ruleset.Runs config result.input (.block head inside)
          state →
        head.flags.persistent = true →
          result.ShowsBlock config head inside state) ∧
    (∀ d ∈ result.final.diagnostics,
      d.kind.isUnsettled = true →
        ruleset.CutsOff config result d) := by
  have hBoth := Ruleset.apply_inBothPlaces hApply hBounds
  refine ⟨hBoth.reported, ?_, ?_, ?_, ?_, ?_⟩
  · apply hBoth.any_iff fun kind => kind = .truncated
    intro kind hKind
    rw [of_decide_eq_true hKind]
    rfl
  · exact
      hBoth.any_iff DiagnosticKind.isUnsettled
        fun _ hKind => hKind
  · intro rule state hRuns
    exact hRuns.rule_shown hApply hBounds
  · intro head inside state hRuns hPersistent
    exact hRuns.block_shown hApply hBounds hPersistent
  · intro d hReport hUnsettled
    exact
      Ruleset.exists_run_of_unsettled hApply hBounds hReport
        hUnsettled

/- The rule that persists over the block of a ruleset. -/
def openingRule : Rule where
  branches := [{ target := [.literal "b"] }]
  predicates := [{ replacements := [[.literal "c"]] }]
  flags := { persist := 2 }
  source := "b > c"

/- The block, which is cut off by its bound. -/
def cutHead : BlockHead where
  flags := { persistent := true, maxPasses := some 1 }
  source := "!block"

/- The rule inside, which is cut off by its own. -/
def cutRule : Rule where
  branches := [{ target := [.literal "a"] }]
  predicates :=
    [{ replacements := [[.literal "a", .literal "a"]] }]
  flags := { persistent := true, maxPasses := some 1 }
  source := "a > aa"

/- The state from which the block is run. -/
def openedState : RunState where
  word := ["c", "a"]
  trace :=
    [ { rule := "b > c"
        start := 0
        stop := 1
        before := ["b", "a"]
        after := ["c", "a"]
        pass := 1 } ]
  stats :=
    { rulesRun := 1
      changes := 1
      changesByRule := [("b > c", 1)] }

/- The block is run from where the rule before it has led. -/
theorem unsettledRuleset_runs :
    unsettledRuleset.Runs {} ["b", "a"]
      (.block cutHead [.rule cutRule]) openedState := by
  have hRun :
      (Item.flaggedStep {} {} (.rule openingRule)).isSkipped
        {} false = false := by
    decide
  have hNext :
      (Task.item (.rule openingRule)).step {} {}
          { word := ["b", "a"] } =
        .ok (openedState, true) := by
    decide +kernel
  have hAfter :
      (Task.again []).step {} {} openedState =
        .ok (openedState, false) :=
    rfl
  have hBlock :
      (Item.flaggedStep {} {}
          (.block cutHead [.rule cutRule])).isSkipped
        {} true = false := by
    decide
  exact
    Task.Reaches.call
      (Task.Reaches.call Task.Reaches.start
        (Task.Calls.rest hRun hNext hAfter rfl))
      (Task.Calls.run hBlock)

/- Both the rule and the block are cut off by their bounds. -/
theorem unsettledRuleset_reports :
    let result : ApplyResult :=
      { input := ["b", "a"], final := unsettledState }
    unsettledRuleset.apply {} (.word ["b", "a"]) =
        .ok result ∧
      Items.AllowPasses {} unsettledRuleset.items ∧
      (∃ record ∈ unsettledState.trace,
        record.truncated = true) ∧
      result.ShowsBlock {} cutHead [.rule cutRule]
        openedState ∧
      ∀ d ∈ unsettledState.diagnostics,
        d.kind = .truncated ∧
          unsettledRuleset.CutsOff {} result d := by
  intro result
  have hApply :
      unsettledRuleset.apply {} (.word ["b", "a"]) =
        .ok result := by
    decide +kernel
  have hBounds :
      Items.AllowPasses {} unsettledRuleset.items := by
    decide
  have hReports := Ruleset.apply_reports hApply hBounds
  have hRecords := hReports.2.1.mp (by decide)
  have hBlock :=
    hReports.2.2.2.2.1 _ _ _ unsettledRuleset_runs rfl
  have hTruncated :
      ∀ d ∈ unsettledState.diagnostics,
        d.kind = .truncated := by
    decide
  refine
    ⟨hApply, hBounds, hRecords, hBlock, fun d hMem =>
      ⟨hTruncated d hMem, ?_⟩⟩
  apply hReports.2.2.2.2.2 d hMem
  rw [hTruncated d hMem]
  rfl

end Diachrony
