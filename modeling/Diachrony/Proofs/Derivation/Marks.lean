import Diachrony.Proofs.Derivation.Rounds
import Diachrony.Proofs.Run.Cycles
import Diachrony.Proofs.Run.Reports

/-
  Marks of runs that were cut off.

  A run that ends before the word has settled is reported
  with the derivation and on its records. Neither is without
  the other, however runs nest: a run that is cut off has
  made a change, so there is a record for the report, and
  what is on a record stays there.

  Key definitions include:
    * `RuleOutcome.MarkedWith`
    * `InBothPlaces`
    * `RunState.ReportsBoth`
    * `Items.AllowPasses`

  Key theorems include:
    * `Rule.run_marked`
    * `InBothPlaces.mark`
    * `BlockHead.step_reportsBoth`
    * `Items.steps_reportBoth`
-/

namespace Diachrony

------------------------------------------------------------
-- Rules
------------------------------------------------------------

/-
  All that an outcome says about the end of its run is said
  on each of its records, and if anything is said there are
  records.
-/
structure RuleOutcome.MarkedWith
    (outcome : RuleOutcome)
    (marks : List Diagnostic) : Prop where
  recorded :
    ∀ record ∈ outcome.changes, record.diagnostics = marks
  reported :
    (outcome.diagnostics.filter fun d => d.kind.isUnsettled) =
      marks
  records : marks ≠ [] → outcome.changes ≠ []

namespace Rule

variable {rule : Rule}
variable {options : EngineOptions}
variable {word : Word}
variable {outcome : RuleOutcome}

/- There is a record of each pass that changes something. -/
theorem records_ne_nil
    {i n : Nat}
    (hPass : i < n)
    (hAlters :
      rule.Alters options ((rule.effect options)^[i] word)) :
    rule.records options word n ≠ [] := by
  rcases List.exists_mem_of_ne_nil _ hAlters with
    ⟨edit, hEdit⟩
  apply List.ne_nil_of_mem
  exact
    List.mem_flatMap.mpr
      ⟨i, List.mem_range.mpr hPass,
        List.mem_map_of_mem hEdit⟩

/- A word that is changed at last was changed at first. -/
theorem alters_of_alters_iterate
    {n : Nat}
    (hAlters :
      rule.Alters options ((rule.effect options)^[n] word)) :
    rule.Alters options word := by
  by_contra hSame
  have hFixed :
      (rule.effect options)^[n] word = word :=
    Function.iterate_fixed (effect_of_not_alters hSame) n
  rw [hFixed] at hAlters
  exact hSame hAlters

/- A run that is cut off has made a change. -/
theorem Ended.changes_ne_nil
    {bound : Int}
    (hEnded : rule.Ended options bound word outcome)
    (hMarks : rule.endMarks bound outcome ≠ []) :
    outcome.changes ≠ [] := by
  have hFirst : rule.Alters options word := by
    cases hReason : outcome.stopReason with
    | done => exact absurd hReason hEnded.ended
    | stable =>
        simp [endMarks, hReason] at hMarks
    | cycle =>
        have hReturns := (hEnded.cycle_iff.mp hReason).2
        exact hReturns.alters 0 hEnded.passes_pos
    | truncated =>
        have hAlters :=
          (hEnded.truncated_iff.mp hReason).2.2
        rw [hEnded.finished.word_eq] at hAlters
        exact alters_of_alters_iterate hAlters
  rw [hEnded.finished.changes_eq]
  intro hNone
  exact
    records_ne_nil hEnded.passes_pos hFirst
      (List.map_eq_nil_iff.mp hNone)

/- Nothing is said about the end of a single pass. -/
theorem run_settled
    (hPlain : rule.flags.persistent = false)
    (hRun : rule.run options word = .ok outcome) :
    outcome.MarkedWith [] := by
  rw [run, hPlain] at hRun
  cases hSweep : rule.sweep options word with
  | error fault =>
      rw [pass, hSweep] at hRun
      cases hRun
  | ok sweep =>
      rw [pass_of_sweep hSweep] at hRun
      cases hRun
      have hMade :=
        (HasMade.initial rule options word).next hSweep
      exact
        { recorded := (hMade.finish .done).diagnostics_eq
          reported := hMade.nothing_reported
          records := by simp }

/- Only a run that is repeated can be cut off. -/
theorem persistent_of_unsettled
    {diagnostic : Diagnostic}
    (hRun : rule.run options word = .ok outcome)
    (hMem : diagnostic ∈ outcome.diagnostics)
    (hUnsettled : diagnostic.kind.isUnsettled = true) :
    rule.flags.persistent = true := by
  by_contra hPlain
  have hSettled :=
    run_settled (Bool.eq_false_iff.mpr hPlain) hRun
  exact
    List.filter_eq_nil_iff.mp hSettled.reported diagnostic
      hMem hUnsettled

/- What is said about the end of a run is on all its records. -/
theorem run_marked
    (hBound :
      rule.flags.persistent = true →
        1 ≤ rule.flags.passBound options.maxPasses)
    (hRun : rule.run options word = .ok outcome) :
    ∃ marks, outcome.MarkedWith marks := by
  cases hPersistent : rule.flags.persistent with
  | true =>
      have hEnded :=
        ended_of_run hPersistent (hBound hPersistent) hRun
      exact
        ⟨_,
          { recorded := hEnded.recorded
            reported := hEnded.reported
            records := hEnded.changes_ne_nil }⟩
  | false => exact ⟨[], run_settled hPersistent hRun⟩

end Rule

------------------------------------------------------------
-- Records and reports
------------------------------------------------------------

namespace RunState

/- A record is marked if it was not before. -/
theorem isReported_attachNew
    (diagnostic : Diagnostic)
    (record : Record) :
    diagnostic.isReported
        (attachNew diagnostic record).diagnostics = true := by
  rw [attachNew]
  split
  · assumption
  · apply Diagnostic.isReported_of_mem
    exact List.mem_append_right _ (List.mem_singleton_self _)

theorem mem_attachNew
    {diagnostic other : Diagnostic}
    {record : Record}
    (hMem :
      other ∈ (attachNew diagnostic record).diagnostics) :
    other ∈ record.diagnostics ∨ other = diagnostic := by
  rw [attachNew] at hMem
  split at hMem
  · exact Or.inl hMem
  · rcases List.mem_append.mp hMem with hOld | hNew
    · exact Or.inl hOld
    · exact Or.inr (List.mem_singleton.mp hNew)

end RunState

/-
  What is on some records is reported, and what is reported
  about the end of a run is on one of the records.
-/
structure InBothPlaces
    (records : List Record)
    (reports : List Diagnostic) : Prop where
  reported :
    ∀ record ∈ records, ∀ d ∈ record.diagnostics, d ∈ reports
  recorded :
    ∀ d ∈ reports,
      d.kind.isUnsettled = true →
        ∃ record ∈ records,
          d.isReported record.diagnostics = true

namespace InBothPlaces

variable {records others : List Record}
variable {reports more : List Diagnostic}

theorem nothing : InBothPlaces [] [] where
  reported := by simp
  recorded := by simp

theorem append
    (hFirst : InBothPlaces records reports)
    (hSecond : InBothPlaces others more) :
    InBothPlaces (records ++ others) (reports ++ more) where
  reported := by
    intro record hRecord d hMem
    rcases List.mem_append.mp hRecord with hOld | hNew
    · exact
        List.mem_append_left _
          (hFirst.reported record hOld d hMem)
    · exact
        List.mem_append_right _
          (hSecond.reported record hNew d hMem)
  recorded := by
    intro d hMem hUnsettled
    rcases List.mem_append.mp hMem with hOld | hNew
    · rcases hFirst.recorded d hOld hUnsettled with
        ⟨record, hRecord, hReported⟩
      exact
        ⟨record, List.mem_append_left _ hRecord, hReported⟩
    · rcases hSecond.recorded d hNew hUnsettled with
        ⟨record, hRecord, hReported⟩
      exact
        ⟨record, List.mem_append_right _ hRecord, hReported⟩

/- A mark is reported, and there are records to put it on. -/
theorem mark
    (hBoth : InBothPlaces records reports)
    (hSome : records ≠ [])
    (diagnostic : Diagnostic) :
    InBothPlaces
      (records.map (RunState.attachNew diagnostic))
      (reports ++ [diagnostic]) where
  reported := by
    intro record hRecord d hMem
    rcases List.mem_map.mp hRecord with ⟨bare, hBare, rfl⟩
    rcases RunState.mem_attachNew hMem with hOld | rfl
    · exact
        List.mem_append_left _
          (hBoth.reported bare hBare d hOld)
    · exact
        List.mem_append_right _ (List.mem_singleton_self _)
  recorded := by
    intro d hMem hUnsettled
    rcases List.mem_append.mp hMem with hOld | hNew
    · rcases hBoth.recorded d hOld hUnsettled with
        ⟨bare, hBare, hReported⟩
      exact
        ⟨_, List.mem_map_of_mem hBare,
          Diagnostic.isReported_of_subset
            (RunState.subset_attachNew diagnostic bare)
            hReported⟩
    · obtain rfl := List.mem_singleton.mp hNew
      rcases List.exists_mem_of_ne_nil _ hSome with
        ⟨bare, hBare⟩
      exact
        ⟨_, List.mem_map_of_mem hBare,
          RunState.isReported_attachNew d bare⟩

/- A rule says about its end the same in both places. -/
theorem of_marked
    {outcome : RuleOutcome}
    {marks : List Diagnostic}
    (hMarked : outcome.MarkedWith marks) :
    InBothPlaces outcome.changes outcome.diagnostics where
  reported := by
    intro record hRecord d hMem
    rw [hMarked.recorded record hRecord,
      ← hMarked.reported] at hMem
    exact (List.mem_filter.mp hMem).1
  recorded := by
    intro d hMem hUnsettled
    have hMark : d ∈ marks := by
      rw [← hMarked.reported]
      exact List.mem_filter.mpr ⟨hMem, hUnsettled⟩
    rcases List.exists_mem_of_ne_nil _
        (hMarked.records (List.ne_nil_of_mem hMark)) with
      ⟨record, hRecord⟩
    refine ⟨record, hRecord, ?_⟩
    apply Diagnostic.isReported_of_mem
    rw [hMarked.recorded record hRecord]
    exact hMark

/-
  How runs ended can be read off the reports as well as off
  the records.
-/
theorem any_iff
    (hBoth : InBothPlaces records reports)
    (holds : DiagnosticKind → Bool)
    (hUnsettled :
      ∀ kind, holds kind = true → kind.isUnsettled = true) :
    (reports.any fun d => holds d.kind) = true ↔
      ∃ record ∈ records,
        (record.diagnostics.any fun d => holds d.kind) =
          true := by
  constructor
  · intro hAny
    rcases List.any_eq_true.mp hAny with ⟨d, hMem, hHolds⟩
    rcases hBoth.recorded d hMem (hUnsettled _ hHolds) with
      ⟨record, hRecord, hReported⟩
    rcases List.any_eq_true.mp hReported with
      ⟨other, hOther, hSame⟩
    rw [Diagnostic.kind_of_sameReport hSame] at hHolds
    exact
      ⟨record, hRecord,
        List.any_eq_true.mpr ⟨other, hOther, hHolds⟩⟩
  · rintro ⟨record, hRecord, hAny⟩
    rcases List.any_eq_true.mp hAny with ⟨d, hMem, hHolds⟩
    exact
      List.any_eq_true.mpr
        ⟨d, hBoth.reported record hRecord d hMem, hHolds⟩

end InBothPlaces

------------------------------------------------------------
-- States
------------------------------------------------------------

namespace RunState

/-
  What a step adds to a state is said in both places.
-/
def ReportsBoth
    (state : RunState)
    (_ : Bool)
    (next : RunState) : Prop :=
  ∃ changed records reports,
    state.Adds changed records reports next ∧
      InBothPlaces records reports

variable {state next : RunState}
variable {diagnostic : Diagnostic}

theorem reportsBoth_composes : Composes ReportsBoth where
  stay := fun state =>
    ⟨false, [], [], Adds.same state, InBothPlaces.nothing⟩
  andThen := by
    rintro _ _ _ _ _ ⟨_, _, _, hNext, hFirst⟩
      ⟨_, _, _, hLast, hSecond⟩
    exact
      ⟨_, _, _, hNext.trans hLast, hFirst.append hSecond⟩
  skipItem := fun state =>
    ⟨false, [], [], { Adds.same state with },
      InBothPlaces.nothing⟩
  stop := fun state =>
    ⟨false, [], [],
      { Adds.same state with stopped := fun _ => rfl },
      InBothPlaces.nothing⟩

/-
  A step that reports that a run was cut off has made a
  record.
-/
theorem ReportsBoth.longer
    {changed : Bool}
    (hNext : state.ReportsBoth changed next)
    (hReport :
      diagnostic ∈
        next.diagnostics.drop state.diagnostics.length)
    (hUnsettled : diagnostic.kind.isUnsettled = true) :
    state.trace.length < next.trace.length := by
  rcases hNext with ⟨_, records, reports, hAdds, hBoth⟩
  rw [hAdds.diagnostics_eq, List.drop_left] at hReport
  rcases hBoth.recorded diagnostic hReport hUnsettled with
    ⟨record, hRecord, _⟩
  rw [hAdds.trace_eq, List.length_append]
  have hSome := List.length_pos_of_mem hRecord
  omega

end RunState

------------------------------------------------------------
-- Persistent blocks
------------------------------------------------------------

section Rounds

variable {body : Step}
variable {start last : RunState}
variable {n : Nat}

/- A law that composes is obeyed by all rounds together. -/
theorem Step.Obeys.rounds
    {law : RunState → Bool → RunState → Prop}
    (hLaw : RunState.Composes law)
    (hBody : body.Obeys law)
    (hRounds : body.rounds n start = .ok last) :
    ∃ changed, law start changed last := by
  induction n generalizing last with
  | zero =>
      cases hRounds
      exact ⟨false, hLaw.stay _⟩
  | succ n ih =>
      rw [Step.rounds] at hRounds
      cases hEarlier : body.rounds n start with
      | error fault =>
          rw [hEarlier] at hRounds
          cases hRounds
      | ok state =>
      rw [hEarlier] at hRounds
      dsimp only at hRounds
      cases hNext : body state with
      | error fault =>
          rw [hNext] at hRounds
          cases hRounds
      | ok result =>
      rcases result with ⟨next, changed⟩
      rw [hNext] at hRounds
      cases hRounds
      rcases ih hEarlier with ⟨earlier, hState⟩
      exact ⟨_, hLaw.andThen hState (hBody hNext)⟩

/- Rounds that make changes make records. -/
theorem Step.Changes.longer
    (hGrows : body.Obeys RunState.Grows)
    (hChanges : body.Changes start n)
    (hSome : 0 < n)
    (hRounds : body.rounds n start = .ok last) :
    start.trace.length < last.trace.length := by
  cases n with
  | zero => cases hSome
  | succ n =>
      rcases hChanges n (Nat.lt_succ_self n) with
        ⟨state, next, hState, hNext, hLonger⟩
      have hLast : next = last := by
        have hSame := Step.rounds_succ hState hNext
        rw [hRounds] at hSame
        exact (Except.ok.inj hSame).symm
      rcases hGrows.rounds RunState.grows_composes hState with
        ⟨_, hGrown⟩
      rw [← hLast]
      exact Nat.lt_of_le_of_lt hGrown.length_le hLonger

variable {head : BlockHead}
variable {bound : Int}
variable {final : RunState}
variable {mark : Diagnostic}

/- A block that is cut off has made a change. -/
theorem BlockHead.Ended.longer
    (hGrows : body.Obeys RunState.Grows)
    (hBound : 1 ≤ bound)
    (hEnded :
      head.Ended bound body start n last (some mark) final) :
    start.trace.length < last.trace.length := by
  have hUnsettled := hEnded.unsettled mark rfl
  have hKind :
      mark.kind = .truncated ∨ mark.kind = .cycle := by
    simpa [DiagnosticKind.isUnsettled] using hUnsettled
  rcases hKind with hTruncated | hCycle
  · rcases hEnded.truncated mark rfl hTruncated with
      ⟨_, hAll, hChanges, _⟩
    exact hChanges.longer hGrows (by omega) hEnded.rounds
  · rcases hEnded.cycle mark rfl hCycle with
      ⟨_, hChanges, j, hj, _⟩
    exact hChanges.longer hGrows (by omega) hEnded.rounds

end Rounds

------------------------------------------------------------
-- Items
------------------------------------------------------------

variable {options : EngineOptions}
variable {choice : OptionalChoice}

theorem Rule.step_reportsBoth
    {rule : Rule}
    (hBound :
      rule.flags.persistent = true →
        1 ≤ rule.flags.passBound options.maxPasses) :
    (rule.step options).Obeys RunState.ReportsBoth := by
  intro state next changed hStep
  rcases Rule.step_cases hStep with
    ⟨outcome, hRun, rfl, rfl⟩
  rcases rule.run_marked hBound hRun with ⟨marks, hMarked⟩
  exact
    ⟨_, _, _, Rule.step_adds hRun,
      InBothPlaces.of_marked hMarked⟩

theorem BlockHead.step_reportsBoth
    {head : BlockHead}
    {inside : List Item}
    (hPersistent : head.flags.persistent = true)
    (hBound : 1 ≤ head.flags.passBound options.maxPasses)
    (hBody :
      Step.Obeys RunState.ReportsBoth
        (sequenceAll choice
          (Items.steps options choice inside))) :
    Step.Obeys RunState.ReportsBoth
      (head.step options
        (sequenceAll choice
          (Items.steps options choice inside))) := by
  intro state final changed hStep
  rcases BlockHead.step_ended (Items.sequenceAll_grows inside)
      (Items.sequenceAll_replays inside) hPersistent hBound
      hStep with
    ⟨n, last, mark, hEnded⟩
  rcases hBody.rounds RunState.reportsBoth_composes
      hEnded.rounds with
    ⟨_, moved, records, reports, hAdds, hBoth⟩
  rw [hEnded.final_eq]
  cases mark with
  | none => exact ⟨moved, records, reports, hAdds, hBoth⟩
  | some mark =>
      have hLonger :=
        hEnded.longer (Items.sequenceAll_grows inside) hBound
      have hSome : records ≠ [] := by
        rintro rfl
        rw [hAdds.trace_eq, List.append_nil] at hLonger
        exact Nat.lt_irrefl _ hLonger
      exact
        ⟨_, _, _, hAdds.mark mark, hBoth.mark hSome mark⟩

/-
  The bound of each persistent rule and block among some
  items allows at least one pass.
-/
def Items.AllowPasses
    (options : EngineOptions)
    (items : List Item) : Prop :=
  ∀ item ∈ Items.walk items,
    item.flags.persistent = true →
      1 ≤ item.flags.passBound options.maxPasses

instance
    (options : EngineOptions)
    (items : List Item) :
    Decidable (Items.AllowPasses options items) := by
  unfold Items.AllowPasses
  infer_instance

theorem Items.steps_reportBoth
    {items : List Item}
    (hBounds : Items.AllowPasses options items) :
    ∀ item ∈ Items.steps options choice items,
      item.step.Obeys RunState.ReportsBoth := by
  apply Items.steps_obey RunState.reportsBoth_composes
  · intro rule hMem
    exact Rule.step_reportsBoth (hBounds _ hMem)
  · intro head inside hMem hPersistent hBody
    exact
      BlockHead.step_reportsBoth hPersistent
        (hBounds _ hMem hPersistent) hBody

end Diachrony
