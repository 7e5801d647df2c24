import Diachrony.Proofs.Run.Budget

/-
  What a run reports.

  Each problem that a pass meets is reported by the run, and
  what has been reported once is not lost. A problem that is
  met again is not reported twice. Apart from how it ended,
  a run reports nothing else.

  Key definitions include:
    * `Rule.Reports`

  Key theorems include:
    * `Diagnostic.isReported_foldl_addNew`
    * `Rule.run_reports`
-/

namespace Diachrony

------------------------------------------------------------
-- Reported diagnostics
------------------------------------------------------------

namespace Diagnostic

variable {diagnostic : Diagnostic}
variable {reported added : List Diagnostic}

theorem isReported_of_subset
    (hSubset : reported ⊆ added)
    (hReported : diagnostic.isReported reported = true) :
    diagnostic.isReported added = true := by
  rcases List.any_eq_true.mp hReported with
    ⟨other, hOther, hSame⟩
  exact List.any_eq_true.mpr ⟨other, hSubset hOther, hSame⟩

theorem isReported_of_mem
    (hMem : diagnostic ∈ reported) :
    diagnostic.isReported reported = true :=
  List.any_eq_true.mpr
    ⟨diagnostic, hMem, by simp [sameReport]⟩

theorem isReported_addNew
    (reported : List Diagnostic)
    (diagnostic : Diagnostic) :
    diagnostic.isReported (addNew reported diagnostic) =
      true := by
  unfold addNew
  by_cases hReported : diagnostic.isReported reported = true
  · rw [if_pos hReported]
    exact hReported
  · rw [if_neg hReported]
    apply isReported_of_mem
    exact List.mem_append_right _ (List.mem_singleton_self _)

/- What is to be reported is, or the same has been. -/
theorem isReported_foldl_addNew
    (hMem : diagnostic ∈ added) :
    diagnostic.isReported (added.foldl addNew reported) =
      true := by
  induction added generalizing reported with
  | nil => cases hMem
  | cons first rest ih =>
      rcases List.mem_cons.mp hMem with rfl | hRest
      · exact
          isReported_of_subset (subset_foldl_addNew _ rest)
            (isReported_addNew reported diagnostic)
      · exact ih hRest

end Diagnostic

------------------------------------------------------------
-- Passes
------------------------------------------------------------

namespace Rule

variable {rule : Rule}
variable {options : EngineOptions}
variable {word : Word}
variable {outcome last : RuleOutcome}

/-
  A pass of a run meets the problem that a diagnostic is
  about.
-/
def Meets
    (rule : Rule)
    (options : EngineOptions)
    (word : Word)
    (passes : Nat)
    (diagnostic : Diagnostic) : Prop :=
  ∃ i < passes, ∃ sweep,
    rule.sweep options ((rule.effect options)^[i] word) =
        .ok sweep ∧
      ∃ problem ∈ sweep.problems,
        diagnostic = rule.diagnostic problem

theorem Meets.mono
    {passes more : Nat}
    {diagnostic : Diagnostic}
    (hMeets : rule.Meets options word passes diagnostic)
    (hMore : passes ≤ more) :
    rule.Meets options word more diagnostic := by
  rcases hMeets with ⟨i, hPass, hRest⟩
  exact ⟨i, Nat.lt_of_lt_of_le hPass hMore, hRest⟩

/-
  An outcome reports all problems that the passes made so
  far have met, and those only, except for how it ended.
-/
structure Reports
    (rule : Rule)
    (options : EngineOptions)
    (word : Word)
    (outcome : RuleOutcome) : Prop where
  word_eq :
    outcome.word = (rule.effect options)^[outcome.passes] word
  reported :
    ∀ i < outcome.passes, ∀ sweep,
      rule.sweep options ((rule.effect options)^[i] word) =
          .ok sweep →
        ∀ problem ∈ sweep.problems,
          (rule.diagnostic problem).isReported
            outcome.diagnostics = true
  met :
    ∀ diagnostic ∈ outcome.diagnostics,
      diagnostic.kind.isUnsettled = true ∨
        rule.Meets options word outcome.passes diagnostic

theorem Reports.initial :
    rule.Reports options word { word := word } where
  word_eq := rfl
  reported := by
    intro i hPass
    cases hPass
  met := by
    intro diagnostic hMem
    cases hMem

/- One more pass is made. -/
theorem Reports.next
    (hReports : rule.Reports options word outcome)
    {sweep : Sweep}
    (hSweep : rule.sweep options outcome.word = .ok sweep) :
    rule.Reports options word
      (outcome.addSweep rule sweep) where
  word_eq := by
    have hEffect := effect_of_sweep hSweep
    simp only [RuleOutcome.addSweep,
      Function.iterate_succ_apply', ← hReports.word_eq, hEffect]
  reported := by
    intro i hPass other hOther problem hProblem
    rcases Nat.lt_succ_iff_lt_or_eq.mp hPass with
      hEarlier | rfl
    · have hOld :=
        hReports.reported i hEarlier other hOther problem
          hProblem
      exact
        Diagnostic.isReported_of_subset
          (Diagnostic.subset_foldl_addNew _ _) hOld
    · rw [← hReports.word_eq] at hOther
      obtain rfl : sweep = other :=
        Except.ok.inj (hSweep.symm.trans hOther)
      exact
        Diagnostic.isReported_foldl_addNew
          (List.mem_map_of_mem hProblem)
  met := by
    intro diagnostic hMem
    rcases Diagnostic.mem_foldl_addNew hMem with hOld | hNew
    · rcases hReports.met diagnostic hOld with hEnd | hMet
      · exact Or.inl hEnd
      · exact Or.inr (hMet.mono (Nat.le_succ _))
    · rcases List.mem_map.mp hNew with
        ⟨problem, hProblem, rfl⟩
      rw [hReports.word_eq] at hSweep
      exact Or.inr ⟨outcome.passes, Nat.lt_succ_self _, sweep,
        hSweep, problem, hProblem, rfl⟩

theorem Reports.finish
    (hReports : rule.Reports options word outcome)
    (reason : StopReason) :
    rule.Reports options word (outcome.finish reason) where
  word_eq := hReports.word_eq
  reported := hReports.reported
  met := hReports.met

theorem Reports.mark
    (hReports : rule.Reports options word outcome)
    {diagnostic : Diagnostic}
    (hEnd : diagnostic.kind.isUnsettled = true) :
    rule.Reports options word (outcome.mark diagnostic) where
  word_eq := hReports.word_eq
  reported := by
    intro i hPass sweep hSweep problem hProblem
    have hOld :=
      hReports.reported i hPass sweep hSweep problem hProblem
    exact
      Diagnostic.isReported_of_subset
        (List.subset_append_left _ _) hOld
  met := by
    intro other hMem
    rcases List.mem_append.mp hMem with hOld | hNew
    · exact hReports.met other hOld
    · obtain rfl := List.mem_singleton.mp hNew
      exact Or.inl hEnd

------------------------------------------------------------
-- Whole runs
------------------------------------------------------------

theorem runPasses_reports
    {bound : Int}
    {left : Nat}
    {seen : List Form}
    (hReports : rule.Reports options word outcome)
    (hRun :
      rule.runPasses options bound left seen outcome =
        .ok last) :
    rule.Reports options word last := by
  induction left using Nat.strongRecOn
    generalizing seen outcome with
  | _ left ih =>
  rcases runPasses_cases hRun with
    ⟨next, changed, hPass, hEnd⟩
  rcases pass_cases hPass with ⟨sweep, hSweep, rfl, _⟩
  have hNext := hReports.next hSweep
  rcases hEnd with hStable | hCycle | hBound | hMore
  · rw [hStable.2]
    exact hNext.finish .stable
  · rw [hCycle.2.2.2]
    exact (hNext.finish .cycle).mark rfl
  · rcases endAtBound_cases hBound.2.2.2 with
      ⟨_, _, ⟨_, rfl⟩ | ⟨_, rfl⟩⟩
    · exact (hNext.finish .truncated).mark rfl
    · exact hNext.finish .stable
  · rcases hMore with ⟨_, _, fewer, hLeft, hMore⟩
    exact ih fewer (by omega) hNext hMore

/-
  A run reports all problems that its passes meet, and
  besides only how it ended.
-/
theorem run_reports
    (hRun : rule.run options word = .ok outcome) :
    rule.Reports options word outcome := by
  unfold run at hRun
  split at hRun
  · exact runPasses_reports Reports.initial hRun
  split at hRun
  · cases hRun
  · rename_i hPass
    cases hRun
    rcases pass_cases hPass with ⟨sweep, hSweep, rfl, _⟩
    exact Reports.initial.next hSweep

end Rule

end Diachrony
