import Diachrony.Proofs.Run.Passes
import Diachrony.Proofs.Scan.Budget

/-
  Running a rule with more steps.

  An abandoned match that is reported with a pass is found
  among the diagnostics of the run. A search for selected
  matches that is abandoned is not reported, and neither is
  a match that the probe at the pass bound abandons. Where
  nothing of the kind happens, a run is the same with more
  steps.

  Key definitions include:
    * `RuleOutcome.Extends`

  Key theorems include:
    * `Rule.runPasses_extends`
    * `Rule.undisturbed_of_extends`
    * `Rule.run_withSteps`
-/

namespace Diachrony

------------------------------------------------------------
-- What is reported
------------------------------------------------------------

theorem Diagnostic.subset_addNew
    (reported : List Diagnostic)
    (diagnostic : Diagnostic) :
    reported ⊆ Diagnostic.addNew reported diagnostic := by
  unfold addNew
  split
  · exact List.Subset.refl _
  · exact List.subset_append_left _ _

theorem Diagnostic.subset_foldl_addNew
    (reported added : List Diagnostic) :
    reported ⊆ added.foldl Diagnostic.addNew reported := by
  induction added generalizing reported with
  | nil => exact List.Subset.refl _
  | cons first rest ih =>
      exact List.Subset.trans
        (Diagnostic.subset_addNew reported first) (ih _)

/- What is reported in the same words is of the same kind. -/
theorem Diagnostic.kind_of_sameReport
    {one other : Diagnostic}
    (hSame : one.sameReport other = true) :
    one.kind = other.kind := by
  simp only [sameReport, Bool.and_eq_true,
    decide_eq_true_eq] at hSame
  exact hSame.1.1.1.1

/- What is to be reported is, or something of its kind was. -/
theorem Diagnostic.exists_kind_addNew
    (reported : List Diagnostic)
    (diagnostic : Diagnostic) :
    ∃ other ∈ Diagnostic.addNew reported diagnostic,
      other.kind = diagnostic.kind := by
  unfold addNew
  split
  · rename_i hReported
    rcases List.any_eq_true.mp hReported with
      ⟨other, hOther, hSame⟩
    exact ⟨other, hOther, (kind_of_sameReport hSame).symm⟩
  · refine ⟨diagnostic, ?_, rfl⟩
    exact List.mem_append_right _ (List.mem_singleton_self _)

theorem Diagnostic.exists_kind_foldl_addNew
    {reported added : List Diagnostic}
    {diagnostic : Diagnostic}
    (hMem : diagnostic ∈ added) :
    ∃ other ∈ added.foldl Diagnostic.addNew reported,
      other.kind = diagnostic.kind := by
  induction added generalizing reported with
  | nil => cases hMem
  | cons first rest ih =>
      rcases List.mem_cons.mp hMem with rfl | hRest
      · rcases Diagnostic.exists_kind_addNew reported
            diagnostic with
          ⟨other, hOther, hKind⟩
        exact ⟨other,
          Diagnostic.subset_foldl_addNew _ rest hOther, hKind⟩
      · exact ih hRest

------------------------------------------------------------
-- Runs that go on
------------------------------------------------------------

/-
  An outcome extends an earlier one of the same run: it has
  no fewer passes, and all that was reported still is.
-/
structure RuleOutcome.Extends
    (last outcome : RuleOutcome) : Prop where
  passes_le : outcome.passes ≤ last.passes
  diagnostics_subset :
    outcome.diagnostics ⊆ last.diagnostics

namespace RuleOutcome

theorem Extends.trans
    {last middle first : RuleOutcome}
    (hLast : last.Extends middle)
    (hMiddle : middle.Extends first) :
    last.Extends first where
  passes_le := Nat.le_trans hMiddle.passes_le hLast.passes_le
  diagnostics_subset :=
    List.Subset.trans hMiddle.diagnostics_subset
      hLast.diagnostics_subset

theorem extends_addSweep
    (outcome : RuleOutcome)
    (rule : Rule)
    (sweep : Sweep) :
    (outcome.addSweep rule sweep).Extends outcome where
  passes_le := Nat.le_succ _
  diagnostics_subset := Diagnostic.subset_foldl_addNew _ _

theorem extends_finish
    (outcome : RuleOutcome)
    (reason : StopReason) :
    (outcome.finish reason).Extends outcome where
  passes_le := Nat.le_refl _
  diagnostics_subset := List.Subset.refl _

theorem extends_mark
    (outcome : RuleOutcome)
    (reason : StopReason)
    (diagnostic : Diagnostic) :
    ((outcome.finish reason).mark diagnostic).Extends
      outcome where
  passes_le := Nat.le_refl _
  diagnostics_subset := List.subset_append_left _ _

end RuleOutcome

namespace Rule

variable {rule : Rule}
variable {options : EngineOptions}
variable {word : Word}
variable {outcome last : RuleOutcome}
variable {bound : Int}

theorem endAtBound_extends
    (hEnd : rule.endAtBound options bound outcome = .ok last) :
    last.Extends outcome := by
  rcases endAtBound_cases hEnd with
    ⟨_, _, ⟨_, rfl⟩ | ⟨_, rfl⟩⟩
  · exact RuleOutcome.extends_mark _ _ _
  · exact RuleOutcome.extends_finish _ _

/- A run begins with a pass, and extends what it leaves. -/
theorem runPasses_extends
    {left : Nat}
    {seen : List Form}
    (hRun :
      rule.runPasses options bound left seen outcome =
        .ok last) :
    ∃ sweep,
      rule.sweep options outcome.word = .ok sweep ∧
        last.Extends (outcome.addSweep rule sweep) := by
  induction left using Nat.strongRecOn
    generalizing seen outcome with
  | _ left ih =>
  rcases runPasses_cases hRun with
    ⟨next, changed, hPass, hEnd⟩
  rcases pass_cases hPass with ⟨sweep, hSweep, rfl, _⟩
  refine ⟨sweep, hSweep, ?_⟩
  rcases hEnd with hStable | hCycle | hBound | hMore
  · rw [hStable.2]
    exact RuleOutcome.extends_finish _ _
  · rw [hCycle.2.2.2]
    exact RuleOutcome.extends_mark _ _ _
  · exact endAtBound_extends hBound.2.2.2
  · rcases hMore with ⟨_, _, fewer, hLeft, hMore⟩
    rcases ih fewer (by omega) hMore with
      ⟨other, _, hExtends⟩
    exact hExtends.trans (RuleOutcome.extends_addSweep _ _ _)

/- A pass is undisturbed if all of it has been reported. -/
theorem undisturbed_of_extends
    {sweep : Sweep}
    (hSweep : rule.sweep options outcome.word = .ok sweep)
    (hSearched : rule.Searched options outcome.word)
    (hExtends : last.Extends (outcome.addSweep rule sweep))
    (hReported :
      ∀ diagnostic ∈ last.diagnostics,
        diagnostic.kind ≠ .matchBudget) :
    rule.Undisturbed options outcome.word where
  searched := hSearched
  decided := by
    intro other hOther problem hProblem
    obtain rfl : sweep = other :=
      Except.ok.inj (hSweep.symm.trans hOther)
    rcases Diagnostic.exists_kind_foldl_addNew
        (List.mem_map_of_mem hProblem) with
      ⟨diagnostic, hDiagnostic, hKind⟩
    have hLast :=
      hReported diagnostic
        (hExtends.diagnostics_subset hDiagnostic)
    rw [hKind] at hLast
    exact hLast

------------------------------------------------------------
-- Runs with more steps
------------------------------------------------------------

variable {more : Int}

theorem endAtBound_withSteps
    (hMore : options.maxMatchSteps ≤ more)
    (hEnd : rule.endAtBound options bound outcome = .ok last)
    (hUndisturbed : rule.Undisturbed options outcome.word) :
    rule.endAtBound (options.withSteps more) bound outcome =
      .ok last := by
  unfold endAtBound at hEnd ⊢
  split at hEnd
  · cases hEnd
  · rename_i probe hProbe
    rw [sweep_withSteps hMore hProbe hUndisturbed]
    exact hEnd

/- A run that has come to its end has kept to its bound. -/
theorem runPasses_within
    {left : Nat}
    {seen : List Form}
    (hRun :
      rule.runPasses options bound left seen outcome =
        .ok last) :
    ¬(options.strict = true ∧
      bound < (outcome.passes + 1 : Nat)) := by
  intro hBeyond
  rw [runPasses, if_pos hBeyond] at hRun
  cases hRun

theorem runPasses_withSteps
    (hMore : options.maxMatchSteps ≤ more)
    (hMade : rule.HasMade options word outcome)
    {left : Nat}
    {seen : List Form}
    (hLeft : bound ≤ (outcome.passes + 1 + left : Nat))
    (hRun :
      rule.runPasses options bound left seen outcome =
        .ok last)
    (hReported :
      ∀ diagnostic ∈ last.diagnostics,
        diagnostic.kind ≠ .matchBudget)
    (hSearched :
      ∀ i < last.passes,
        rule.Searched options ((rule.effect options)^[i] word))
    (hProbe :
      bound ≤ last.passes →
        rule.Undisturbed options last.word) :
    rule.runPasses (options.withSteps more) bound left seen
      outcome = .ok last := by
  induction left using Nat.strongRecOn
    generalizing seen outcome with
  | _ left ih =>
  rcases runPasses_extends hRun with
    ⟨sweep, hSweep, hExtends⟩
  have hWithin := runPasses_within hRun
  have hNext := hMade.next hSweep
  have hHere : rule.Searched options outcome.word := by
    rw [hMade.word_eq]
    exact hSearched _ hExtends.passes_le
  have hSame :=
    sweep_withSteps hMore hSweep
      (undisturbed_of_extends hSweep hHere hExtends hReported)
  unfold runPasses at hRun ⊢
  rw [if_neg hWithin, pass_of_sweep hSweep] at hRun
  refine (if_neg hWithin).trans ?_
  rw [pass_of_sweep hSame]
  cases hChanged : sweep.changed with
  | false =>
      rw [hChanged] at hRun
      exact hRun
  | true =>
      rw [hChanged] at hRun
      dsimp only at hRun ⊢
      split at hRun
      · rename_i hCycle
        exact (if_pos hCycle).trans hRun
      · rename_i hNew
        refine (if_neg hNew).trans ?_
        cases left with
        | zero =>
            have hAdds := endAtBound_addsOnly hRun
            have hPasses := (endAtBound_extends hRun).passes_le
            apply endAtBound_withSteps hMore hRun
            rw [← hAdds.word_eq]
            apply hProbe
            exact Int.le_trans hLeft (Int.ofNat_le.mpr hPasses)
        | succ fewer =>
            apply ih fewer (Nat.lt_succ_self _) hNext ?_ hRun
            refine Int.le_trans hLeft (Int.ofNat_le.mpr ?_)
            simp only [RuleOutcome.addSweep]
            omega

/-
  A run that does not report an abandoned match is the same
  with more steps, if the searches for selected matches came
  to a result in each of its passes and, at the pass bound,
  the probe was not disturbed either. These are the matches
  whose end nothing reports.
-/
theorem run_withSteps
    (hRun : rule.run options word = .ok outcome)
    (hReported :
      ∀ diagnostic ∈ outcome.diagnostics,
        diagnostic.kind ≠ .matchBudget)
    (hSearched :
      ∀ i < outcome.passes,
        rule.Searched options ((rule.effect options)^[i] word))
    (hProbe :
      rule.flags.persistent = true →
        rule.flags.passBound options.maxPasses ≤
            outcome.passes →
          rule.Undisturbed options outcome.word)
    (hMore : options.maxMatchSteps ≤ more) :
    rule.run (options.withSteps more) word = .ok outcome := by
  have hInitial := HasMade.initial rule options word
  unfold run at hRun ⊢
  split at hRun
  · rename_i hPersistent
    rw [if_pos hPersistent]
    apply runPasses_withSteps hMore hInitial ?_ hRun hReported
      hSearched (hProbe hPersistent)
    change _ ≤ ((0 + 1 + _ : Nat) : Int)
    omega
  · rename_i hOnce
    rw [if_neg hOnce]
    split at hRun
    · cases hRun
    · rename_i hPass
      cases hRun
      rcases pass_cases hPass with ⟨sweep, hSweep, rfl, rfl⟩
      have hUndisturbed : rule.Undisturbed options word :=
        undisturbed_of_extends hSweep
          (hSearched 0 (Nat.succ_pos _))
          (RuleOutcome.extends_finish _ .done) hReported
      rw [pass_of_sweep
        (sweep_withSteps hMore hSweep hUndisturbed)]

end Rule

/- The first of some symbols becomes another one. -/
def firstRule : Rule where
  branches :=
    [ { target := [.literal "a"], indices := some [0] } ]
  predicates := [{ replacements := [[.literal "b"]] }]
  flags := { persistent := true, maxPasses := some 1 }
  source := "a@1 > b repeat:1"

/- The run ends before the second symbol is changed. -/
def firstOutcome : RuleOutcome :=
  let mark : Diagnostic :=
    { problem := .rulePassBound 1
      line := some 0
      rule := some "a@1 > b repeat:1" }
  { word := ["b", "a"]
    changes :=
      [ { rule := "a@1 > b repeat:1"
          start := 0
          stop := 1
          before := ["a", "a"]
          after := ["b", "a"]
          pass := 1
          diagnostics := [mark] } ]
    diagnostics := [mark]
    passes := 1
    stopReason := .truncated
    examined := 3 }

/- Two steps are enough for each of the matches. -/
theorem firstRule_searched
    {word : Word}
    {found : List Match}
    (hFound :
      Pattern.findAll [.literal "a"] word.toArray 2 =
        .ok found) :
    firstRule.Searched { maxMatchSteps := 2 } word := by
  intro branch hBranch _
  obtain rfl := List.mem_singleton.mp hBranch
  exact ⟨found, hFound⟩

theorem firstRule_withSteps :
    let options : EngineOptions := { maxMatchSteps := 2 }
    firstRule.run options ["a", "a"] = .ok firstOutcome ∧
      (∀ diagnostic ∈ firstOutcome.diagnostics,
        diagnostic.kind ≠ .matchBudget) ∧
      (∀ i < firstOutcome.passes,
        firstRule.Searched options
          ((firstRule.effect options)^[i] ["a", "a"])) ∧
      firstRule.Undisturbed options firstOutcome.word ∧
      ∀ more : Int, 2 ≤ more →
        firstRule.run (options.withSteps more) ["a", "a"] =
          .ok firstOutcome := by
  intro options
  have hRun :
      firstRule.run options ["a", "a"] = .ok firstOutcome := by
    decide +kernel
  have hReported :
      ∀ diagnostic ∈ firstOutcome.diagnostics,
        diagnostic.kind ≠ .matchBudget := by
    decide
  have hSearched :
      ∀ i < firstOutcome.passes,
        firstRule.Searched options
          ((firstRule.effect options)^[i] ["a", "a"]) := by
    intro i hi
    obtain rfl : i = 0 := Nat.lt_one_iff.mp hi
    exact firstRule_searched
      (by decide +kernel :
        Pattern.findAll [.literal "a"] #["a", "a"] 2 =
          .ok [⟨0, 1, []⟩, ⟨1, 2, []⟩])
  have hProbe :
      firstRule.Undisturbed options firstOutcome.word := by
    constructor
    · exact firstRule_searched
        (by decide +kernel :
          Pattern.findAll [.literal "a"] #["b", "a"] 2 =
            .ok [⟨1, 2, []⟩])
    · intro sweep hSweep
      have hNone :
          (firstRule.sweep options firstOutcome.word).toOption.map
              Sweep.problems =
            some [] := by
        decide +kernel
      rw [hSweep] at hNone
      rw [Option.some.inj hNone]
      exact fun _ hMem => absurd hMem List.not_mem_nil
  refine ⟨hRun, hReported, hSearched, hProbe, ?_⟩
  intro more hMore
  exact
    Rule.run_withSteps hRun hReported hSearched
      (fun _ _ => hProbe) hMore

/- The first pair of two symbols becomes another one. -/
def pairRule : Rule where
  branches :=
    [ { target := [.literal "a", .literal "b"]
        indices := some [0] } ]
  predicates := [{ replacements := [[.literal "x"]] }]
  source := "ab@1 > x"

/-
  A search for selected matches that runs out of steps
  leaves no trace: nothing is changed or reported, though
  with one step more the rule applies.
-/
theorem exhausted_search_unreported :
    pairRule.run { maxMatchSteps := 2 } ["a", "b"] =
        .ok
          { word := ["a", "b"]
            changes := []
            diagnostics := []
            passes := 1
            examined := 3 } ∧
      pairRule.run { maxMatchSteps := 3 } ["a", "b"] =
        .ok
          { word := ["x"]
            changes :=
              [ { rule := "ab@1 > x"
                  start := 0
                  stop := 2
                  before := ["a", "b"]
                  after := ["x"]
                  pass := 1 } ]
            diagnostics := []
            passes := 1
            examined := 2 } :=
  ⟨by decide +kernel, by decide +kernel⟩

/- A symbol becomes a pair, and a pair another symbol. -/
def pairingRule : Rule where
  branches :=
    [ { target := [.literal "a"] },
      { target := [.literal "b", .literal "b"] } ]
  predicates :=
    [ { replacements :=
          [ [.literal "b", .literal "b"],
            [.literal "c"] ] } ]
  flags := { persistent := true, maxPasses := some 1 }
  source := "a, bb > bb, c repeat:1"

/- Neither does the probe report a match that it abandons. -/
example :
    (pairingRule.run { maxMatchSteps := 2 } ["a"]).toOption.map
        (fun outcome =>
          (outcome.stopReason, outcome.diagnostics)) =
      some (.stable, []) ∧
    (pairingRule.run { maxMatchSteps := 3 } ["a"]).toOption.map
        RuleOutcome.stopReason =
      some .truncated := by
  decide +kernel

end Diachrony
