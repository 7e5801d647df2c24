import Diachrony.Proofs.Run.Ending

/-
  Cycle detection.

  Whether cycles are detected and how many passes may be
  made has no part in a single pass. So a run that comes
  back to an earlier word, with a change in each pass, would
  go round for ever: without detection it uses up whatever
  bound it is given. A run that settles meets no word twice,
  and detection leaves it as it is.

  Key definitions include:
    * `EngineOptions.detecting`
    * `EngineOptions.passing`
    * `Rule.flagged`
    * `Rule.boundedBy`
    * `Rule.Endless`

  Key theorems include:
    * `Rule.sweep_eq_of_judge`
    * `Rule.sweep_flagged`
    * `Rule.endless_of_recurs`
    * `Rule.Endless.runPasses_truncated`
    * `Rule.runPasses_detecting`
    * `Rule.detection_cuts_unsettled`
-/

namespace Diachrony

------------------------------------------------------------
-- Settings of a run
------------------------------------------------------------

namespace EngineOptions

/- The same options with or without detection of cycles. -/
def detecting
    (options : EngineOptions)
    (detect : Bool) : EngineOptions :=
  { options with detectCycles := detect }

/- The same options with another general pass bound. -/
def passing
    (options : EngineOptions)
    (maxPasses : Int) : EngineOptions :=
  { options with maxPasses := maxPasses }

variable {options : EngineOptions}

@[simp] theorem strict_detecting
    (detect : Bool) :
    (options.detecting detect).strict = options.strict :=
  rfl

@[simp] theorem detectCycles_detecting
    (detect : Bool) :
    (options.detecting detect).detectCycles = detect :=
  rfl

@[simp] theorem maxPasses_detecting
    (detect : Bool) :
    (options.detecting detect).maxPasses = options.maxPasses :=
  rfl

end EngineOptions

/- The same rule with other flags. -/
def Rule.flagged
    (rule : Rule)
    (flags : Flags) : Rule :=
  { rule with flags := flags }

/- The same rule with a pass bound of its own, or without. -/
def Rule.boundedBy
    (rule : Rule)
    (bound : Option Int) : Rule :=
  { rule with flags := { rule.flags with maxPasses := bound } }

------------------------------------------------------------
-- Scans that judge alike
------------------------------------------------------------

namespace Rule

section Alike

variable {rule other : Rule}
variable {options others : EngineOptions}

variable
  (hJudge : ∀ allowed cursor,
    other.judge others allowed cursor =
      rule.judge options allowed cursor)

include hJudge

theorem sweepRight_eq_of_judge
    (allowed : List (Option (List Nat)))
    (word : WordArray)
    (pos origin left : Nat) :
    other.sweepRight others allowed word pos origin left =
      rule.sweepRight options allowed word pos origin left := by
  induction left using Nat.strongRecOn
    generalizing word pos origin with
  | _ left ih =>
      rw [sweepRight, sweepRight, judgeRight, judgeRight,
        hJudge]
      split
      · rfl
      · rename_i verdict _
        cases left with
        | zero => rfl
        | succ next =>
            dsimp only
            rw [ih (next - (verdict.consumed - 1)) (by omega)]

theorem sweepLeft_eq_of_judge
    (allowed : List (Option (List Nat)))
    (word : WordArray)
    (limit pos : Nat) :
    other.sweepLeft others allowed word limit pos =
      rule.sweepLeft options allowed word limit pos := by
  induction pos generalizing word limit with
  | zero =>
      rw [sweepLeft, sweepLeft, judgeLeft, judgeLeft, hJudge]
  | succ next ih =>
      rw [sweepLeft, sweepLeft, judgeLeft, judgeLeft, hJudge]
      split
      · rfl
      · rw [ih]

/-
  Scans are the same if they judge alike, begin with the
  same starts and go in the same direction.
-/
theorem sweep_eq_of_judge
    (hStarts :
      other.allowedStarts others.maxMatchSteps =
        rule.allowedStarts options.maxMatchSteps)
    (hDirection :
      other.flags.rightToLeft = rule.flags.rightToLeft)
    (word : Word) :
    other.sweep others word = rule.sweep options word := by
  rw [sweep, sweep, hStarts, hDirection]
  simp only [sweepRight_eq_of_judge hJudge,
    sweepLeft_eq_of_judge hJudge]

end Alike

variable {rule : Rule}
variable {options : EngineOptions}

/- How a run is to end has no part in a pass. -/
theorem sweep_detecting
    (detect : Bool)
    (word : Word) :
    rule.sweep (options.detecting detect) word =
      rule.sweep options word := by
  apply sweep_eq_of_judge
  · intro _ _
    rfl
  · rfl
  · rfl

/- A site is judged by the patterns of a rule alone. -/
theorem judge_flagged
    (flags : Flags)
    (maxPasses : Int)
    (allowed : List (Option (List Nat)))
    (cursor : Cursor) :
    (rule.flagged flags).judge (options.passing maxPasses)
        allowed cursor =
      rule.judge options allowed cursor := by
  have hBuild : ∀ (site : Site) (word : WordArray),
      site.build (rule.flagged flags) word =
        site.build rule word := by
    intro site word
    apply Site.buildFrom_eq_of_mismatched
    rfl
  have hReplacing : ∀ (site : Site) (word : WordArray),
      site.replacing (options.passing maxPasses)
          (rule.flagged flags) word =
        site.replacing options rule word := by
    intro site word
    unfold Site.replacing
    rw [hBuild]
    rfl
  unfold judge
  simp only [hReplacing]
  rfl

/- Of the flags only the direction has a part in a pass. -/
theorem sweep_flagged
    (flags : Flags)
    (hDirection :
      flags.rightToLeft = rule.flags.rightToLeft)
    (maxPasses : Int)
    (word : Word) :
    (rule.flagged flags).sweep (options.passing maxPasses)
        word =
      rule.sweep options word := by
  apply sweep_eq_of_judge
  · exact judge_flagged flags maxPasses
  · rfl
  · exact hDirection

theorem pass_detecting
    (detect : Bool)
    (outcome : RuleOutcome) :
    rule.pass (options.detecting detect) outcome =
      rule.pass options outcome := by
  rw [pass, pass, sweep_detecting]

------------------------------------------------------------
-- Runs without an end
------------------------------------------------------------

/- Each pass of a run changes something, however many there are. -/
def Endless
    (rule : Rule)
    (options : EngineOptions)
    (word : Word) : Prop :=
  ∀ n, rule.Alters options ((rule.effect options)^[n] word)

variable {word : Word}
variable {outcome : RuleOutcome}

/-
  A run that comes back to an earlier word goes through the
  same words again and again. Its passes change something
  for ever if they do so up to there.
-/
theorem endless_of_recurs
    {k : Nat}
    (hAlters : ∀ i < k,
      rule.Alters options ((rule.effect options)^[i] word))
    (hRecurs : rule.Recurs options word k) :
    rule.Endless options word := by
  rcases hRecurs with ⟨j, hj, hSame⟩
  intro n
  induction n using Nat.strongRecOn with
  | _ n ih =>
      by_cases hEarly : n < k
      · exact hAlters n hEarly
      · have hBack :
            (rule.effect options)^[n] word =
              (rule.effect options)^[n - k + j] word := by
          calc (rule.effect options)^[n] word
              = (rule.effect options)^[n - k + k] word := by
                rw [Nat.sub_add_cancel (Nat.le_of_not_lt hEarly)]
            _ = (rule.effect options)^[n - k]
                  ((rule.effect options)^[k] word) :=
                Function.iterate_add_apply _ _ _ _
            _ = (rule.effect options)^[n - k + j] word := by
                rw [hSame, ← Function.iterate_add_apply]
        rw [hBack]
        exact ih (n - k + j) (by omega)

/- A change that is made is made by a scan. -/
theorem exists_sweep_of_alters
    (hAlters : rule.Alters options word) :
    ∃ sweep,
      rule.sweep options word = .ok sweep ∧
        sweep.changed = true := by
  cases hSweep : rule.sweep options word with
  | error fault =>
      exact absurd (by simp only [passEdits, hSweep]) hAlters
  | ok sweep =>
      exact ⟨sweep, rfl, (alters_iff_of_sweep hSweep).mp hAlters⟩

/-
  Without detection of cycles a run whose passes change
  something for ever ends because they are used up.
-/
theorem Endless.runPasses_truncated
    (hEndless : rule.Endless options word)
    (hDetect : options.detectCycles = false)
    (hMade : rule.HasMade options word outcome)
    {bound : Int}
    {left : Nat}
    (hLeft : (outcome.passes + 1 + left : Nat) = bound)
    (seen : List Form) :
    ∃ last,
      rule.runPasses options bound left seen outcome =
          .ok last ∧
        last.stopReason = .truncated ∧
        last.passes = bound := by
  induction left using Nat.strongRecOn
    generalizing seen outcome with
  | _ left ih =>
  rcases exists_sweep_of_alters (hEndless outcome.passes) with
    ⟨sweep, hSweep, hChanged⟩
  rw [← hMade.word_eq] at hSweep
  have hNext := hMade.next hSweep
  rw [runPasses, if_neg (passes_within hLeft),
    pass_of_sweep hSweep, hChanged]
  dsimp only
  rw [if_neg (by simp [hDetect])]
  cases left with
  | zero =>
      -- The probe changes something, as every pass does.
      rcases exists_sweep_of_alters
          (hEndless (outcome.addSweep rule sweep).passes) with
        ⟨probe, hProbe, hMoves⟩
      rw [← hNext.word_eq] at hProbe
      dsimp only
      rw [endAtBound, hProbe]
      dsimp only
      rw [if_pos hMoves]
      exact ⟨_, rfl, rfl, hLeft⟩
  | succ fewer =>
      apply ih fewer (Nat.lt_succ_self _) hNext
      rw [← hLeft]
      exact congrArg Nat.cast (by
        simp only [RuleOutcome.addSweep]
        omega)

------------------------------------------------------------
-- Detection
------------------------------------------------------------

/-
  With detection of cycles a run ends as without it, or else
  in a cycle.
-/
theorem runPasses_detecting
    {bound : Int}
    {left : Nat}
    {seen : List Form}
    {last : RuleOutcome}
    (hRun :
      rule.runPasses (options.detecting false) bound left seen
        outcome = .ok last) :
    ∃ other,
      rule.runPasses (options.detecting true) bound left seen
          outcome = .ok other ∧
        (other = last ∨ other.stopReason = .cycle) := by
  induction left using Nat.strongRecOn
    generalizing seen outcome with
  | _ left ih =>
  unfold runPasses at hRun ⊢
  rw [pass_detecting, EngineOptions.strict_detecting,
    EngineOptions.detectCycles_detecting] at hRun ⊢
  split at hRun
  · cases hRun
  rename_i hWithin
  rw [if_neg hWithin]
  cases hPass : rule.pass options outcome with
  | error fault =>
      rw [hPass] at hRun
      cases hRun
  | ok result =>
  rcases result with ⟨next, changed⟩
  rw [hPass] at hRun
  cases changed with
  | false => exact ⟨last, hRun, Or.inl rfl⟩
  | true =>
  dsimp only at hRun ⊢
  rw [if_neg (by simp)] at hRun
  split
  · exact ⟨_, rfl, Or.inr rfl⟩
  cases left with
  | zero =>
      dsimp only at hRun ⊢
      rw [endAtBound, sweep_detecting] at hRun ⊢
      exact ⟨last, hRun, Or.inl rfl⟩
  | succ fewer => exact ih fewer (Nat.lt_succ_self _) hRun

section Persistent

variable (hPersistent : rule.flags.persistent = true)

include hPersistent

theorem run_detecting
    (hRun :
      rule.run (options.detecting false) word = .ok outcome) :
    ∃ other,
      rule.run (options.detecting true) word = .ok other ∧
        (other = outcome ∨ other.stopReason = .cycle) := by
  rw [run_of_persistent hPersistent] at hRun ⊢
  exact runPasses_detecting hRun

/- A persistent run that comes to a result has ended. -/
theorem ended_of_run
    (hBound : 1 ≤ rule.flags.passBound options.maxPasses)
    (hRun : rule.run options word = .ok outcome) :
    rule.Ended options
      (rule.flags.passBound options.maxPasses) word
      outcome := by
  rw [run_of_persistent hPersistent] at hRun
  refine runPasses_ended (Underway.initial _ _ _) ?_ hRun
  change ((0 + 1 + _ : Nat) : Int) = _
  omega

/- A run that ends in a cycle would go on for ever. -/
theorem endless_of_cycle
    (hBound : 1 ≤ rule.flags.passBound options.maxPasses)
    (hRun : rule.run options word = .ok outcome)
    (hCycle : outcome.stopReason = .cycle) :
    rule.Endless options word := by
  have hEnded := ended_of_run hPersistent hBound hRun
  have hReturns := (hEnded.cycle_iff.mp hCycle).2
  exact endless_of_recurs hReturns.alters hReturns.recurs

/- Nothing but the bound ends an endless run. -/
theorem Endless.run_truncated
    (hEndless : rule.Endless options word)
    (hDetect : options.detectCycles = false)
    (hBound : 1 ≤ rule.flags.passBound options.maxPasses) :
    ∃ last,
      rule.run options word = .ok last ∧
        last.stopReason = .truncated ∧
        last.passes =
          rule.flags.passBound options.maxPasses := by
  rw [run_of_persistent hPersistent]
  apply hEndless.runPasses_truncated hDetect
    (HasMade.initial _ _ _)
  change ((0 + 1 + _ : Nat) : Int) = _
  omega

end Persistent

/- Whether a run is endless depends on its passes alone. -/
theorem endless_congr
    {other : Rule}
    {others : EngineOptions}
    (hSweep :
      ∀ word, other.sweep others word = rule.sweep options word)
    (hEndless : rule.Endless options word) :
    other.Endless others word := by
  have hEdits :
      other.passEdits others = rule.passEdits options := by
    funext word
    simp only [passEdits, hSweep]
  have hEffect :
      other.effect others = rule.effect options := by
    funext word
    simp only [effect, hSweep]
  intro n
  have hAlters := hEndless n
  unfold Alters at hAlters ⊢
  rw [hEdits, hEffect]
  exact hAlters

/-
  Detection of cycles only cuts runs that would not settle:
    * a run that settles without it has the same outcome
      with it;
    * a run that ends in a cycle after some passes would be
      cut short by any bound that allows as many passes.
-/
theorem detection_cuts_unsettled
    (hPersistent : rule.flags.persistent = true)
    (hBound : 1 ≤ rule.flags.passBound options.maxPasses)
    (word : Word) :
    (∀ outcome,
      rule.run (options.detecting false) word = .ok outcome →
      outcome.stopReason = .stable →
        rule.run (options.detecting true) word =
          .ok outcome) ∧
    ∀ outcome,
      rule.run (options.detecting true) word = .ok outcome →
      outcome.stopReason = .cycle →
        ∀ bound maxPasses,
          outcome.passes ≤
            (rule.boundedBy bound).flags.passBound maxPasses →
          ∃ last,
            (rule.boundedBy bound).run
                ((options.detecting false).passing maxPasses)
                word =
              .ok last ∧
            last.stopReason = .truncated ∧
            last.passes =
              (rule.boundedBy bound).flags.passBound
                maxPasses := by
  have hDetecting :
      1 ≤ rule.flags.passBound
        (options.detecting true).maxPasses :=
    hBound
  constructor
  · intro outcome hRun hStable
    rcases run_detecting hPersistent hRun with
      ⟨other, hOther, rfl | hCycle⟩
    · exact hOther
    · -- A run that ends in a cycle would not have settled.
      have hEndless : rule.Endless (options.detecting false) word :=
        endless_congr
          (fun word => by rw [sweep_detecting, sweep_detecting])
          (endless_of_cycle hPersistent hDetecting hOther hCycle)
      rcases hEndless.run_truncated hPersistent rfl hBound with
        ⟨last, hLast, hTruncated, _⟩
      rw [hRun] at hLast
      cases hLast
      rw [hStable] at hTruncated
      cases hTruncated
  · intro outcome hRun hCycle bound maxPasses hEnough
    have hPositive :=
      (ended_of_run hPersistent hDetecting hRun).passes_pos
    have hEndless :
        (rule.boundedBy bound).Endless
          ((options.detecting false).passing maxPasses) word := by
      apply endless_congr ?_
        (endless_of_cycle hPersistent hDetecting hRun hCycle)
      intro word
      -- A bound of its own is one of the flags of a rule.
      have hBounded :
          (rule.boundedBy bound).sweep
              ((options.detecting false).passing maxPasses)
              word =
            rule.sweep (options.detecting false) word :=
        sweep_flagged
          { rule.flags with maxPasses := bound } rfl maxPasses
          word
      rw [hBounded, sweep_detecting, sweep_detecting]
    have hAgain :
        (rule.boundedBy bound).flags.persistent = true :=
      hPersistent
    apply hEndless.run_truncated hAgain rfl
    change 1 ≤ (rule.boundedBy bound).flags.passBound maxPasses
    omega

end Rule

/- Turn one symbol into another, and that into a third. -/
def shiftingRule : Rule where
  branches :=
    [ { target := [.literal "a"] },
      { target := [.literal "b"] } ]
  predicates :=
    [ { replacements := [[.literal "b"], [.literal "c"]] } ]
  flags := { persistent := true }
  source := "a, b > b, c"

/- The rule settles when both symbols are gone. -/
def shiftedOutcome : RuleOutcome where
  word := ["c"]
  changes :=
    [ { rule := "a, b > b, c"
        start := 0
        stop := 1
        before := ["a"]
        after := ["b"]
        pass := 1 },
      { rule := "a, b > b, c"
        start := 0
        stop := 1
        before := ["b"]
        after := ["c"]
        pass := 2 } ]
  passes := 3
  stopReason := .stable
  examined := 6

/- One rule settles, and another one goes round for ever. -/
theorem shifting_and_turning_detected :
    let options : EngineOptions := {}
    (shiftingRule.flags.persistent = true ∧
      1 ≤ shiftingRule.flags.passBound options.maxPasses ∧
      shiftingRule.run (options.detecting false) ["a"] =
        .ok shiftedOutcome ∧
      shiftedOutcome.stopReason = .stable ∧
      shiftingRule.run (options.detecting true) ["a"] =
        .ok shiftedOutcome) ∧
    turningRule.flags.persistent = true ∧
      1 ≤ turningRule.flags.passBound options.maxPasses ∧
      turningRule.run (options.detecting true) ["a"] =
        .ok turnedOutcome ∧
      turnedOutcome.stopReason = .cycle ∧
      turnedOutcome.passes ≤
        (turningRule.boundedBy (some 3)).flags.passBound 7 ∧
      ∃ last,
        (turningRule.boundedBy (some 3)).run
            ((options.detecting false).passing 7) ["a"] =
          .ok last ∧
        last.stopReason = .truncated ∧
        last.passes =
          (turningRule.boundedBy (some 3)).flags.passBound 7 := by
  intro options
  have hShifting :
      1 ≤ shiftingRule.flags.passBound options.maxPasses := by
    decide
  have hTurning :
      1 ≤ turningRule.flags.passBound options.maxPasses := by
    decide
  have hShifted :
      shiftingRule.run (options.detecting false) ["a"] =
        .ok shiftedOutcome := by
    decide +kernel
  have hTurned :
      turningRule.run (options.detecting true) ["a"] =
        .ok turnedOutcome := by
    decide +kernel
  have hEnough :
      turnedOutcome.passes ≤
        (turningRule.boundedBy (some 3)).flags.passBound 7 := by
    decide
  have hSame :=
    (Rule.detection_cuts_unsettled rfl hShifting ["a"]).1 _
      hShifted rfl
  have hCut :=
    (Rule.detection_cuts_unsettled rfl hTurning ["a"]).2 _
      hTurned rfl (some 3) 7 hEnough
  exact
    ⟨⟨rfl, hShifting, hShifted, rfl, hSame⟩, rfl, hTurning,
      hTurned, rfl, hEnough, hCut⟩

end Diachrony
