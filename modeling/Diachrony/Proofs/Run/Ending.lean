import Diachrony.Proofs.Run.Passes
import Diachrony.Proofs.Scan.Totality

/-
  How a persistent run ends.

  While a run is under way each of its passes has changed
  something and no word has come back, so the run can tell
  which of its ends it has reached: the word has settled,
  an earlier word has come back, or the passes are used up.

  Key definitions include:
    * `Rule.Recurs`
    * `Rule.Returns`
    * `Rule.Settled`
    * `Rule.endMarks`
    * `Rule.Ended`
    * `Rule.Underway`

  Key theorems include:
    * `Rule.Underway.next`
    * `Rule.run_of_settled`
    * `Rule.exists_run`
    * `Rule.persistent_run_ended`
-/

namespace Diachrony

namespace Rule

------------------------------------------------------------
-- Ends
------------------------------------------------------------

/- The word after some passes is the word after fewer ones. -/
def Recurs
    (rule : Rule)
    (options : EngineOptions)
    (word : Word)
    (n : Nat) : Prop :=
  ∃ j < n,
    (rule.effect options)^[n] word =
      (rule.effect options)^[j] word

/-
  A number of passes that all change something lead back to
  an earlier word, for the first time.
-/
structure Returns
    (rule : Rule)
    (options : EngineOptions)
    (word : Word)
    (n : Nat) : Prop where
  alters :
    ∀ i < n,
      rule.Alters options ((rule.effect options)^[i] word)
  recurs : rule.Recurs options word n
  first : ∀ i < n, ¬rule.Recurs options word i

/- One more pass changes nothing. -/
def Settled
    (rule : Rule)
    (options : EngineOptions)
    (word : Word) : Prop :=
  ∃ sweep,
    rule.sweep options word = .ok sweep ∧ sweep.edits = []

/- What is reported about the end of a run. -/
def endMarks
    (rule : Rule)
    (bound : Int)
    (outcome : RuleOutcome) : List Diagnostic :=
  match outcome.stopReason with
  | .done => []
  | .stable => []
  | .cycle =>
      [rule.diagnostic
        (.ruleCycle outcome.word.text outcome.passes)]
  | .truncated => [rule.diagnostic (.rulePassBound bound)]

/-
  A persistent run that has ended: its word and its records
  are those of its passes, and how it ended is reported with
  the run and on each of its records.
-/
structure Ended
    (rule : Rule)
    (options : EngineOptions)
    (bound : Int)
    (word : Word)
    (outcome : RuleOutcome) : Prop where
  finished :
    rule.Finished options word (rule.endMarks bound outcome)
      outcome
  passes_pos : 0 < outcome.passes
  passes_le : outcome.passes ≤ bound
  ended : outcome.stopReason ≠ .done
  stable_iff :
    outcome.stopReason = .stable ↔
      rule.Settled options outcome.word
  cycle_iff :
    outcome.stopReason = .cycle ↔
      options.detectCycles = true ∧
        rule.Returns options word outcome.passes
  truncated_iff :
    outcome.stopReason = .truncated ↔
      outcome.passes = bound ∧
        outcome.stopReason ≠ .cycle ∧
        rule.Alters options outcome.word
  reported :
    (outcome.diagnostics.filter fun diagnostic =>
      diagnostic.kind.isUnsettled) =
        rule.endMarks bound outcome
  recorded :
    ∀ record ∈ outcome.changes,
      record.diagnostics = rule.endMarks bound outcome

variable {rule : Rule}
variable {options : EngineOptions}
variable {bound : Int}
variable {word : Word}
variable {outcome : RuleOutcome}

/- A word that a pass changes has not settled. -/
theorem Settled.not_alters
    (hSettled : rule.Settled options word) :
    ¬rule.Alters options word := by
  rcases hSettled with ⟨sweep, hSweep, hNone⟩
  rw [Alters, passEdits_of_sweep hSweep]
  exact not_not_intro hNone

theorem settled_of_sweep
    {sweep : Sweep}
    (hSweep : rule.sweep options word = .ok sweep)
    (hSame : sweep.changed = false) :
    rule.Settled options word :=
  ⟨sweep, hSweep, by simpa [Sweep.changed] using hSame⟩

/- A settled word is left as it is by the pass that shows it. -/
theorem word_of_settled
    {sweep : Sweep}
    (hSettled : rule.Settled options word)
    (hSweep : rule.sweep options word = .ok sweep) :
    sweep.word = word := by
  rw [← effect_of_sweep hSweep]
  exact effect_of_not_alters hSettled.not_alters

/- All records of a finished run carry its marks. -/
theorem Finished.diagnostics_eq
    {marks : List Diagnostic}
    (hFinished : rule.Finished options word marks outcome) :
    ∀ record ∈ outcome.changes,
      record.diagnostics = marks := by
  intro record hRecord
  rw [hFinished.changes_eq] at hRecord
  rcases List.mem_map.mp hRecord with ⟨bare, hBare, rfl⟩
  rcases List.mem_flatMap.mp hBare with ⟨i, _, hBare⟩
  rcases List.mem_map.mp hBare with ⟨edit, _, rfl⟩
  rfl

/- Passes say nothing about the end of their run. -/
theorem HasMade.nothing_reported
    (hMade : rule.HasMade options word outcome) :
    (outcome.diagnostics.filter fun diagnostic =>
      diagnostic.kind.isUnsettled) = [] := by
  rw [List.filter_eq_nil_iff]
  intro diagnostic hMem
  rw [hMade.settled diagnostic hMem]
  exact Bool.false_ne_true

/- What is said of the end is all that is reported of it. -/
theorem HasMade.only_reported
    (hMade : rule.HasMade options word outcome)
    {mark : Diagnostic}
    (hMark : mark.kind.isUnsettled = true) :
    ((outcome.diagnostics ++ [mark]).filter fun diagnostic =>
      diagnostic.kind.isUnsettled) = [mark] := by
  rw [List.filter_append, hMade.nothing_reported,
    List.nil_append, List.filter_singleton, hMark]
  rfl

------------------------------------------------------------
-- Each end
------------------------------------------------------------

section Ends

variable (hMade : rule.HasMade options word outcome)
variable (hPositive : 0 < outcome.passes)
variable (hBound : outcome.passes ≤ bound)

include hMade hPositive hBound

/- A run that ends because the word has settled. -/
theorem HasMade.ended_stable
    (hSettled : rule.Settled options outcome.word)
    (hNoReturn :
      ¬(options.detectCycles = true ∧
        rule.Returns options word outcome.passes)) :
    rule.Ended options bound word
      (outcome.finish .stable) where
  finished := hMade.finish .stable
  passes_pos := hPositive
  passes_le := hBound
  ended := StopReason.noConfusion
  stable_iff := iff_of_true rfl hSettled
  cycle_iff := iff_of_false StopReason.noConfusion hNoReturn
  truncated_iff :=
    iff_of_false StopReason.noConfusion fun hEnd =>
      hSettled.not_alters hEnd.2.2
  reported := hMade.nothing_reported
  recorded := (hMade.finish .stable).diagnostics_eq

/- A run that ends because an earlier word has come back. -/
theorem HasMade.ended_cycle
    (hDetect : options.detectCycles = true)
    (hReturns : rule.Returns options word outcome.passes) :
    rule.Ended options bound word
      (rule.endInCycle outcome) where
  finished := hMade.mark .cycle _
  passes_pos := hPositive
  passes_le := hBound
  ended := StopReason.noConfusion
  stable_iff := by
    -- The earlier word has been changed, and it is this one.
    refine iff_of_false StopReason.noConfusion ?_
    intro hSettled
    rcases hReturns.recurs with ⟨j, hj, hSame⟩
    apply hSettled.not_alters
    change rule.Alters options outcome.word
    rw [hMade.word_eq, hSame]
    exact hReturns.alters j hj
  cycle_iff := iff_of_true rfl ⟨hDetect, hReturns⟩
  truncated_iff :=
    iff_of_false StopReason.noConfusion fun hEnd =>
      hEnd.2.1 rfl
  reported := hMade.only_reported rfl
  recorded := (hMade.mark .cycle _).diagnostics_eq

/- A run that ends because its passes are used up. -/
theorem HasMade.ended_truncated
    (hLast : outcome.passes = bound)
    (hAlters : rule.Alters options outcome.word)
    (hNoReturn :
      ¬(options.detectCycles = true ∧
        rule.Returns options word outcome.passes)) :
    rule.Ended options bound word
      ((outcome.finish .truncated).mark
        (rule.diagnostic (.rulePassBound bound))) where
  finished := hMade.mark .truncated _
  passes_pos := hPositive
  passes_le := hBound
  ended := StopReason.noConfusion
  stable_iff :=
    iff_of_false StopReason.noConfusion fun hSettled =>
      hSettled.not_alters hAlters
  cycle_iff := iff_of_false StopReason.noConfusion hNoReturn
  truncated_iff :=
    iff_of_true rfl
      ⟨hLast, StopReason.noConfusion, hAlters⟩
  reported := hMade.only_reported rfl
  recorded := (hMade.mark .truncated _).diagnostics_eq

end Ends

------------------------------------------------------------
-- Runs under way
------------------------------------------------------------

/-
  A run under way, with the forms it has seen: each pass so
  far has changed something and, if cycles are detected, the
  words so far are known and all different.
-/
structure Underway
    (rule : Rule)
    (options : EngineOptions)
    (word : Word)
    (seen : List Form)
    (outcome : RuleOutcome) : Prop where
  made : rule.HasMade options word outcome
  alters :
    ∀ i < outcome.passes,
      rule.Alters options ((rule.effect options)^[i] word)
  seen_iff :
    ∀ other,
      Form.ofWord other ∈ seen ↔
        ∃ j < outcome.passes + 1,
          other = (rule.effect options)^[j] word
  fresh :
    options.detectCycles = true →
      ∀ i ≤ outcome.passes, ¬rule.Recurs options word i

theorem Underway.initial
    (rule : Rule)
    (options : EngineOptions)
    (word : Word) :
    rule.Underway options word [Form.ofWord word]
      { word := word } where
  made := HasMade.initial rule options word
  alters := by simp
  seen_iff := by
    intro other
    simp [Form.ofWord_inj]
  fresh := by
    intro _ i hi hRecurs
    rcases hRecurs with ⟨j, hj, _⟩
    exact absurd (Nat.lt_of_lt_of_le hj hi) (Nat.not_lt_zero j)

section Steps

variable {seen : List Form}
variable {sweep : Sweep}
variable (hUnderway : rule.Underway options word seen outcome)
variable (hSweep : rule.sweep options outcome.word = .ok sweep)

include hUnderway hSweep

/- A pass changes something, as all before it. -/
theorem Underway.alters_next
    (hChanged : sweep.changed = true) :
    ∀ i < outcome.passes + 1,
      rule.Alters options
        ((rule.effect options)^[i] word) := by
  intro i hi
  rcases Nat.lt_succ_iff_lt_or_eq.mp hi with hEarlier | rfl
  · exact hUnderway.alters i hEarlier
  · rw [← hUnderway.made.word_eq]
    exact (alters_iff_of_sweep hSweep).mpr hChanged

/- The next form has been seen if the word has come back. -/
theorem Underway.seen_next_iff :
    Form.ofWord (outcome.addSweep rule sweep).word ∈ seen ↔
      rule.Recurs options word (outcome.passes + 1) := by
  rw [hUnderway.seen_iff,
    (hUnderway.made.next hSweep).word_eq]
  rfl

/- A run goes on with a word that has not come back. -/
theorem Underway.next
    (hChanged : sweep.changed = true)
    (hNew :
      ¬(options.detectCycles = true ∧
        Form.ofWord (outcome.addSweep rule sweep).word ∈
          seen)) :
    rule.Underway options word
      (Form.ofWord (outcome.addSweep rule sweep).word :: seen)
      (outcome.addSweep rule sweep) where
  made := hUnderway.made.next hSweep
  alters := hUnderway.alters_next hSweep hChanged
  seen_iff := by
    intro other
    rw [List.mem_cons, Form.ofWord_inj, hUnderway.seen_iff,
      (hUnderway.made.next hSweep).word_eq]
    change _ ↔ ∃ j < outcome.passes + 1 + 1, _
    constructor
    · rintro (hLast | ⟨j, hj, hEarlier⟩)
      · exact ⟨_, Nat.lt_succ_self _, hLast⟩
      · exact ⟨j, Nat.lt_succ_of_lt hj, hEarlier⟩
    · rintro ⟨j, hj, hOther⟩
      rcases Nat.lt_succ_iff_lt_or_eq.mp hj with
        hEarlier | rfl
      · exact Or.inr ⟨j, hEarlier, hOther⟩
      · exact Or.inl hOther
  fresh := by
    intro hDetect i hi
    rcases Nat.le_succ_iff.mp hi with hEarlier | rfl
    · exact hUnderway.fresh hDetect i hEarlier
    · intro hRecurs
      exact hNew ⟨hDetect,
        (hUnderway.seen_next_iff hSweep).mpr hRecurs⟩

/- A pass that changes nothing shows that the word has settled. -/
theorem Underway.ended_stable
    (hBound : (outcome.addSweep rule sweep).passes ≤ bound)
    (hSame : sweep.changed = false) :
    rule.Ended options bound word
      ((outcome.addSweep rule sweep).finish .stable) := by
  have hSettled := settled_of_sweep hSweep hSame
  apply (hUnderway.made.next hSweep).ended_stable
    (Nat.succ_pos _) hBound
  · change rule.Settled options sweep.word
    rw [word_of_settled hSettled hSweep]
    exact hSettled
  · rintro ⟨_, hReturns⟩
    apply hSettled.not_alters
    rw [hUnderway.made.word_eq]
    exact hReturns.alters _ (Nat.lt_succ_self _)

/- A form that has been seen shows that the word came back. -/
theorem Underway.returns_next
    (hChanged : sweep.changed = true)
    (hDetect : options.detectCycles = true)
    (hSeen :
      Form.ofWord (outcome.addSweep rule sweep).word ∈
        seen) :
    rule.Returns options word
      (outcome.addSweep rule sweep).passes where
  alters := hUnderway.alters_next hSweep hChanged
  recurs := (hUnderway.seen_next_iff hSweep).mp hSeen
  first := fun i hi =>
    hUnderway.fresh hDetect i (Nat.le_of_lt_succ hi)

/- At the bound the probe decides. -/
theorem Underway.ended_atBound
    (hLast : (outcome.addSweep rule sweep).passes = bound)
    (hNew :
      ¬(options.detectCycles = true ∧
        Form.ofWord (outcome.addSweep rule sweep).word ∈
          seen))
    {last : RuleOutcome}
    (hEnd :
      rule.endAtBound options bound
          (outcome.addSweep rule sweep) =
        .ok last) :
    rule.Ended options bound word last := by
  have hNext := hUnderway.made.next hSweep
  have hBound : (outcome.addSweep rule sweep).passes ≤ bound :=
    Int.le_of_eq hLast
  have hNoReturn :
      ¬(options.detectCycles = true ∧
        rule.Returns options word
          (outcome.addSweep rule sweep).passes) := by
    rintro ⟨hDetect, hReturns⟩
    apply hNew
    exact ⟨hDetect,
      (hUnderway.seen_next_iff hSweep).mpr hReturns.recurs⟩
  rcases endAtBound_cases hEnd with
    ⟨probe, hProbe, ⟨hMoves, rfl⟩ | ⟨hSame, rfl⟩⟩
  · apply hNext.ended_truncated (Nat.succ_pos _) hBound hLast
      ?_ hNoReturn
    exact (alters_iff_of_sweep hProbe).mpr hMoves
  · exact hNext.ended_stable (Nat.succ_pos _) hBound
      (settled_of_sweep hProbe hSame) hNoReturn

end Steps

------------------------------------------------------------
-- Whole runs
------------------------------------------------------------

theorem runPasses_ended
    {left : Nat}
    {seen : List Form}
    {last : RuleOutcome}
    (hUnderway : rule.Underway options word seen outcome)
    (hLeft : (outcome.passes + 1 + left : Nat) = bound)
    (hRun :
      rule.runPasses options bound left seen outcome =
        .ok last) :
    rule.Ended options bound word last := by
  induction left using Nat.strongRecOn
    generalizing seen outcome with
  | _ left ih =>
  rcases runPasses_cases hRun with
    ⟨next, changed, hPass, hEnd⟩
  rcases pass_cases hPass with ⟨sweep, hSweep, rfl, rfl⟩
  have hBound :
      (outcome.addSweep rule sweep).passes ≤ bound := by
    rw [← hLeft]
    exact Int.ofNat_le.mpr (Nat.le_add_right _ _)
  rcases hEnd with ⟨hSame, rfl⟩ |
    ⟨hChanged, hDetect, hSeen, rfl⟩ |
    ⟨hChanged, hNew, rfl, hEnd⟩ |
    ⟨hChanged, hNew, fewer, rfl, hMore⟩
  · exact hUnderway.ended_stable hSweep hBound hSame
  · apply (hUnderway.made.next hSweep).ended_cycle
      (Nat.succ_pos _) hBound hDetect
    exact hUnderway.returns_next hSweep hChanged hDetect hSeen
  · exact hUnderway.ended_atBound hSweep hLeft hNew hEnd
  · apply ih fewer (Nat.lt_succ_self _)
      (hUnderway.next hSweep hChanged hNew) ?_ hMore
    rw [← hLeft]
    exact congrArg Nat.cast (by
      simp only [RuleOutcome.addSweep]
      omega)

theorem exists_endAtBound
    (hMatchable : rule.matchable = true)
    (outcome : RuleOutcome) :
    ∃ last,
      rule.endAtBound options bound outcome = .ok last := by
  rcases Rule.exists_sweep hMatchable outcome.word with
    ⟨probe, hProbe⟩
  rw [endAtBound, hProbe]
  dsimp only
  split
  · exact ⟨_, rfl⟩
  · exact ⟨_, rfl⟩

/- A pass is counted only if the bound allows it. -/
theorem passes_within
    {left : Nat}
    (hLeft : (outcome.passes + 1 + left : Nat) = bound) :
    ¬(options.strict = true ∧
      bound < (outcome.passes + 1 : Nat)) := by
  rintro ⟨_, hBeyond⟩
  omega

theorem exists_runPasses
    (hMatchable : rule.matchable = true)
    {left : Nat}
    (hLeft :
      options.strict = true →
        (outcome.passes + 1 + left : Nat) ≤ bound)
    (seen : List Form) :
    ∃ last,
      rule.runPasses options bound left seen outcome =
        .ok last := by
  induction left using Nat.strongRecOn
    generalizing seen outcome with
  | _ left ih =>
  rcases Rule.exists_sweep hMatchable outcome.word with
    ⟨sweep, hSweep⟩
  have hWithin :
      ¬(options.strict = true ∧
        bound < (outcome.passes + 1 : Nat)) := by
    rintro ⟨hStrict, hBeyond⟩
    have hAll := hLeft hStrict
    omega
  rw [runPasses, if_neg hWithin, pass_of_sweep hSweep]
  cases sweep.changed with
  | false => exact ⟨_, rfl⟩
  | true =>
      dsimp only
      split
      · exact ⟨_, rfl⟩
      cases left with
      | zero => exact exists_endAtBound hMatchable _
      | succ fewer =>
          apply ih fewer (Nat.lt_succ_self _)
          intro hStrict
          have hWithin := hLeft hStrict
          simp only [RuleOutcome.addSweep]
          omega

section Persistent

variable (hPersistent : rule.flags.persistent = true)
variable (hBound : 1 ≤ rule.flags.passBound options.maxPasses)

include hPersistent

theorem run_of_persistent :
    rule.run options word =
      rule.runPasses options
        (rule.flags.passBound options.maxPasses)
        ((rule.flags.passBound options.maxPasses).toNat - 1)
        [Form.ofWord word] { word := word } := by
  rw [run, if_pos hPersistent]

include hBound

/- A rule that can be matched can be run. -/
theorem exists_run
    (hMatchable : rule.matchable = true)
    (word : Word) :
    ∃ outcome, rule.run options word = .ok outcome := by
  rw [run_of_persistent hPersistent]
  apply exists_runPasses hMatchable
  intro _
  change ((0 + 1 + _ : Nat) : Int) ≤ _
  omega

/- To run a rule on a settled word changes nothing. -/
theorem run_of_settled
    (hSettled : rule.Settled options word) :
    ∃ outcome,
      rule.run options word = .ok outcome ∧
        outcome.word = word ∧ outcome.changes = [] := by
  rcases hSettled with ⟨sweep, hSweep, hNone⟩
  have hWord :=
    word_of_settled ⟨sweep, hSweep, hNone⟩ hSweep
  have hSame : sweep.changed = false := by
    rw [Sweep.changed, hNone]
    rfl
  have hStrict :
      ¬(options.strict = true ∧
        rule.flags.passBound options.maxPasses <
          (0 + 1 : Nat)) := by
    omega
  refine
    ⟨(RuleOutcome.addSweep { word := word } rule sweep).finish
      .stable, ?_, hWord, ?_⟩
  · rw [run_of_persistent hPersistent, runPasses,
      if_neg hStrict, pass_of_sweep hSweep, hSame]
  · simp [RuleOutcome.addSweep, RuleOutcome.finish, hNone]

/-
  A persistent run comes to an end and reports exactly how:
  the word has settled, an earlier word has come back, or
  the passes are used up. A word that has settled is not
  changed by another run.
-/
theorem persistent_run_ended
    (word : Word) :
    (rule.matchable = true →
      ∃ outcome, rule.run options word = .ok outcome) ∧
    ∀ outcome,
      rule.run options word = .ok outcome →
        rule.Ended options
          (rule.flags.passBound options.maxPasses) word
          outcome ∧
        (outcome.stopReason = .stable →
          ∃ next,
            rule.run options outcome.word = .ok next ∧
              next.word = outcome.word ∧
              next.changes = []) := by
  constructor
  · intro hMatchable
    exact exists_run hPersistent hBound hMatchable word
  · intro outcome hRun
    rw [run_of_persistent hPersistent] at hRun
    have hEnded :
        rule.Ended options
          (rule.flags.passBound options.maxPasses) word
          outcome := by
      refine runPasses_ended (Underway.initial _ _ _) ?_ hRun
      change ((0 + 1 + _ : Nat) : Int) = _
      omega
    refine ⟨hEnded, fun hStable => ?_⟩
    exact run_of_settled hPersistent hBound
      (hEnded.stable_iff.mp hStable)

end Persistent

end Rule

/- Turn each of two symbols into the other one. -/
def turningRule : Rule where
  branches :=
    [ { target := [.literal "a"] },
      { target := [.literal "b"] } ]
  predicates :=
    [ { replacements := [[.literal "b"], [.literal "a"]] } ]
  flags := { persistent := true }
  source := "a, b > b, a"

/- The rule leads a word back to where it was. -/
def turnedOutcome : RuleOutcome :=
  let mark : Diagnostic :=
    { problem := .ruleCycle "a" 2
      line := some 0
      rule := some "a, b > b, a" }
  { word := ["a"]
    changes :=
      [ { rule := "a, b > b, a"
          start := 0
          stop := 1
          before := ["a"]
          after := ["b"]
          pass := 1
          diagnostics := [mark] },
        { rule := "a, b > b, a"
          start := 0
          stop := 1
          before := ["b"]
          after := ["a"]
          pass := 2
          diagnostics := [mark] } ]
    diagnostics := [mark]
    passes := 2
    stopReason := .cycle
    examined := 4 }

theorem turningRule_ended :
    turningRule.flags.persistent = true ∧
      1 ≤ turningRule.flags.passBound 1000 ∧
      turningRule.matchable = true ∧
      turningRule.run {} ["a"] = .ok turnedOutcome ∧
      turningRule.Ended {} 1000 ["a"] turnedOutcome := by
  have hPersistent : turningRule.flags.persistent = true := rfl
  have hBound :
      1 ≤ turningRule.flags.passBound
        ({} : EngineOptions).maxPasses := by
    decide
  have hRun : turningRule.run {} ["a"] = .ok turnedOutcome := by
    decide +kernel
  have hEnded :=
    (Rule.persistent_run_ended hPersistent hBound ["a"]).2 _
      hRun
  exact
    ⟨hPersistent, hBound, by decide +kernel, hRun, hEnded.1⟩

end Diachrony
