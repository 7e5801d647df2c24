import Diachrony.Proofs.Run.Budget

/-
  Two runs in lockstep.

  A run goes on as the word and the fact that a pass has
  changed something have it go on. So rules whose scans
  leave the same word, and change something in the same
  words, make the same number of passes over the same words
  and end for the same reason. It is enough to know this for
  the words that both of them scan.

  Key definitions include:
    * `Rule.Scans`
    * `Rule.ScansAlike`
    * `Rule.InStep`
    * `RuleOutcome.recordsOf`

  Key theorems include:
    * `Rule.runPasses_inStep`
    * `Rule.run_inStep`
    * `Rule.InStep.word_eq`
    * `Rule.InStep.edits_eq`
    * `Rule.InStep.length_recordsOf`
-/

namespace Diachrony

/- The records of one pass of a run. -/
def RuleOutcome.recordsOf
    (outcome : RuleOutcome)
    (pass : Nat) : List Record :=
  outcome.changes.filter fun record => record.pass = pass

namespace Rule

------------------------------------------------------------
-- Scans of a run
------------------------------------------------------------

/-
  The words that a run scans: the word of each of its passes
  and, at the pass bound, the word that the probe is made
  on.
-/
def Scans
    (rule : Rule)
    (options : EngineOptions)
    (word : Word)
    (outcome : RuleOutcome)
    (scanned : Word) : Prop :=
  (∃ i < outcome.passes,
    scanned = (rule.effect options)^[i] word) ∨
  (rule.flags.persistent = true ∧
    rule.flags.passBound options.maxPasses ≤ outcome.passes ∧
    scanned = outcome.word)

/-
  The words that a run of a number of passes at most scans,
  whether or not the rule is persistent.
-/
def ScansWithin
    (rule : Rule)
    (options : EngineOptions)
    (bound : Int)
    (word : Word)
    (outcome : RuleOutcome)
    (scanned : Word) : Prop :=
  (∃ i < outcome.passes,
    scanned = (rule.effect options)^[i] word) ∨
  (bound ≤ outcome.passes ∧ scanned = outcome.word)

/-
  What one rule makes of a word another one does too: it
  leaves the same word, and changes something if the other
  does.
-/
def ScansAlike
    (one other : Rule)
    (options : EngineOptions)
    (scanned : Word) : Prop :=
  ∀ sweep, one.sweep options scanned = .ok sweep →
    ∃ twin,
      other.sweep options scanned = .ok twin ∧
        twin.word = sweep.word ∧
        twin.changed = sweep.changed

/-
  Outcomes at the same point of the runs of two rules. The
  words of the passes are the same, and in each of them the
  scans of both came to a result.
-/
structure InStep
    (one other : Rule)
    (options : EngineOptions)
    (word : Word)
    (first second : RuleOutcome) : Prop where
  passes_eq : second.passes = first.passes
  stopReason_eq : second.stopReason = first.stopReason
  path :
    ∀ i ≤ first.passes,
      (other.effect options)^[i] word =
        (one.effect options)^[i] word
  scanned :
    ∀ i < first.passes,
      ∃ sweep twin,
        one.sweep options ((one.effect options)^[i] word) =
            .ok sweep ∧
          other.sweep options ((one.effect options)^[i] word) =
            .ok twin

variable {one other : Rule}
variable {options : EngineOptions}
variable {word : Word}
variable {first second last : RuleOutcome}
variable {bound : Int}

------------------------------------------------------------
-- Single passes
------------------------------------------------------------

namespace InStep

theorem initial
    (one other : Rule)
    (options : EngineOptions)
    (word : Word) :
    one.InStep other options word { word := word }
      { word := word } where
  passes_eq := rfl
  stopReason_eq := rfl
  path := by
    intro i hi
    obtain rfl := Nat.le_zero.mp hi
    rfl
  scanned := by
    intro i hi
    cases hi

/- Under way, the words are the same. -/
theorem word_eq_of_made
    (hSame : one.InStep other options word first second)
    (hOne : one.HasMade options word first)
    (hOther : other.HasMade options word second) :
    second.word = first.word := by
  rw [hOther.word_eq, hOne.word_eq, hSame.passes_eq]
  exact hSame.path _ (Nat.le_refl _)

theorem addSweep
    (hSame : one.InStep other options word first second)
    (hOne : one.HasMade options word first)
    (hOther : other.HasMade options word second)
    {sweep twin : Sweep}
    (hSweep : one.sweep options first.word = .ok sweep)
    (hTwin : other.sweep options second.word = .ok twin)
    (hWord : twin.word = sweep.word) :
    one.InStep other options word (first.addSweep one sweep)
      (second.addSweep other twin) where
  passes_eq := congrArg (· + 1) hSame.passes_eq
  stopReason_eq := hSame.stopReason_eq
  path := by
    intro i hi
    rcases Nat.le_succ_iff.mp hi with hEarlier | rfl
    · exact hSame.path i hEarlier
    · have hFirst := (hOne.next hSweep).word_eq
      have hSecond := (hOther.next hTwin).word_eq
      simp only [RuleOutcome.addSweep] at hFirst hSecond
      rw [hSame.passes_eq] at hSecond
      exact (hSecond.symm.trans hWord).trans hFirst
  scanned := by
    intro i hi
    rcases Nat.lt_succ_iff_lt_or_eq.mp hi with hEarlier | rfl
    · exact hSame.scanned i hEarlier
    · rw [hSame.word_eq_of_made hOne hOther] at hTwin
      rw [← hOne.word_eq]
      exact ⟨sweep, twin, hSweep, hTwin⟩

theorem finish
    (hSame : one.InStep other options word first second)
    (reason : StopReason) :
    one.InStep other options word (first.finish reason)
      (second.finish reason) where
  passes_eq := hSame.passes_eq
  stopReason_eq := rfl
  path := hSame.path
  scanned := hSame.scanned

theorem mark
    (hSame : one.InStep other options word first second)
    (diagnostic remark : Diagnostic) :
    one.InStep other options word (first.mark diagnostic)
      (second.mark remark) where
  passes_eq := hSame.passes_eq
  stopReason_eq := hSame.stopReason_eq
  path := hSame.path
  scanned := hSame.scanned

end InStep

------------------------------------------------------------
-- Whole runs
------------------------------------------------------------

theorem endAtBound_inStep
    (hSame : one.InStep other options word first second)
    (hWord : second.word = first.word)
    (hEnd : one.endAtBound options bound first = .ok last)
    (hAlike : one.ScansAlike other options first.word) :
    ∃ final,
      other.endAtBound options bound second = .ok final ∧
        one.InStep other options word last final := by
  rcases endAtBound_cases hEnd with
    ⟨probe, hProbe, hLast⟩
  rcases hAlike probe hProbe with ⟨twin, hTwin, -, hChanged⟩
  rw [endAtBound, hWord, hTwin]
  dsimp only
  rw [hChanged]
  rcases hLast with ⟨hMoves, rfl⟩ | ⟨hStays, rfl⟩
  · rw [if_pos hMoves]
    exact ⟨_, rfl, (hSame.finish .truncated).mark _ _⟩
  · rw [hStays]
    exact ⟨_, rfl, hSame.finish .stable⟩

/-
  Runs that are in step stay in step. The other run is only
  known to scan a word where it comes to a result.
-/
theorem runPasses_inStep
    (hSame : one.InStep other options word first second)
    (hOne : one.HasMade options word first)
    (hOther : other.HasMade options word second)
    {left : Nat}
    {seen : List Form}
    (hLeft : bound ≤ (first.passes + 1 + left : Nat))
    (hRun :
      one.runPasses options bound left seen first = .ok last)
    (hAlike :
      ∀ scanned,
        one.ScansWithin options bound word last scanned →
        (∀ final,
          other.runPasses options bound left seen second =
              .ok final →
            other.ScansWithin options bound word final
              scanned) →
          one.ScansAlike other options scanned) :
    ∃ final,
      other.runPasses options bound left seen second =
          .ok final ∧
        one.InStep other options word last final := by
  induction left using Nat.strongRecOn
    generalizing seen first second with
  | _ left ih =>
  have hWord := hSame.word_eq_of_made hOne hOther
  have hWithin := runPasses_within hRun
  rcases runPasses_extends hRun with
    ⟨sweep, hSweep, hExtends⟩
  obtain ⟨twin, hTwin, hLeaves, hChanged⟩ :
      ∃ twin,
        other.sweep options second.word = .ok twin ∧
          twin.word = sweep.word ∧
          twin.changed = sweep.changed := by
    rw [hWord]
    refine hAlike first.word ?_ ?_ sweep hSweep
    · exact Or.inl
        ⟨first.passes, hExtends.passes_le, hOne.word_eq⟩
    · intro final hFinal
      rcases runPasses_extends hFinal with
        ⟨_, _, hExtends'⟩
      refine Or.inl
        ⟨second.passes, hExtends'.passes_le, ?_⟩
      rw [← hWord, hOther.word_eq]
  have hNext :=
    hSame.addSweep hOne hOther hSweep hTwin hLeaves
  rw [← hSame.passes_eq] at hWithin
  rw [runPasses, if_neg hWithin, pass_of_sweep hTwin]
    at hAlike ⊢
  rw [hSame.passes_eq] at hWithin
  rw [runPasses, if_neg hWithin, pass_of_sweep hSweep] at hRun
  rw [hChanged] at hAlike ⊢
  cases hMoves : sweep.changed with
  | false =>
      rw [hMoves] at hRun
      cases hRun
      exact ⟨_, rfl, hNext.finish .stable⟩
  | true =>
  rw [hMoves] at hRun hAlike
  have hForm :
      (second.addSweep other twin).word =
        (first.addSweep one sweep).word :=
    hLeaves
  dsimp only at hRun hAlike ⊢
  rw [hForm] at hAlike ⊢
  split at hRun
  · rename_i hCycle
    cases hRun
    rw [if_pos hCycle]
    exact ⟨_, rfl, (hNext.finish .cycle).mark _ _⟩
  · rename_i hNew
    rw [if_neg hNew] at hAlike ⊢
    cases left with
    | zero =>
        have hProbed :
            bound ≤ (first.addSweep one sweep).passes :=
          hLeft
        apply endAtBound_inStep hNext hForm hRun
        apply hAlike
        · refine Or.inr ⟨?_, ?_⟩
          · exact Int.le_trans hProbed
              (Int.ofNat_le.mpr (endAtBound_extends hRun).passes_le)
          · exact (endAtBound_addsOnly hRun).word_eq.symm
        · intro final hFinal
          rw [← hNext.passes_eq] at hProbed
          refine Or.inr ⟨?_, ?_⟩
          · exact Int.le_trans hProbed
              (Int.ofNat_le.mpr
                (endAtBound_extends hFinal).passes_le)
          · rw [(endAtBound_addsOnly hFinal).word_eq]
            exact hForm.symm
    | succ fewer =>
        apply ih fewer (Nat.lt_succ_self _) hNext
          (hOne.next hSweep) (hOther.next hTwin) ?_ hRun hAlike
        refine Int.le_trans hLeft (Int.ofNat_le.mpr ?_)
        simp only [RuleOutcome.addSweep]
        omega

/-
  If two rules have the same bound and do the same to each
  word that both of them scan, their runs are in step.
-/
theorem run_inStep
    (hPersistent :
      other.flags.persistent = one.flags.persistent)
    (hBound :
      other.flags.passBound options.maxPasses =
        one.flags.passBound options.maxPasses)
    (hRun : one.run options word = .ok first)
    (hAlike :
      ∀ scanned,
        one.Scans options word first scanned →
        (∀ second,
          other.run options word = .ok second →
            other.Scans options word second scanned) →
          one.ScansAlike other options scanned) :
    ∃ second,
      other.run options word = .ok second ∧
        one.InStep other options word first second := by
  have hStart := InStep.initial one other options word
  have hOne := HasMade.initial one options word
  have hOther := HasMade.initial other options word
  unfold Scans at hAlike
  unfold run at hRun hAlike ⊢
  rw [hPersistent, hBound] at hAlike ⊢
  split at hRun
  · rename_i hRepeats
    rw [if_pos hRepeats] at hAlike ⊢
    simp only [hRepeats, true_and] at hAlike
    apply runPasses_inStep hStart hOne hOther ?_ hRun hAlike
    change _ ≤ ((0 + 1 + _ : Nat) : Int)
    omega
  · rename_i hOnce
    rw [if_neg hOnce] at hAlike ⊢
    split at hRun
    · cases hRun
    · rename_i hPass
      cases hRun
      rcases pass_cases hPass with ⟨sweep, hSweep, rfl, rfl⟩
      obtain ⟨twin, hTwin, hLeaves, -⟩ :
          ∃ twin,
            other.sweep options word = .ok twin ∧
              twin.word = sweep.word ∧
              twin.changed = sweep.changed := by
        apply hAlike word
        · exact Or.inl ⟨0, Nat.succ_pos _, rfl⟩
        · intro second hSecond
          split at hSecond
          · cases hSecond
          · rename_i hPass'
            cases hSecond
            rcases pass_cases hPass' with ⟨_, _, rfl, _⟩
            exact Or.inl ⟨0, Nat.succ_pos _, rfl⟩
        · exact hSweep
      rw [pass_of_sweep hTwin]
      exact ⟨_, rfl,
        hStart.addSweep hOne hOther hSweep hTwin hLeaves⟩

------------------------------------------------------------
-- What runs in step leave
------------------------------------------------------------

section Records

variable {rule : Rule}
variable {outcome : RuleOutcome}
variable {marks : List Diagnostic}

/- The changes of a run are those of its passes. -/
theorem Finished.edits_eq
    (hFinished :
      rule.Finished options word marks outcome) :
    outcome.edits =
      (List.range outcome.passes).flatMap fun i =>
        rule.passEdits options
          ((rule.effect options)^[i] word) := by
  have hEdit :
      Record.edit ∘ Record.markedWith marks = Record.edit :=
    rfl
  rw [RuleOutcome.edits, hFinished.changes_eq, List.map_map,
    hEdit, records, List.map_flatMap]
  simp only [List.map_map, Function.comp_def,
    Record.edit_ofEdit, List.map_id']

/- The records of a pass are those of its changes. -/
theorem Finished.recordsOf_eq
    (hFinished :
      rule.Finished options word marks outcome)
    (pass : Nat) :
    outcome.recordsOf pass =
      (List.range outcome.passes).flatMap fun i =>
        if i + 1 = pass then
          (rule.passEdits options
            ((rule.effect options)^[i] word)).map fun edit =>
              (Record.ofEdit rule pass edit).markedWith marks
        else
          [] := by
  rw [RuleOutcome.recordsOf, hFinished.changes_eq, records,
    List.map_flatMap, List.filter_flatMap]
  congr 1
  funext i
  rw [List.map_map, List.filter_map]
  split
  · rename_i hPass
    rw [List.filter_eq_self.mpr]
    · rw [hPass]
      rfl
    · intro edit _
      exact decide_eq_true hPass
  · rename_i hOther
    rw [List.filter_eq_nil_iff.mpr]
    · rfl
    · intro edit _ hPass
      exact hOther (of_decide_eq_true hPass)

end Records

namespace InStep

theorem word_eq
    (hSame : one.InStep other options word first second)
    (hOne : one.run options word = .ok first)
    (hOther : other.run options word = .ok second) :
    second.word = first.word := by
  rcases run_finished hOne with ⟨_, hFirst⟩
  rcases run_finished hOther with ⟨_, hSecond⟩
  rw [hFirst.word_eq, hSecond.word_eq, hSame.passes_eq]
  exact hSame.path _ (Nat.le_refl _)

/- If each pass makes the same changes, so do the runs. -/
theorem edits_eq
    (hSame : one.InStep other options word first second)
    (hOne : one.run options word = .ok first)
    (hOther : other.run options word = .ok second)
    (hEdits :
      ∀ i < first.passes, ∀ sweep twin,
        one.sweep options ((one.effect options)^[i] word) =
          .ok sweep →
        other.sweep options ((one.effect options)^[i] word) =
          .ok twin →
          twin.edits = sweep.edits) :
    second.edits = first.edits := by
  rcases run_finished hOne with ⟨_, hFirst⟩
  rcases run_finished hOther with ⟨_, hSecond⟩
  rw [hFirst.edits_eq, hSecond.edits_eq, hSame.passes_eq]
  apply List.flatMap_congr
  intro i hi
  have hPass := List.mem_range.mp hi
  rcases hSame.scanned i hPass with ⟨sweep, twin, hSweep, hTwin⟩
  rw [hSame.path i (Nat.le_of_lt hPass),
    passEdits_of_sweep hTwin, passEdits_of_sweep hSweep]
  exact hEdits i hPass sweep twin hSweep hTwin

/- If each pass makes as many changes, it has as many records. -/
theorem length_recordsOf
    (hSame : one.InStep other options word first second)
    (hOne : one.run options word = .ok first)
    (hOther : other.run options word = .ok second)
    (hEdits :
      ∀ i < first.passes, ∀ sweep twin,
        one.sweep options ((one.effect options)^[i] word) =
          .ok sweep →
        other.sweep options ((one.effect options)^[i] word) =
          .ok twin →
          twin.edits.length = sweep.edits.length)
    (pass : Nat) :
    (second.recordsOf pass).length =
      (first.recordsOf pass).length := by
  rcases run_finished hOne with ⟨_, hFirst⟩
  rcases run_finished hOther with ⟨_, hSecond⟩
  rw [hFirst.recordsOf_eq, hSecond.recordsOf_eq,
    hSame.passes_eq, List.length_flatMap, List.length_flatMap]
  congr 1
  apply List.map_congr_left
  intro i hi
  have hPass := List.mem_range.mp hi
  rcases hSame.scanned i hPass with ⟨sweep, twin, hSweep, hTwin⟩
  rw [hSame.path i (Nat.le_of_lt hPass),
    passEdits_of_sweep hTwin, passEdits_of_sweep hSweep]
  split
  · rw [List.length_map, List.length_map]
    exact hEdits i hPass sweep twin hSweep hTwin
  · rfl

end InStep

end Rule

end Diachrony
