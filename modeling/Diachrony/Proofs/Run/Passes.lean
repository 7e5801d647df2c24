import Diachrony.Proofs.Derivation.Chain
import Diachrony.Proofs.Scan.Judgement
import Mathlib.Logic.Function.Iterate

/-
  The passes of a run.

  A pass depends on the word alone: neither on its number,
  nor on what has been reported. So the words of a run are
  the iterates of the effect of one pass, and its records
  are those of the passes, one after another.

  Key definitions include:
    * `Rule.effect`
    * `Rule.Alters`
    * `Rule.records`
    * `Rule.HasMade`
    * `Rule.Finished`

  Key theorems include:
    * `Rule.effect_of_not_alters`
    * `Rule.HasMade.next`
    * `Rule.run_finished`
    * `Rule.exists_pass_of_mem_changes`
-/

namespace Diachrony

------------------------------------------------------------
-- The effect of a pass
------------------------------------------------------------

namespace Rule

/-
  The word that a pass leaves. A pass that comes to no
  result leaves the word as it is.
-/
def effect
    (rule : Rule)
    (options : EngineOptions)
    (word : Word) : Word :=
  match rule.sweep options word with
  | .ok sweep => sweep.word
  | .error _ => word

/- The changes that a pass makes. -/
def passEdits
    (rule : Rule)
    (options : EngineOptions)
    (word : Word) : List Edit :=
  match rule.sweep options word with
  | .ok sweep => sweep.edits
  | .error _ => []

/-
  A pass changes something if it makes any change. Several
  changes may together leave the word as it was.
-/
def Alters
    (rule : Rule)
    (options : EngineOptions)
    (word : Word) : Prop :=
  rule.passEdits options word ≠ []

/- The records of a number of passes, in order. -/
def records
    (rule : Rule)
    (options : EngineOptions)
    (word : Word)
    (n : Nat) : List Record :=
  (List.range n).flatMap fun i =>
    (rule.passEdits options
      ((rule.effect options)^[i] word)).map
        (Record.ofEdit rule (i + 1))

variable {rule : Rule}
variable {options : EngineOptions}
variable {word : Word}
variable {sweep : Sweep}

theorem effect_of_sweep
    (hSweep : rule.sweep options word = .ok sweep) :
    rule.effect options word = sweep.word := by
  simp only [effect, hSweep]

theorem passEdits_of_sweep
    (hSweep : rule.sweep options word = .ok sweep) :
    rule.passEdits options word = sweep.edits := by
  simp only [passEdits, hSweep]

theorem alters_iff_of_sweep
    (hSweep : rule.sweep options word = .ok sweep) :
    rule.Alters options word ↔ sweep.changed = true := by
  rw [Alters, passEdits_of_sweep hSweep, Sweep.changed]
  simp

/- A pass that makes no change leaves the word as it is. -/
theorem effect_of_not_alters
    (hSame : ¬rule.Alters options word) :
    rule.effect options word = word := by
  cases hSweep : rule.sweep options word with
  | error fault => simp only [effect, hSweep]
  | ok sweep =>
      have hNone : sweep.edits = [] := by
        rw [← passEdits_of_sweep hSweep]
        exact Classical.not_not.mp hSame
      have hLeads := sweep_leads hSweep
      rw [hNone] at hLeads
      rw [effect_of_sweep hSweep]
      exact hLeads.eq_of_nil

theorem records_succ
    (n : Nat) :
    rule.records options word (n + 1) =
      rule.records options word n ++
        (rule.passEdits options
          ((rule.effect options)^[n] word)).map
            (Record.ofEdit rule (n + 1)) := by
  simp only [records, List.range_succ, List.flatMap_append,
    List.flatMap_singleton]

end Rule

------------------------------------------------------------
-- Passes that have been made
------------------------------------------------------------

/- A diagnostic was reported before or is one of the new ones. -/
theorem Diagnostic.mem_foldl_addNew
    {reported added : List Diagnostic}
    {diagnostic : Diagnostic}
    (hMem :
      diagnostic ∈ added.foldl Diagnostic.addNew reported) :
    diagnostic ∈ reported ∨ diagnostic ∈ added := by
  induction added generalizing reported with
  | nil => exact Or.inl hMem
  | cons first rest ih =>
      rcases ih hMem with hEarlier | hLater
      · unfold addNew at hEarlier
        split at hEarlier
        · exact Or.inl hEarlier
        · rcases List.mem_append.mp hEarlier with hOld | hNew
          · exact Or.inl hOld
          · obtain rfl := List.mem_singleton.mp hNew
            exact Or.inr List.mem_cons_self
      · exact Or.inr (List.mem_cons_of_mem _ hLater)

/- A record to which some diagnostics are attached. -/
def Record.markedWith
    (marks : List Diagnostic)
    (record : Record) : Record :=
  { record with diagnostics := record.diagnostics ++ marks }

namespace Rule

/-
  An outcome under way: its word and its records are those
  of the passes that have been made, and nothing has been
  said about how the run ends.
-/
structure HasMade
    (rule : Rule)
    (options : EngineOptions)
    (word : Word)
    (outcome : RuleOutcome) : Prop where
  word_eq :
    outcome.word = (rule.effect options)^[outcome.passes] word
  changes_eq :
    outcome.changes = rule.records options word outcome.passes
  settled :
    ∀ diagnostic ∈ outcome.diagnostics,
      diagnostic.kind.isUnsettled = false

/-
  An outcome at the end of a run: its word and its records
  are those of the passes, and all records carry the same
  marks.
-/
structure Finished
    (rule : Rule)
    (options : EngineOptions)
    (word : Word)
    (marks : List Diagnostic)
    (outcome : RuleOutcome) : Prop where
  word_eq :
    outcome.word = (rule.effect options)^[outcome.passes] word
  changes_eq :
    outcome.changes =
      (rule.records options word outcome.passes).map
        (Record.markedWith marks)

variable {rule : Rule}
variable {options : EngineOptions}
variable {word : Word}
variable {outcome : RuleOutcome}

theorem HasMade.initial
    (rule : Rule)
    (options : EngineOptions)
    (word : Word) :
    rule.HasMade options word { word := word } where
  word_eq := rfl
  changes_eq := rfl
  settled := by simp

/- One more pass is made. -/
theorem HasMade.next
    (hMade : rule.HasMade options word outcome)
    {sweep : Sweep}
    (hSweep : rule.sweep options outcome.word = .ok sweep) :
    rule.HasMade options word (outcome.addSweep rule sweep) where
  word_eq := by
    have hEffect := effect_of_sweep hSweep
    simp only [RuleOutcome.addSweep,
      Function.iterate_succ_apply', ← hMade.word_eq, hEffect]
  changes_eq := by
    have hEdits := passEdits_of_sweep hSweep
    simp only [RuleOutcome.addSweep, records_succ,
      ← hMade.word_eq, hEdits, hMade.changes_eq]
  settled := by
    intro diagnostic hMem
    rcases Diagnostic.mem_foldl_addNew hMem with hOld | hNew
    · exact hMade.settled diagnostic hOld
    · rcases List.mem_map.mp hNew with
        ⟨problem, hProblem, rfl⟩
      exact sweep_settled hSweep problem hProblem

theorem HasMade.finish
    (hMade : rule.HasMade options word outcome)
    (reason : StopReason) :
    rule.Finished options word [] (outcome.finish reason) where
  word_eq := hMade.word_eq
  changes_eq := by
    have hSame : Record.markedWith [] = id := by
      funext record
      simp [Record.markedWith]
    rw [hSame, List.map_id]
    exact hMade.changes_eq

theorem HasMade.mark
    (hMade : rule.HasMade options word outcome)
    (reason : StopReason)
    (diagnostic : Diagnostic) :
    rule.Finished options word [diagnostic]
      ((outcome.finish reason).mark diagnostic) where
  word_eq := hMade.word_eq
  changes_eq :=
    congrArg (List.map (Record.attach diagnostic))
      hMade.changes_eq

/- A pass is one scan of the word as it is. -/
theorem pass_of_sweep
    {sweep : Sweep}
    (hSweep : rule.sweep options outcome.word = .ok sweep) :
    rule.pass options outcome =
      .ok (outcome.addSweep rule sweep, sweep.changed) := by
  rw [pass, hSweep]

theorem pass_cases
    {next : RuleOutcome}
    {changed : Bool}
    (hPass : rule.pass options outcome = .ok (next, changed)) :
    ∃ sweep,
      rule.sweep options outcome.word = .ok sweep ∧
        next = outcome.addSweep rule sweep ∧
        changed = sweep.changed := by
  unfold pass at hPass
  split at hPass
  · cases hPass
  · rename_i sweep hSweep
    cases hPass
    exact ⟨sweep, hSweep, rfl, rfl⟩

/- At the pass bound a probe decides how the run ends. -/
theorem endAtBound_cases
    {bound : Int}
    {last : RuleOutcome}
    (hEnd : rule.endAtBound options bound outcome = .ok last) :
    ∃ probe,
      rule.sweep options outcome.word = .ok probe ∧
        ((probe.changed = true ∧
          last =
            (outcome.finish .truncated).mark
              (rule.diagnostic (.rulePassBound bound))) ∨
        (probe.changed = false ∧
          last = outcome.finish .stable)) := by
  unfold endAtBound at hEnd
  split at hEnd
  · cases hEnd
  · rename_i probe hProbe
    refine ⟨probe, hProbe, ?_⟩
    split at hEnd
    · rename_i hChanged
      cases hEnd
      exact Or.inl ⟨hChanged, rfl⟩
    · rename_i hSame
      cases hEnd
      exact Or.inr ⟨Bool.eq_false_iff.mpr hSame, rfl⟩

------------------------------------------------------------
-- Whole runs
------------------------------------------------------------

theorem runPasses_finished
    {bound : Int}
    {left : Nat}
    {seen : List Form}
    {last : RuleOutcome}
    (hMade : rule.HasMade options word outcome)
    (hRun :
      rule.runPasses options bound left seen outcome =
        .ok last) :
    ∃ marks, rule.Finished options word marks last := by
  induction left using Nat.strongRecOn
    generalizing seen outcome with
  | _ left ih =>
  rcases runPasses_cases hRun with
    ⟨next, changed, hPass, hEnd⟩
  rcases pass_cases hPass with ⟨sweep, hSweep, rfl, _⟩
  have hNext := hMade.next hSweep
  rcases hEnd with hStable | hCycle | hBound | hMore
  · rw [hStable.2]
    exact ⟨_, hNext.finish .stable⟩
  · rw [hCycle.2.2.2]
    exact ⟨_, hNext.mark .cycle _⟩
  · rcases endAtBound_cases hBound.2.2.2 with
      ⟨_, _, ⟨_, rfl⟩ | ⟨_, rfl⟩⟩
    · exact ⟨_, hNext.mark .truncated _⟩
    · exact ⟨_, hNext.finish .stable⟩
  · rcases hMore with ⟨_, _, fewer, hLeft, hMore⟩
    exact ih fewer (by omega) hNext hMore

/- A run ends with the word and the records of its passes. -/
theorem run_finished
    (hRun : rule.run options word = .ok outcome) :
    ∃ marks, rule.Finished options word marks outcome := by
  have hInitial := HasMade.initial rule options word
  unfold run at hRun
  split at hRun
  · exact runPasses_finished hInitial hRun
  split at hRun
  · cases hRun
  · rename_i hPass
    cases hRun
    rcases pass_cases hPass with ⟨sweep, hSweep, rfl, _⟩
    exact ⟨_, (hInitial.next hSweep).finish .done⟩

/- Each record tells of a change that one of the passes made. -/
theorem exists_pass_of_mem_changes
    (hRun : rule.run options word = .ok outcome)
    {record : Record}
    (hRecord : record ∈ outcome.changes) :
    ∃ i < outcome.passes,
      record.pass = i + 1 ∧
        record.edit ∈
          rule.passEdits options
            ((rule.effect options)^[i] word) := by
  rcases run_finished hRun with ⟨marks, hFinished⟩
  rw [hFinished.changes_eq] at hRecord
  rcases List.mem_map.mp hRecord with ⟨bare, hBare, rfl⟩
  rcases List.mem_flatMap.mp hBare with ⟨i, hPass, hBare⟩
  rcases List.mem_map.mp hBare with ⟨edit, hEdit, rfl⟩
  exact ⟨i, List.mem_range.mp hPass, rfl, hEdit⟩

end Rule

end Diachrony
