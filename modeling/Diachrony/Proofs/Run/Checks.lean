import Diachrony.Proofs.Run.Cycles

/-
  Checks of a run.

  A site lies inside the word, only symbols are written, and
  no pass is made beyond the bound. So no check of a strict
  run can fail, and the run is the same without them.

  Key definitions include:
    * `EngineOptions.checking`

  Key theorems include:
    * `Rule.judge_checking`
    * `Rule.run_checking`
    * `Rule.passes_le_of_run`
    * `Rule.exists_outcome`
-/

namespace Diachrony

------------------------------------------------------------
-- Settings of a run
------------------------------------------------------------

namespace EngineOptions

/- The same options with or without checks. -/
def checking
    (options : EngineOptions)
    (strict : Bool) : EngineOptions :=
  { options with strict := strict }

variable {options : EngineOptions}

@[simp] theorem maxPasses_checking
    (strict : Bool) :
    (options.checking strict).maxPasses = options.maxPasses :=
  rfl

@[simp] theorem maxMatchSteps_checking
    (strict : Bool) :
    (options.checking strict).maxMatchSteps =
      options.maxMatchSteps :=
  rfl

@[simp] theorem detectCycles_checking
    (strict : Bool) :
    (options.checking strict).detectCycles =
      options.detectCycles :=
  rfl

end EngineOptions

------------------------------------------------------------
-- Scans
------------------------------------------------------------

variable {options : EngineOptions}

/- A site inside the word is replaced with checks or without. -/
theorem Site.replacing_checking
    {site : Site}
    {rule : Rule}
    {word : WordArray}
    {pos limit : Nat}
    (hWithin : site.found.Within pos limit)
    (hLimit : limit ≤ word.size)
    (strict : Bool) :
    site.replacing (options.checking strict) rule word =
      site.replacing options rule word := by
  simp only [replacing,
    site.checkSite_passes hWithin hLimit]

namespace Rule

variable {rule : Rule}
variable {word : Word}
variable {outcome : RuleOutcome}
variable {bound : Int}

/- What is found keeps to the word that is searched. -/
theorem judge_checking
    (strict : Bool)
    (allowed : List (Option (List Nat)))
    (cursor : Cursor) :
    rule.judge (options.checking strict) allowed cursor =
      rule.judge options allowed cursor := by
  rw [judge, judge, EngineOptions.maxMatchSteps_checking]
  cases hFind :
      rule.findSite options.maxMatchSteps allowed cursor with
  | error fault => cases fault <;> rfl
  | ok found =>
      cases found with
      | none => rfl
      | some site =>
          have hWithin := findSite_within hFind
          simp only [Site.replacing_checking hWithin
            (Nat.min_le_right _ _) strict]

theorem sweep_checking
    (strict : Bool)
    (word : Word) :
    rule.sweep (options.checking strict) word =
      rule.sweep options word :=
  sweep_eq_of_judge (judge_checking strict) rfl rfl word

theorem pass_checking
    (strict : Bool)
    (outcome : RuleOutcome) :
    rule.pass (options.checking strict) outcome =
      rule.pass options outcome := by
  rw [pass, pass, sweep_checking]

------------------------------------------------------------
-- Runs
------------------------------------------------------------

/- The passes that are left never lead beyond the bound. -/
theorem runPasses_checking
    (strict : Bool)
    {left : Nat}
    (hLeft : (outcome.passes + 1 + left : Nat) = bound)
    (seen : List Form) :
    rule.runPasses (options.checking strict) bound left seen
        outcome =
      rule.runPasses options bound left seen outcome := by
  induction left using Nat.strongRecOn
    generalizing seen outcome with
  | _ left ih =>
  rw [runPasses, runPasses, if_neg (passes_within hLeft),
    if_neg (passes_within hLeft), pass_checking]
  cases hPass : rule.pass options outcome with
  | error fault => rfl
  | ok result =>
  rcases result with ⟨next, changed⟩
  cases changed with
  | false => rfl
  | true =>
  rcases pass_cases hPass with ⟨sweep, _, rfl, _⟩
  cases left with
  | zero =>
      simp only [endAtBound, sweep_checking]
      rfl
  | succ fewer =>
      have hFewer :
          (((outcome.addSweep rule sweep).passes + 1 + fewer :
            Nat) : Int) = bound := by
        rw [← hLeft]
        exact congrArg Nat.cast (by
          simp only [RuleOutcome.addSweep]
          omega)
      simp only [ih fewer (Nat.lt_succ_self _) hFewer]
      rfl

section Bounded

variable
  (hBound :
    rule.flags.persistent = true →
      1 ≤ rule.flags.passBound options.maxPasses)

include hBound

/- A rule is run in the same way with checks or without. -/
theorem run_checking
    (strict : Bool)
    (word : Word) :
    rule.run (options.checking strict) word =
      rule.run options word := by
  cases hPersistent : rule.flags.persistent with
  | false =>
      rw [run, run, if_neg (by simp [hPersistent]),
        if_neg (by simp [hPersistent]), pass_checking]
  | true =>
      have hLeft := hBound hPersistent
      rw [run_of_persistent hPersistent,
        run_of_persistent hPersistent,
        EngineOptions.maxPasses_checking]
      apply runPasses_checking
      change ((0 + 1 + _ : Nat) : Int) = _
      omega

/- A rule that can be matched has an outcome on every word. -/
theorem exists_outcome
    (hMatchable : rule.matchable = true)
    (word : Word) :
    ∃ outcome, rule.run options word = .ok outcome := by
  cases hPersistent : rule.flags.persistent with
  | true =>
      exact exists_run hPersistent (hBound hPersistent)
        hMatchable word
  | false =>
      rcases exists_sweep hMatchable word with
        ⟨sweep, hSweep⟩
      rw [run, if_neg (by simp [hPersistent]),
        pass_of_sweep hSweep]
      exact ⟨_, rfl⟩

end Bounded

/- A run makes no more passes than its bound allows. -/
theorem passes_le_of_run
    (hBound : 1 ≤ rule.flags.passBound options.maxPasses)
    (hRun : rule.run options word = .ok outcome) :
    outcome.passes ≤
      rule.flags.passBound options.maxPasses := by
  cases hPersistent : rule.flags.persistent with
  | true =>
      exact (ended_of_run hPersistent hBound hRun).passes_le
  | false =>
      rw [run, if_neg (by simp [hPersistent])] at hRun
      split at hRun
      · cases hRun
      rename_i hPass
      rcases pass_cases hPass with ⟨sweep, _, rfl, _⟩
      cases hRun
      exact hBound

end Rule

end Diachrony
