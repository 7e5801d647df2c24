import Diachrony.Proofs.Run.Lockstep
import Diachrony.Proofs.Run.Progress
import Diachrony.Proofs.Run.Cycles
import Diachrony.Proofs.Scan.Symbolwise

/-
  The direction of a scan.

  A rule that changes single symbols writes the same piece
  for a symbol in either direction. So a scan to the left
  leaves the same word as one to the right after as many
  changes, and runs of the rule in the two directions are in
  step, unless a match is abandoned in one of them.

  Key definitions include:
    * `Rule.turned`
    * `Rule.AbandonsNothing`
    * `Rule.Refused`

  Key theorems include:
    * `Rule.sweep_turned`
    * `Rule.run_turned`
    * `Rule.direction_immaterial`
-/

namespace Diachrony

/- The same rule with scans to the left, or to the right. -/
def Rule.turned
    (rule : Rule)
    (toLeft : Bool) : Rule :=
  rule.flagged { rule.flags with rightToLeft := toLeft }

/- No match is abandoned in the scans of a run. -/
def Rule.AbandonsNothing
    (rule : Rule)
    (options : EngineOptions)
    (word : Word)
    (outcome : RuleOutcome) : Prop :=
  ∀ scanned, rule.Scans options word outcome scanned →
    ∀ sweep, rule.sweep options scanned = .ok sweep →
      ∀ problem ∈ sweep.problems, problem.Decided

/- After as many changes, both scans or none changed a word. -/
theorem Sweep.changed_eq_of_length
    {sweep twin : Sweep}
    (hLength : twin.edits.length = sweep.edits.length) :
    twin.changed = sweep.changed := by
  have hEmpty :
      twin.edits.isEmpty = sweep.edits.isEmpty := by
    rw [Bool.eq_iff_iff, List.isEmpty_iff_length_eq_zero,
      List.isEmpty_iff_length_eq_zero, hLength]
  rw [changed, hEmpty, changed]

namespace Rule

variable {rule : Rule}
variable {options : EngineOptions}
variable {word : Word}
variable {toLeft toRight : Bool}
variable {first second : RuleOutcome}

------------------------------------------------------------
-- Scans
------------------------------------------------------------

/- The direction has no part in what is written. -/
theorem writes_turned
    (toLeft : Bool)
    (allowed : List (Option (List Nat))) :
    (rule.turned toLeft).Writes options allowed =
      rule.Writes options allowed := by
  have hJudge : ∀ cursor,
      (rule.turned toLeft).judge options allowed cursor =
        rule.judge options allowed cursor :=
    judge_flagged _ options.maxPasses allowed
  funext symbol origin piece
  simp only [Writes, hJudge]

/- Whatever the direction, a scan writes the same pieces. -/
theorem pieced_turned
    (hRule : rule.isSymbolwise = true)
    {allowed : List (Option (List Nat))}
    (hAllowed :
      rule.allowedStarts options.maxMatchSteps word.toArray =
        .ok allowed)
    {sweep : Sweep}
    (hSweep :
      (rule.turned toLeft).sweep options word = .ok sweep)
    (hDecided : ∀ problem ∈ sweep.problems, problem.Decided) :
    Word.Pieced (rule.Writes options allowed) word 0
      sweep.word sweep.edits.length := by
  have hTurned : (rule.turned toLeft).isSymbolwise = true :=
    hRule
  rw [← writes_turned toLeft]
  exact sweep_writes hTurned hAllowed hSweep hDecided

/-
  Scans of a word in the two directions leave the same word
  after as many changes.
-/
theorem sweep_turned
    (hRule : rule.isSymbolwise = true)
    {sweep twin : Sweep}
    (hSweep :
      (rule.turned toRight).sweep options word = .ok sweep)
    (hTwin :
      (rule.turned toLeft).sweep options word = .ok twin)
    (hDecided : ∀ problem ∈ sweep.problems, problem.Decided)
    (hSettled : ∀ problem ∈ twin.problems, problem.Decided) :
    twin.word = sweep.word ∧
      twin.edits.length = sweep.edits.length := by
  obtain ⟨allowed, hAllowed⟩ :
      ∃ allowed,
        rule.allowedStarts options.maxMatchSteps word.toArray =
          .ok allowed := by
    rw [Rule.sweep] at hSweep
    split at hSweep
    · cases hSweep
    · rename_i allowed hAllowed
      exact ⟨allowed, hAllowed⟩
  have hUnique :
      ∀ symbol origin piece other,
        rule.Writes options allowed symbol origin piece →
        rule.Writes options allowed symbol origin other →
          piece = other :=
    fun _ _ _ _ => Writes.unique hRule
  exact Word.Pieced.unique hUnique
    (pieced_turned hRule hAllowed hTwin hSettled)
    (pieced_turned hRule hAllowed hSweep hDecided)

------------------------------------------------------------
-- Runs
------------------------------------------------------------

theorem matchable_turned
    (hRule : rule.isSymbolwise = true) :
    (rule.turned toLeft).matchable = true :=
  matchable_of_isSymbolwise hRule

/-
  A run of a rule is refused if its bound allows no pass and
  invariants are checked.
-/
def Refused
    (rule : Rule)
    (options : EngineOptions) : Prop :=
  rule.flags.persistent = true ∧
    options.strict = true ∧
    rule.flags.passBound options.maxPasses < 1

theorem run_of_refused
    (hMatchable : rule.matchable = true)
    (hRefused : rule.Refused options)
    (word : Word) :
    rule.run options word =
      .error (.violation
        (.passesBeyond 1
          (rule.flags.passBound options.maxPasses))) :=
  (run_within_bound hRefused.1 hMatchable word).1 hRefused.2

/-
  Unless its runs are refused, a rule that can be matched has
  an outcome on each word.
-/
theorem exists_outcome_of_not_refused
    (hMatchable : rule.matchable = true)
    (hAccepted : ¬rule.Refused options)
    (word : Word) :
    ∃ outcome, rule.run options word = .ok outcome := by
  cases hPersistent : rule.flags.persistent with
  | false =>
      obtain ⟨sweep, hSweep⟩ :
          ∃ sweep, rule.sweep options word = .ok sweep :=
        exists_sweep hMatchable word
      rw [run, if_neg (by simp [hPersistent]),
        pass_of_sweep hSweep]
      exact ⟨_, rfl⟩
  | true =>
      rcases (run_within_bound hPersistent hMatchable word).2
          fun hNone => hAccepted ⟨hPersistent, hNone⟩ with
        ⟨outcome, hRun, -⟩
      exact ⟨outcome, hRun⟩

/-
  Runs in the two directions are in step, and their passes
  make as many changes, if neither abandons a match.
-/
theorem run_turned
    (hRule : rule.isSymbolwise = true)
    (hFirst :
      (rule.turned toRight).run options word = .ok first)
    (hSecond :
      (rule.turned toLeft).run options word = .ok second)
    (hDecided :
      (rule.turned toRight).AbandonsNothing options word first)
    (hSettled :
      (rule.turned toLeft).AbandonsNothing options word
        second) :
    (rule.turned toRight).InStep (rule.turned toLeft) options
        word first second ∧
      ∀ pass,
        (second.recordsOf pass).length =
          (first.recordsOf pass).length := by
  have hTwins :
      ∀ scanned,
        (rule.turned toRight).Scans options word first scanned →
        (rule.turned toLeft).Scans options word second
            scanned →
          ∀ sweep twin,
            (rule.turned toRight).sweep options scanned =
              .ok sweep →
            (rule.turned toLeft).sweep options scanned =
              .ok twin →
              twin.word = sweep.word ∧
                twin.edits.length = sweep.edits.length := by
    intro scanned hOne hOther sweep twin hSweep hTwin
    exact sweep_turned hRule hSweep hTwin
      (hDecided scanned hOne sweep hSweep)
      (hSettled scanned hOther twin hTwin)
  have hSame :
      (rule.turned toRight).InStep (rule.turned toLeft) options
        word first second := by
    obtain ⟨final, hFinal, hInStep⟩ :
        ∃ final,
          (rule.turned toLeft).run options word = .ok final ∧
            (rule.turned toRight).InStep (rule.turned toLeft)
              options word first final := by
      refine run_inStep ?_ ?_ hFirst ?_
      · rfl
      · rfl
      intro scanned hOne hOther sweep hSweep
      obtain ⟨twin, hTwin⟩ :
          ∃ twin,
            (rule.turned toLeft).sweep options scanned =
              .ok twin :=
        exists_sweep (matchable_turned hRule) scanned
      obtain ⟨hWord, hLength⟩ :=
        hTwins scanned hOne (hOther second hSecond) sweep twin
          hSweep hTwin
      exact ⟨twin, hTwin, hWord,
        Sweep.changed_eq_of_length hLength⟩
    cases hSecond.symm.trans hFinal
    exact hInStep
  refine ⟨hSame, hSame.length_recordsOf hFirst hSecond ?_⟩
  intro i hPass sweep twin hSweep hTwin
  refine (hTwins _ ?_ ?_ sweep twin hSweep hTwin).2
  · exact Or.inl ⟨i, hPass, rfl⟩
  · rw [← hSame.path i (Nat.le_of_lt hPass)]
    rw [← hSame.passes_eq] at hPass
    exact Or.inl ⟨i, hPass, rfl⟩

/-
  For rules that change single symbols the direction of the
  scan does not matter. A run comes to an outcome in both
  directions, or it is refused in both. If neither run
  abandons a match, they leave the same word after as many
  passes, end for the same reason, and have as many records
  for each pass.
-/
theorem direction_immaterial
    (hRule : rule.isSymbolwise = true)
    (options : EngineOptions)
    (word : Word) :
    (rule.Refused options →
      ∀ toLeft,
        (rule.turned toLeft).run options word =
          .error (.violation
            (.passesBeyond 1
              (rule.flags.passBound options.maxPasses)))) ∧
    (¬rule.Refused options →
      ∃ first second,
        (rule.turned false).run options word = .ok first ∧
          (rule.turned true).run options word = .ok second ∧
          ((rule.turned false).AbandonsNothing options word
              first →
            (rule.turned true).AbandonsNothing options word
                second →
              second.word = first.word ∧
                second.passes = first.passes ∧
                second.stopReason = first.stopReason ∧
                ∀ pass,
                  (second.recordsOf pass).length =
                    (first.recordsOf pass).length)) := by
  constructor
  · intro hRefused toLeft
    have hTurned : (rule.turned toLeft).Refused options :=
      hRefused
    exact run_of_refused (matchable_turned hRule) hTurned word
  · intro hAccepted
    have hBoth : ∀ toLeft,
        ∃ outcome,
          (rule.turned toLeft).run options word =
            .ok outcome := by
      intro toLeft
      have hTurned : ¬(rule.turned toLeft).Refused options :=
        hAccepted
      exact exists_outcome_of_not_refused
        (matchable_turned hRule) hTurned word
    rcases hBoth false with ⟨first, hFirst⟩
    rcases hBoth true with ⟨second, hSecond⟩
    refine ⟨first, second, hFirst, hSecond, ?_⟩
    intro hDecided hSettled
    rcases run_turned hRule hFirst hSecond hDecided hSettled with
      ⟨hSame, hRecords⟩
    exact ⟨hSame.word_eq hFirst hSecond, hSame.passes_eq,
      hSame.stopReason_eq, hRecords⟩

end Rule

/-
  Turn the second of some symbols into a pair and leave out
  others, as long as there are any.
-/
def sparingRule : Rule where
  branches :=
    [ { target := [.literal "a"], indices := some [1] },
      { target := [.literal "b"] } ]
  predicates :=
    [ { replacements :=
          [[.literal "c", .literal "c"], [.null]] } ]
  flags := { persistent := true }
  source := "a@2, b > cc, 0"

/- What the scans of a run in three passes report. -/
theorem sparingRule_abandonsNothing
    (toLeft : Bool)
    {outcome : RuleOutcome}
    (hPasses : outcome.passes = 3) :
    (sparingRule.turned toLeft).AbandonsNothing {}
      ["a", "b", "a", "a"] outcome := by
  have hNone :
      ∀ i < 3,
        ((sparingRule.turned toLeft).sweep {}
          (((sparingRule.turned toLeft).effect {})^[i]
            ["a", "b", "a", "a"])).toOption.map
              Sweep.problems =
          some [] := by
    cases toLeft <;> decide +kernel
  intro scanned hScans sweep hSweep
  rcases hScans with ⟨i, hPass, rfl⟩ | ⟨_, hBound, _⟩
  · rw [hPasses] at hPass
    have hHere := hNone i hPass
    rw [hSweep] at hHere
    rw [Option.some.inj hHere]
    exact fun _ hMem => absurd hMem List.not_mem_nil
  · rw [hPasses] at hBound
    cases toLeft <;> exact absurd hBound (by decide)

/- In the two directions the rule writes the same word. -/
theorem sparingRule_turned :
    sparingRule.isSymbolwise = true ∧
      ¬sparingRule.Refused {} ∧
      ∃ first second,
        (sparingRule.turned false).run {}
            ["a", "b", "a", "a"] =
          .ok first ∧
        (sparingRule.turned true).run {}
            ["a", "b", "a", "a"] =
          .ok second ∧
        first.word = ["a", "c", "c", "c", "c"] ∧
        first.changes.head?.map Record.after =
          some ["a", "a", "a"] ∧
        second.changes.head?.map Record.after =
          some ["a", "b", "c", "c", "a"] ∧
        second.word = first.word ∧
        second.passes = first.passes ∧
        second.stopReason = first.stopReason ∧
        ∀ pass,
          (second.recordsOf pass).length =
            (first.recordsOf pass).length := by
  have hAccepted : ¬sparingRule.Refused {} := by
    unfold Rule.Refused
    decide
  rcases (Rule.direction_immaterial
      (by decide : sparingRule.isSymbolwise = true) {}
      ["a", "b", "a", "a"]).2 hAccepted with
    ⟨first, second, hFirst, hSecond, hSame⟩
  have hRight :
      ((sparingRule.turned false).run {}
          ["a", "b", "a", "a"]).toOption.map
        (fun outcome =>
          (outcome.word, outcome.passes,
            outcome.changes.head?.map Record.after)) =
      some (["a", "c", "c", "c", "c"], 3,
        some ["a", "a", "a"]) := by
    decide +kernel
  have hLeft :
      ((sparingRule.turned true).run {}
          ["a", "b", "a", "a"]).toOption.map
        (fun outcome =>
          (outcome.passes,
            outcome.changes.head?.map Record.after)) =
      some (3, some ["a", "b", "c", "c", "a"]) := by
    decide +kernel
  rw [hFirst] at hRight
  rw [hSecond] at hLeft
  simp only [Except.toOption, Option.map_some,
    Option.some.injEq, Prod.mk.injEq] at hRight hLeft
  refine ⟨by decide, hAccepted, first, second, hFirst, hSecond,
    hRight.1, hRight.2.2, hLeft.2, ?_⟩
  exact hSame
    (sparingRule_abandonsNothing false hRight.2.1)
    (sparingRule_abandonsNothing true hLeft.1)

end Diachrony
