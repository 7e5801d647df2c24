import Diachrony.Proofs.Scan.Unconditional

/-
  A scan to the right substitutes.

  The scan of a rule that applies without regard to what
  stands around edits the word in place and counts the
  symbols it has passed. All the same its result is that of
  a plain recursion on the symbols that are left: the first
  branch that matches at the front is replaced, and the
  recursion goes on behind the match.

  Key definitions include:
    * `Rule.substitute`

  Key theorems include:
    * `Rule.sweepRight_substitutes`
    * `Rule.substitute_of_sweep`
    * `Rule.sweep_substitutes`
-/

namespace Diachrony

variable {rule : Rule}
variable {predicate : Predicate}
variable {others : List Predicate}
variable {options : EngineOptions}

------------------------------------------------------------
-- Substitution
------------------------------------------------------------

/-
  Replace the first match at the front of a word and go on
  behind it. A symbol at which nothing matches stays, and so
  does the symbol behind a match of no symbols.
-/
def Rule.substitute
    (rule : Rule)
    (budget : Int)
    (word : Word) : Except MatchFault Word :=
  match rule.firstMatch budget word, word with
  | .error fault, _ => .error fault
  | .ok none, [] => .ok []
  | .ok none, symbol :: rest =>
      (rule.substitute budget rest).map (symbol :: ·)
  | .ok (some choice), [] => .ok (rule.rewriting [] choice)
  | .ok (some choice), symbol :: rest =>
      let written := rule.rewriting (symbol :: rest) choice
      if choice.2.length = 0 then
        (rule.substitute budget rest).map
          (written ++ symbol :: ·)
      else
        (rule.substitute budget
          (rest.drop (choice.2.length - 1))).map
            (written ++ ·)
termination_by word.length
decreasing_by
  all_goals
    simp only [List.length_cons, List.length_drop]
    omega

section Front

variable {budget : Int}
variable {symbol : Symbol}
variable {rest later : Word}
variable {choice : Nat × Match}

theorem Rule.substitute_unmatched
    (hNone :
      rule.firstMatch budget (symbol :: rest) = .ok none)
    (hLater : rule.substitute budget rest = .ok later) :
    rule.substitute budget (symbol :: rest) =
      .ok (symbol :: later) := by
  rw [Rule.substitute.eq_def, hNone]
  dsimp only
  rw [hLater]
  rfl

/- After a match of no symbols the next symbol stays. -/
theorem Rule.substitute_empty
    (hChoice :
      rule.firstMatch budget (symbol :: rest) =
        .ok (some choice))
    (hEmpty : choice.2.length = 0)
    (hLater : rule.substitute budget rest = .ok later) :
    rule.substitute budget (symbol :: rest) =
      .ok (rule.rewriting (symbol :: rest) choice ++
        symbol :: later) := by
  rw [Rule.substitute.eq_def, hChoice]
  dsimp only
  rw [if_pos hEmpty, hLater]
  rfl

theorem Rule.substitute_matched
    (hChoice :
      rule.firstMatch budget (symbol :: rest) =
        .ok (some choice))
    (hSome : choice.2.length ≠ 0)
    (hLater :
      rule.substitute budget
        ((symbol :: rest).drop choice.2.length) = .ok later) :
    rule.substitute budget (symbol :: rest) =
      .ok (rule.rewriting (symbol :: rest) choice ++ later) := by
  rw [List.drop_cons (Nat.pos_of_ne_zero hSome)] at hLater
  rw [Rule.substitute.eq_def, hChoice]
  dsimp only
  rw [if_neg hSome, hLater]
  rfl

/- A substitution tries the branches at the front. -/
theorem Rule.firstMatch_of_substitute
    {word written : Word}
    (hWritten : rule.substitute budget word = .ok written) :
    ∃ result, rule.firstMatch budget word = .ok result := by
  cases hResult : rule.firstMatch budget word with
  | ok result => exact ⟨result, rfl⟩
  | error fault =>
      rw [Rule.substitute.eq_def, hResult] at hWritten
      cases hWritten

/- A symbol at which nothing matches stays. -/
theorem Rule.substitute_behind_unmatched
    (hNone :
      rule.firstMatch budget (symbol :: rest) = .ok none)
    {written : Word}
    (hWritten :
      rule.substitute budget (symbol :: rest) =
        .ok written) :
    ∃ later,
      rule.substitute budget rest = .ok later ∧
        written = symbol :: later := by
  cases hLater : rule.substitute budget rest with
  | ok later =>
      rw [Rule.substitute_unmatched hNone hLater] at hWritten
      cases hWritten
      exact ⟨later, rfl, rfl⟩
  | error fault =>
      rw [Rule.substitute.eq_def, hNone] at hWritten
      dsimp only at hWritten
      rw [hLater] at hWritten
      cases hWritten

/- Behind a match the substitution goes on. -/
theorem Rule.substitute_behind_matched
    (hChoice :
      rule.firstMatch budget (symbol :: rest) =
        .ok (some choice))
    (hSome : choice.2.length ≠ 0)
    {written : Word}
    (hWritten :
      rule.substitute budget (symbol :: rest) =
        .ok written) :
    ∃ later,
      rule.substitute budget
          ((symbol :: rest).drop choice.2.length) =
        .ok later ∧
        written =
          rule.rewriting (symbol :: rest) choice ++ later := by
  cases hLater :
      rule.substitute budget
        ((symbol :: rest).drop choice.2.length) with
  | ok later =>
      rw [Rule.substitute_matched hChoice hSome hLater]
        at hWritten
      cases hWritten
      exact ⟨later, rfl, rfl⟩
  | error fault =>
      rw [List.drop_cons (Nat.pos_of_ne_zero hSome)] at hLater
      rw [Rule.substitute.eq_def, hChoice] at hWritten
      dsimp only at hWritten
      rw [if_neg hSome, hLater] at hWritten
      cases hWritten

end Front

------------------------------------------------------------
-- Scans
------------------------------------------------------------

/-
  A scan substitutes in the symbols it has not passed, and
  keeps those it has.
-/
theorem Rule.sweepRight_substitutes
    (hFree : rule.isContextFree = true)
    (hPredicates : rule.predicates = predicate :: others)
    {before word : Word}
    {current : WordArray}
    {pos origin left : Nat}
    {sweep : Sweep}
    (hCurrent : current = (before ++ word).toArray)
    (hPos : pos = before.length)
    (hLeft : left = word.length)
    (hSweep :
      rule.sweepRight options
        (rule.branches.map fun _ => none) current pos origin
        left = .ok sweep)
    (hDecided :
      ∀ problem ∈ sweep.problems, problem.Decided) :
    ∃ written,
      rule.substitute options.maxMatchSteps word =
          .ok written ∧
        sweep.word = before ++ written := by
  induction left using Nat.strongRecOn
    generalizing before word current pos origin sweep with
  | _ left ih =>
  subst hCurrent hPos
  rw [Rule.sweepRight, Rule.judgeRight_eq] at hSweep
  split at hSweep
  · cases hSweep
  rename_i verdict hVerdict
  cases word with
  | nil =>
      obtain rfl : left = 0 := hLeft
      cases hSweep
      have hEnd := (Verdict.decided_of_followedBy hDecided).1
      rcases Rule.judge_between hFree hPredicates hVerdict
          hEnd with
        ⟨hNone, rfl⟩ | ⟨choice, hChoice, hWrites⟩
      · refine ⟨[], ?_, ?_⟩
        · rw [Rule.substitute.eq_def, hNone]
        · simp [Verdict.followedBy, Verdict.applyTo]
      · refine ⟨rule.rewriting [] choice, ?_, ?_⟩
        · rw [Rule.substitute.eq_def, hChoice]
        · have hResult := hWrites.result_eq
          simp only [List.append_nil, List.drop_nil]
            at hResult
          simp [Verdict.followedBy, hResult]
  | cons symbol rest =>
      obtain rfl : left = rest.length + 1 := hLeft
      dsimp only at hSweep
      split at hSweep
      · cases hSweep
      rename_i later hLater
      cases hSweep
      rcases Verdict.decided_of_followedBy hDecided with
        ⟨hHere, hThere⟩
      rcases Rule.judge_between hFree hPredicates hVerdict
          hHere with
        ⟨hNone, rfl⟩ | ⟨choice, hChoice, hWrites⟩
      · have hPassed :
            before ++ symbol :: rest =
              before ++ [symbol] ++ rest := by
          rw [List.append_assoc]
          rfl
        rcases ih rest.length (Nat.lt_succ_self _)
            (congrArg List.toArray hPassed)
            (List.length_append).symm rfl hLater hThere with
          ⟨written, hWritten, hWord⟩
        refine ⟨symbol :: written,
          Rule.substitute_unmatched hNone hWritten, ?_⟩
        simpa [Verdict.followedBy] using hWord
      have hResult := hWrites.result_eq
      have hAdvance := hWrites.advance_eq
      have hConsumed := hWrites.consumed_eq
      rw [List.append_nil, List.append_nil] at hResult
      by_cases hEmpty : choice.2.length = 0
      · have hPassed :
            before ++ rule.rewriting (symbol :: rest) choice ++
                (symbol :: rest).drop choice.2.length =
              before ++ (rule.rewriting (symbol :: rest)
                choice ++ [symbol]) ++ rest := by
          simp [hEmpty]
        rw [if_pos hEmpty] at hAdvance
        rcases ih _ (by omega) (hResult.trans
              (congrArg List.toArray hPassed))
            (by simp [hAdvance]) (by omega) hLater hThere with
          ⟨written, hWritten, hWord⟩
        refine ⟨_,
          Rule.substitute_empty hChoice hEmpty hWritten, ?_⟩
        simpa [Verdict.followedBy] using hWord
      · rw [if_neg hEmpty] at hAdvance
        rcases ih _ (by omega) hResult
            (by simp [hAdvance])
            (by rw [List.length_drop, List.length_cons]; omega)
            hLater hThere with
          ⟨written, hWritten, hWord⟩
        refine ⟨_,
          Rule.substitute_matched hChoice hEmpty hWritten, ?_⟩
        simpa [Verdict.followedBy] using hWord

------------------------------------------------------------
-- Rules without predicates
------------------------------------------------------------

/- Without predicates a position is missed. -/
theorem Rule.miss_without_predicates
    (hFree : rule.isContextFree = true)
    (hPredicates : rule.predicates = [])
    {before word after : Word}
    {origin : Nat}
    {verdict : Verdict}
    (hVerdict :
      rule.judge options (rule.branches.map fun _ => none)
        (Cursor.between before word after origin) =
          .ok verdict)
    (hDecided : ∀ problem,
      verdict.problem? = some problem → problem.Decided) :
    verdict = .miss ∧
      ∃ choice,
        rule.firstMatch options.maxMatchSteps word =
          .ok choice := by
  rcases Rule.judge_cases hVerdict with
    ⟨steps, _, rfl⟩ | ⟨hMiss, rfl⟩ | ⟨site, hSite, _⟩
  · exact absurd rfl (hDecided _ rfl)
  · exact ⟨rfl,
      (Rule.firstMatch_of_findSite before word after origin
        hFree hPredicates hMiss).2⟩
  · cases
      (Rule.firstMatch_of_findSite before word after origin
        hFree hPredicates hSite).1

/-
  A scan without predicates changes nothing, and no match
  fails on the way.
-/
theorem Rule.sweepRight_without_predicates
    (hFree : rule.isContextFree = true)
    (hPredicates : rule.predicates = [])
    {before word : Word}
    {current : WordArray}
    {pos origin left : Nat}
    {sweep : Sweep}
    (hCurrent : current = (before ++ word).toArray)
    (hPos : pos = before.length)
    (hLeft : left = word.length)
    (hSweep :
      rule.sweepRight options
        (rule.branches.map fun _ => none) current pos origin
        left = .ok sweep)
    (hDecided :
      ∀ problem ∈ sweep.problems, problem.Decided) :
    sweep.word = before ++ word ∧
      ∀ n, ∃ choice,
        rule.firstMatch options.maxMatchSteps (word.drop n) =
          .ok choice := by
  induction left
    generalizing before word current pos origin sweep with
  | zero =>
      obtain rfl : word = [] :=
        List.eq_nil_of_length_eq_zero hLeft.symm
      subst hCurrent hPos
      rw [Rule.sweepRight, Rule.judgeRight_eq] at hSweep
      split at hSweep
      · cases hSweep
      rename_i verdict hVerdict
      cases hSweep
      rcases Rule.miss_without_predicates hFree hPredicates
          hVerdict (Verdict.decided_of_followedBy hDecided).1
        with ⟨rfl, hMatch⟩
      refine ⟨rfl, fun n => ?_⟩
      rw [List.drop_nil]
      exact hMatch
  | succ left ih =>
      subst hCurrent hPos
      rw [Rule.sweepRight, Rule.judgeRight_eq] at hSweep
      split at hSweep
      · cases hSweep
      rename_i verdict hVerdict
      dsimp only at hSweep
      split at hSweep
      · cases hSweep
      rename_i later hLater
      cases hSweep
      rcases Verdict.decided_of_followedBy hDecided with
        ⟨hHere, hThere⟩
      rcases Rule.miss_without_predicates hFree hPredicates
          hVerdict hHere with
        ⟨rfl, hMatch⟩
      cases word with
      | nil => cases hLeft
      | cons symbol rest =>
          have hPassed :
              before ++ symbol :: rest =
                before ++ [symbol] ++ rest := by
            rw [List.append_assoc]
            rfl
          rcases ih (congrArg List.toArray hPassed)
              (List.length_append).symm
              (Nat.succ.inj hLeft) hLater hThere with
            ⟨hWord, hMatches⟩
          refine ⟨hWord.trans hPassed.symm, fun n => ?_⟩
          cases n with
          | zero => exact hMatch
          | succ n => exact hMatches n

/- Without predicates a substitution changes nothing either. -/
theorem Rule.substitute_without_predicates
    (hPredicates : rule.predicates = [])
    {budget : Int}
    {word : Word}
    (hMatches : ∀ n, ∃ choice,
      rule.firstMatch budget (word.drop n) = .ok choice) :
    rule.substitute budget word = .ok word := by
  induction hLength : word.length using Nat.strongRecOn
    generalizing word with
  | _ length ih =>
  have hLater : ∀ n, 0 < n → n ≤ word.length →
      rule.substitute budget (word.drop n) =
        .ok (word.drop n) := by
    intro n hPositive hInside
    apply ih (word.drop n).length _ _ rfl
    · rw [List.length_drop]
      omega
    · intro m
      rw [List.drop_drop]
      exact hMatches (n + m)
  have hStays : ∀ choice,
      rule.rewriting word choice =
        word.take choice.2.length := by
    intro choice
    rw [Rule.rewriting, hPredicates]
  rcases hMatches 0 with ⟨result, hMatch⟩
  rw [List.drop_zero] at hMatch
  cases word with
  | nil =>
      rw [Rule.substitute.eq_def, hMatch]
      cases result with
      | none => rfl
      | some choice => simp [hStays]
  | cons symbol rest =>
      cases result with
      | none =>
          exact Rule.substitute_unmatched hMatch
            (hLater 1 (by omega) (by simp))
      | some choice =>
          have hWithin := Rule.firstMatch_within hMatch
          have hStop := hWithin.stop_le
          by_cases hEmpty : choice.2.length = 0
          · rw [Rule.substitute_empty hMatch hEmpty
              (hLater 1 (by omega) (by simp)), hStays, hEmpty]
            rfl
          · have hInside :
                choice.2.length ≤ (symbol :: rest).length := by
              rw [Match.length]
              omega
            rw [Rule.substitute_matched hMatch hEmpty
              (hLater _ (by omega) hInside), hStays,
              List.take_append_drop]

------------------------------------------------------------
-- Whole scans
------------------------------------------------------------

/- A scan without abandoned matches substitutes. -/
theorem Rule.substitute_of_sweep
    (hFree : rule.isContextFree = true)
    (hRight : rule.flags.rightToLeft = false)
    {word : Word}
    {sweep : Sweep}
    (hSweep : rule.sweep options word = .ok sweep)
    (hDecided :
      ∀ problem ∈ sweep.problems, problem.Decided) :
    rule.substitute options.maxMatchSteps word =
      .ok sweep.word := by
  rw [Rule.sweep, hRight,
    Rule.allowedStarts_of_isUnconditional
      (Rule.isUnconditional_of_isContextFree hFree)] at hSweep
  dsimp only at hSweep
  rw [if_neg Bool.false_ne_true] at hSweep
  have hStart : word.toArray = ([] ++ word).toArray := rfl
  have hSize : word.toArray.size = word.length :=
    List.size_toArray
  cases hPredicates : rule.predicates with
  | nil =>
      rcases Rule.sweepRight_without_predicates hFree
          hPredicates hStart rfl hSize hSweep hDecided with
        ⟨hWord, hMatches⟩
      rw [hWord]
      exact Rule.substitute_without_predicates hPredicates
        hMatches
  | cons predicate others =>
      rcases Rule.sweepRight_substitutes hFree hPredicates
          hStart rfl hSize hSweep hDecided with
        ⟨written, hWritten, hWord⟩
      rw [hWritten, hWord]
      rfl

/-
  A scan to the right of a rule that applies without regard
  to what stands around has a result if the rule can be
  matched, and its result is that of a substitution, unless
  a match is abandoned.
-/
theorem Rule.sweep_substitutes
    (hFree : rule.isContextFree = true)
    (hRight : rule.flags.rightToLeft = false)
    (word : Word) :
    (rule.matchable = true →
      ∃ sweep, rule.sweep options word = .ok sweep) ∧
    ∀ sweep,
      rule.sweep options word = .ok sweep →
      (∀ problem ∈ sweep.problems, problem.Decided) →
        rule.substitute options.maxMatchSteps word =
          .ok sweep.word := by
  constructor
  · intro hMatchable
    exact Rule.exists_sweep hMatchable word
  · intro sweep hSweep hDecided
    exact
      Rule.substitute_of_sweep hFree hRight hSweep hDecided

/-
  Shorten a pair of symbols, choose from two members without
  saying which, and write a vowel wherever nothing else fits.
-/
def vowelRule : Rule where
  branches :=
    [ { target := [.literal "a", .literal "b"] },
      { target := [.literal "a"] },
      { target := [.optional [.literal "c"] false] } ]
  predicates :=
    [ { replacements :=
          [ [.literal "x"],
            [.category
              { category := some
                  { name := ""
                    members := [[.symbol "p"], [.symbol "q"]]
                  } }],
            [.literal "y"] ] } ]

/-
  The pair is shortened, the single `a` is skipped, and the
  vowel is written for `c` and for nothing before `d` and at
  the word end.
-/
def vowelSweep : Sweep where
  word := ["x", "a", "y", "d", "y", "y"]
  edits :=
    [ { start := 0
        stop := 2
        before := ["a", "b", "a", "d", "c"]
        after := ["x", "a", "d", "c"] },
      { start := 2
        stop := 2
        before := ["x", "a", "d", "c"]
        after := ["x", "a", "y", "d", "c"] },
      { start := 4
        stop := 5
        before := ["x", "a", "y", "d", "c"]
        after := ["x", "a", "y", "d", "y"] },
      { start := 5
        stop := 5
        before := ["x", "a", "y", "d", "y"]
        after := ["x", "a", "y", "d", "y", "y"] } ]
  problems := [.noMemberChosen "[p,q]"]
  examined := 5

theorem vowelRule_substitutes :
    vowelRule.matchable = true ∧
      vowelRule.sweep {} ["a", "b", "a", "d", "c"] =
          .ok vowelSweep ∧
        vowelRule.substitute defaultBudget
            ["a", "b", "a", "d", "c"] =
          .ok ["x", "a", "y", "d", "y", "y"] := by
  have hSweep :
      vowelRule.sweep {} ["a", "b", "a", "d", "c"] =
        .ok vowelSweep := by
    decide +kernel
  have hDecided : ∀ problem ∈ vowelSweep.problems,
      problem.Decided := by
    simp [vowelSweep, Problem.Decided, Problem.kind]
  have hFree : vowelRule.isContextFree = true := by
    decide +kernel
  refine ⟨by decide +kernel, hSweep, ?_⟩
  exact
    (Rule.sweep_substitutes hFree rfl
      ["a", "b", "a", "d", "c"]).2
        vowelSweep hSweep hDecided

end Diachrony
