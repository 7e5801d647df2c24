import Diachrony.Proofs.Matching.Budget
import Diachrony.Proofs.Scan.Judgement

/-
  Scanning with more steps.

  A scan in which no match is abandoned comes to the same
  result with more steps. An abandoned match at a position
  is reported as a problem of the scan. A search for the
  matches that indices select is not, so whether it comes to
  a result has to be asked on its own.

  Key definitions include:
    * `EngineOptions.withSteps`
    * `Rule.Searched`
    * `Rule.Undisturbed`

  Key theorems include:
    * `Rule.findSite_agrees`
    * `Rule.judge_withSteps`
    * `Rule.sweep_withSteps`
-/

namespace Diachrony

variable {rule : Rule}
variable {options : EngineOptions}
variable {allowed : List (Option (List Nat))}
variable {cursor : Cursor}
variable {budget more : Int}

------------------------------------------------------------
-- Sites
------------------------------------------------------------

section Sites

variable (hMore : budget ≤ more)

include hMore

theorem Predicate.admits_agrees
    (predicate : Predicate)
    (found : Match) :
    Agrees
      (predicate.admits (cursor.surroundings budget found)
        found.bindings)
      (predicate.admits (cursor.surroundings more found)
        found.bindings) := by
  unfold admits
  split
  · exact fun _ hResult => hResult
  · exact anyHolds_agrees hMore _

theorem Predicate.site?_agrees
    (branch : Nat)
    (found : Match)
    (entry : Predicate × Nat) :
    Agrees (Predicate.site? cursor budget branch found entry)
      (Predicate.site? cursor more branch found entry) := by
  intro result hResult
  unfold site? at hResult ⊢
  split at hResult
  · cases hResult
  · rename_i hNone
    rw [Predicate.admits_agrees hMore _ _ _ hNone]
    exact hResult
  · rename_i bindings hAdmits
    rw [Predicate.admits_agrees hMore _ _ _ hAdmits]
    exact hResult

theorem Branch.site?_agrees
    (entry : (Branch × Option (List Nat)) × Nat) :
    Agrees (Branch.site? rule cursor budget entry)
      (Branch.site? rule cursor more entry) := by
  have hTarget :
      Agrees
        (Pattern.matchAt entry.1.1.target cursor.word
          cursor.pos (cursor.targetRequest budget))
        (Pattern.matchAt entry.1.1.target cursor.word
          cursor.pos (cursor.targetRequest more)) :=
    Pattern.matchAt_agrees hMore
  intro result hResult
  unfold site? at hResult ⊢
  split at hResult
  · rename_i hElsewhere
    rw [if_pos hElsewhere]
    exact hResult
  · rename_i hAllowed
    rw [if_neg hAllowed]
    split at hResult
    · cases hResult
    · rename_i hNone
      rw [hTarget _ hNone]
      exact hResult
    · rename_i found hFound
      rw [hTarget _ hFound]
      apply firstSome_agrees
      · intro other _
        exact Predicate.site?_agrees hMore _ _ other
      · exact hResult

/- A site that is found with some steps is found with more. -/
theorem Rule.findSite_agrees
    (cursor : Cursor) :
    Agrees (rule.findSite budget allowed cursor)
      (rule.findSite more allowed cursor) :=
  firstSome_agrees fun entry _ =>
    Branch.site?_agrees hMore entry

theorem Site.isVetoed_agrees
    (site : Site)
    (cursor : Cursor) :
    Agrees (site.isVetoed cursor budget)
      (site.isVetoed cursor more) := by
  intro result hResult
  unfold isVetoed at hResult ⊢
  split at hResult
  · cases hResult
  · rename_i found hFound
    have hSame :
        anyHolds (cursor.surroundings more site.found)
          site.bindings site.predicate.exceptions = .ok found :=
      anyHolds_agrees hMore _ _ hFound
    rw [hSame]
    exact hResult

end Sites

------------------------------------------------------------
-- Verdicts
------------------------------------------------------------

/- The same options, with other steps for each match. -/
def EngineOptions.withSteps
    (options : EngineOptions)
    (steps : Int) : EngineOptions :=
  { options with maxMatchSteps := steps }

@[simp]
theorem EngineOptions.maxMatchSteps_withSteps :
    (options.withSteps more).maxMatchSteps = more :=
  rfl

/- A problem other than an abandoned match. -/
def Problem.Decided
    (problem : Problem) : Prop :=
  problem.kind ≠ .matchBudget

/- A verdict without an abandoned match stands with more steps. -/
theorem Rule.judge_withSteps
    (hMore : options.maxMatchSteps ≤ more)
    {verdict : Verdict}
    (hVerdict :
      rule.judge options allowed cursor = .ok verdict)
    (hDecided : ∀ problem,
      verdict.problem? = some problem → problem.Decided) :
    rule.judge (options.withSteps more) allowed cursor =
      .ok verdict := by
  have hFinds :
      Agrees
        (rule.findSite options.maxMatchSteps allowed cursor)
        (rule.findSite more allowed cursor) :=
    Rule.findSite_agrees hMore cursor
  unfold judge
  rcases Rule.judge_cases hVerdict with
    ⟨steps, _, rfl⟩ | ⟨hFind, rfl⟩ | ⟨site, hFind, hEnd⟩
  · exact absurd rfl (hDecided _ rfl)
  · rw [EngineOptions.maxMatchSteps_withSteps, hFinds _ hFind]
  · have hVetoes := Site.isVetoed_agrees hMore site cursor
    rw [EngineOptions.maxMatchSteps_withSteps, hFinds _ hFind]
    rcases hEnd with ⟨_, _, rfl⟩ | ⟨hVeto, rfl⟩ |
      ⟨hVeto, hReplacing⟩
    · exact absurd rfl (hDecided _ rfl)
    · dsimp only
      rw [hVetoes _ hVeto]
    · dsimp only
      rw [hVetoes _ hVeto]
      exact hReplacing

------------------------------------------------------------
-- Scans
------------------------------------------------------------

/- The verdict that a scan begins with is decided. -/
theorem Verdict.decided_of_followedBy
    {verdict : Verdict}
    {word : WordArray}
    {later : Sweep}
    (hDecided :
      ∀ problem ∈ (verdict.followedBy word later).problems,
        problem.Decided) :
    (∀ problem,
      verdict.problem? = some problem → problem.Decided) ∧
    ∀ problem ∈ later.problems, problem.Decided := by
  constructor
  · intro problem hProblem
    apply hDecided
    exact List.mem_append_left _ (Option.mem_toList.mpr hProblem)
  · intro problem hProblem
    exact hDecided problem (List.mem_append_right _ hProblem)

theorem Rule.sweepRight_withSteps
    (hMore : options.maxMatchSteps ≤ more)
    {word : WordArray}
    {pos origin left : Nat}
    {sweep : Sweep}
    (hSweep :
      rule.sweepRight options allowed word pos origin left =
        .ok sweep)
    (hDecided :
      ∀ problem ∈ sweep.problems, problem.Decided) :
    rule.sweepRight (options.withSteps more) allowed word pos
      origin left = .ok sweep := by
  induction left using Nat.strongRecOn
    generalizing word pos origin sweep with
  | _ left ih =>
  unfold sweepRight at hSweep ⊢
  split at hSweep
  · cases hSweep
  · rename_i verdict hVerdict
    cases left with
    | zero =>
        cases hSweep
        have hSame :=
          Rule.judge_withSteps hMore hVerdict
            (Verdict.decided_of_followedBy hDecided).1
        rw [judgeRight, hSame]
    | succ left =>
        dsimp only at hSweep
        split at hSweep
        · cases hSweep
        · rename_i later hLater
          cases hSweep
          have hParts := Verdict.decided_of_followedBy hDecided
          have hSame :=
            Rule.judge_withSteps hMore hVerdict hParts.1
          have hRest :=
            ih (left - (verdict.consumed - 1)) (by omega) hLater
              hParts.2
          rw [judgeRight, hSame]
          dsimp only
          rw [hRest]

theorem Rule.sweepLeft_withSteps
    (hMore : options.maxMatchSteps ≤ more)
    {word : WordArray}
    {limit pos : Nat}
    {sweep : Sweep}
    (hSweep :
      rule.sweepLeft options allowed word limit pos =
        .ok sweep)
    (hDecided :
      ∀ problem ∈ sweep.problems, problem.Decided) :
    rule.sweepLeft (options.withSteps more) allowed word limit
      pos = .ok sweep := by
  induction pos generalizing word limit sweep with
  | zero =>
      unfold sweepLeft at hSweep ⊢
      split at hSweep
      · cases hSweep
      · rename_i verdict hVerdict
        cases hSweep
        have hSame :=
          Rule.judge_withSteps hMore hVerdict
            (Verdict.decided_of_followedBy hDecided).1
        rw [judgeLeft, hSame]
  | succ pos ih =>
      unfold sweepLeft at hSweep ⊢
      split at hSweep
      · cases hSweep
      · rename_i verdict hVerdict
        split at hSweep
        · cases hSweep
        · rename_i later hLater
          cases hSweep
          have hParts := Verdict.decided_of_followedBy hDecided
          have hSame :=
            Rule.judge_withSteps hMore hVerdict hParts.1
          rw [judgeLeft, hSame]
          dsimp only
          rw [ih hLater hParts.2]

------------------------------------------------------------
-- Searches for selected matches
------------------------------------------------------------

/-
  The search for the matches that the indices of a branch
  select comes to a result.
-/
def Branch.Searched
    (budget : Int)
    (word : WordArray)
    (branch : Branch) : Prop :=
  branch.indices.isSome →
    ∃ found,
      Pattern.findAll branch.target word budget = .ok found

theorem Branch.allowedStarts_agrees
    (hMore : budget ≤ more)
    {word : WordArray}
    {branch : Branch}
    (hSearched : branch.Searched budget word) :
    branch.allowedStarts more word =
      branch.allowedStarts budget word := by
  unfold allowedStarts
  cases hIndices : branch.indices with
  | none => rfl
  | some indices =>
      rcases hSearched (by rw [hIndices]; rfl) with
        ⟨found, hFound⟩
      have hSame := Pattern.findAll_agrees hMore found hFound
      dsimp only
      rw [hFound, hSame]

theorem allowedStartsOf_agrees
    (hMore : budget ≤ more)
    {word : WordArray}
    {branches : List Branch}
    (hSearched : ∀ branch ∈ branches,
      branch.Searched budget word) :
    allowedStartsOf more word branches =
      allowedStartsOf budget word branches := by
  induction branches with
  | nil => rfl
  | cons branch rest ih =>
      rcases List.forall_mem_cons.mp hSearched with
        ⟨hHere, hRest⟩
      rw [allowedStartsOf, allowedStartsOf,
        Branch.allowedStarts_agrees hMore hHere, ih hRest]

/- All searches in a word come to a result. -/
def Rule.Searched
    (rule : Rule)
    (options : EngineOptions)
    (word : Word) : Prop :=
  ∀ branch ∈ rule.branches,
    branch.Searched options.maxMatchSteps word.toArray

/-
  A scan of a word is not disturbed by the bound on the
  steps: all searches for selected matches come to a result,
  and no match is abandoned.
-/
structure Rule.Undisturbed
    (rule : Rule)
    (options : EngineOptions)
    (word : Word) : Prop where
  searched : rule.Searched options word
  decided :
    ∀ sweep, rule.sweep options word = .ok sweep →
      ∀ problem ∈ sweep.problems, problem.Decided

/- An undisturbed scan is the same with more steps. -/
theorem Rule.sweep_withSteps
    (hMore : options.maxMatchSteps ≤ more)
    {word : Word}
    {sweep : Sweep}
    (hSweep : rule.sweep options word = .ok sweep)
    (hUndisturbed : rule.Undisturbed options word) :
    rule.sweep (options.withSteps more) word = .ok sweep := by
  have hDecided := hUndisturbed.decided sweep hSweep
  have hAllowed :=
    allowedStartsOf_agrees hMore hUndisturbed.searched
  unfold Rule.sweep allowedStarts at hSweep ⊢
  dsimp only at hSweep ⊢
  rw [EngineOptions.maxMatchSteps_withSteps, hAllowed]
  split at hSweep
  · cases hSweep
  · split at hSweep
    · rename_i hLeft
      rw [if_pos hLeft]
      exact Rule.sweepLeft_withSteps hMore hSweep hDecided
    · rename_i hRight
      rw [if_neg hRight]
      exact Rule.sweepRight_withSteps hMore hSweep hDecided

end Diachrony
