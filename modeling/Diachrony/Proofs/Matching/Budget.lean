import Diachrony.Environment
import Diachrony.Proofs.Matching.Candidates
import Mathlib.Tactic.SplitIfs

/-
  Matching with more steps.

  The steps that a match may take only cut it off: a match
  that comes to a result comes to the same one with more
  steps. This carries over to all that is decided by
  matches, up to the conditions on the surroundings of a
  span.

  Key theorems include:
    * `Machine.run_agrees`
    * `Pattern.matchAt_agrees`
    * `Environment.holds_agrees`
    * `anyHolds_agrees`
-/

namespace Diachrony

------------------------------------------------------------
-- Matches
------------------------------------------------------------

/- A run that comes to a result has no use for more fuel. -/
theorem Machine.run_agrees
    {machine : Machine}
    {budget more fuel extra : Nat}
    {stack : List Thread}
    {best : Option Match}
    (hFuel : fuel ≤ extra) :
    Agrees (machine.run budget fuel stack best)
      (machine.run more extra stack best) := by
  intro result hResult
  induction fuel generalizing extra stack best with
  | zero =>
      cases stack with
      | nil =>
          rw [run] at hResult ⊢
          exact hResult
      | cons thread rest => cases hResult
  | succ fuel ih =>
      cases stack with
      | nil =>
          rw [run] at hResult ⊢
          exact hResult
      | cons thread rest =>
          obtain ⟨fewer, rfl⟩ :=
            Nat.exists_eq_succ_of_ne_zero
              (Nat.ne_of_gt
                (Nat.lt_of_lt_of_le (Nat.succ_pos _) hFuel))
          have hFewer : fuel ≤ fewer :=
            Nat.le_of_succ_le_succ hFuel
          rw [run] at hResult ⊢
          cases hCode : machine.code[thread.address]? with
          | none =>
              rw [hCode] at hResult
              exact ih hFewer hResult
          | some instruction =>
              rw [hCode] at hResult
              dsimp only at hResult ⊢
              cases hStep :
                  machine.window.step thread instruction with
              | split threads =>
                  rw [hStep] at hResult
                  exact ih hFewer hResult
              | accept =>
                  rw [hStep] at hResult
                  dsimp only at hResult ⊢
                  split_ifs at hResult ⊢
                  · exact ih hFewer hResult
                  · exact hResult
                  · exact ih hFewer hResult
                  · exact hResult
                  · exact ih hFewer hResult

/- A match that is not abandoned is found with more steps. -/
theorem Pattern.matchAt_agrees
    {pattern : Pattern}
    {word : WordArray}
    {start : Int}
    {request : MatchRequest}
    {more : Int}
    (hMore : request.budget ≤ more) :
    Agrees (Pattern.matchAt pattern word start request)
      (Pattern.matchAt pattern word start
        { request with budget := more }) := by
  intro result hResult
  unfold matchAt at hResult ⊢
  split at hResult
  · cases hResult
  · rename_i hMatchable
    rw [if_neg hMatchable]
    split at hResult
    · rename_i hOutside
      exact (if_pos hOutside).trans hResult
    · rename_i hInside
      refine (if_neg hInside).trans ?_
      dsimp only at hResult ⊢
      split at hResult
      · cases hResult
      · rename_i found hFound
        have hSteps : request.budget.toNat ≤ more.toNat :=
          Int.toNat_le_toNat hMore
        have hSame :
            Machine.run
              (MatchRequest.machine
                { request with budget := more } pattern word
                start.toNat)
              more.toNat more.toNat
              [MatchRequest.thread
                { request with budget := more } start.toNat]
              none =
                .ok found :=
          Machine.run_agrees hSteps found hFound
        rw [hSame]
        exact hResult

theorem Pattern.findAll_agrees
    {pattern : Pattern}
    {word : WordArray}
    {budget more : Int}
    (hMore : budget ≤ more) :
    Agrees (Pattern.findAll pattern word budget)
      (Pattern.findAll pattern word more) :=
  collect_agrees fun _ _ => Pattern.matchAt_agrees hMore

------------------------------------------------------------
-- Environments
------------------------------------------------------------

variable {site : Surroundings}
variable {bindings : Bindings}
variable {more : Int}

namespace Surroundings

/- The same surroundings, to be matched with other steps. -/
def withBudget
    (site : Surroundings)
    (budget : Int) : Surroundings :=
  { site with budget := budget }

@[simp]
theorem word_withBudget :
    (site.withBudget more).word = site.word :=
  rfl

@[simp]
theorem stop_withBudget :
    (site.withBudget more).stop = site.stop :=
  rfl

@[simp]
theorem leftStarts_withBudget :
    (site.withBudget more).leftStarts = site.leftStarts :=
  rfl

@[simp]
theorem leftRequest_withBudget :
    (site.withBudget more).leftRequest bindings =
      { site.leftRequest bindings with budget := more } :=
  rfl

@[simp]
theorem rightRequest_withBudget :
    (site.withBudget more).rightRequest bindings =
      { site.rightRequest bindings with budget := more } :=
  rfl

@[simp]
theorem anywhereRequest_withBudget
    (longest : Bool) :
    (site.withBudget more).anywhereRequest bindings longest =
      { site.anywhereRequest bindings longest with
        budget := more } :=
  rfl

end Surroundings

section Environments

variable (hMore : site.budget ≤ more)

include hMore

theorem Surroundings.leftBindings_agrees
    (left : Pattern) :
    Agrees (site.leftBindings left bindings)
      ((site.withBudget more).leftBindings left bindings) := by
  intro result hResult
  unfold leftBindings at hResult ⊢
  split at hResult
  · rename_i hEmpty
    rw [if_pos hEmpty]
    exact hResult
  · rename_i hSome
    rw [if_neg hSome]
    split at hResult
    · cases hResult
    · rename_i found hFound
      have hSame :=
        collect_agrees
          (fun _ _ => Pattern.matchAt_agrees hMore) found hFound
      simp only [word_withBudget, leftStarts_withBudget,
        leftRequest_withBudget, hSame]
      exact hResult

theorem Surroundings.rightBindings_agrees
    (right : Pattern) :
    Agrees (site.rightBindings right bindings)
      ((site.withBudget more).rightBindings right
        bindings) := by
  intro result hResult
  unfold rightBindings at hResult ⊢
  split at hResult
  · rename_i hEmpty
    rw [if_pos hEmpty]
    exact hResult
  · rename_i hSome
    rw [if_neg hSome]
    split at hResult
    · cases hResult
    · rename_i found hFound
      have hSame :=
        Pattern.matchAt_agrees hMore found hFound
      simp only [word_withBudget, stop_withBudget,
        rightRequest_withBudget, hSame]
      exact hResult

theorem Surroundings.aroundBindings_agrees
    (left right : Pattern) :
    Agrees (site.aroundBindings left right bindings)
      ((site.withBudget more).aroundBindings left right
        bindings) := by
  intro result hResult
  unfold aroundBindings at hResult ⊢
  split at hResult
  · cases hResult
  · rename_i candidates hCandidates
    rw [Surroundings.leftBindings_agrees hMore left _
      hCandidates]
    apply firstSome_agrees
    · intro candidate _
      exact Surroundings.rightBindings_agrees hMore right
    · exact hResult

theorem Surroundings.anywhereBindings_agrees
    (pattern : Pattern)
    (indices : Option (List Int)) :
    Agrees (site.anywhereBindings pattern indices bindings)
      ((site.withBudget more).anywhereBindings pattern indices
        bindings) := by
  intro result hResult
  unfold anywhereBindings at hResult ⊢
  split at hResult
  · rename_i hEmpty
    rw [if_pos hEmpty]
    exact hResult
  · rename_i hSome
    rw [if_neg hSome]
    cases indices with
    | none =>
        dsimp only at hResult ⊢
        split at hResult
        · cases hResult
        · rename_i found hFound
          have hSame :=
            firstSome_agrees
              (fun _ _ => Pattern.matchAt_agrees hMore) found
              hFound
          simp only [word_withBudget,
            anywhereRequest_withBudget, hSame]
          exact hResult
    | some indices =>
        dsimp only at hResult ⊢
        split at hResult
        · cases hResult
        · rename_i found hFound
          have hSame :=
            collect_agrees
              (fun _ _ => Pattern.matchAt_agrees hMore) found
              hFound
          simp only [word_withBudget,
            anywhereRequest_withBudget, hSame]
          exact hResult

theorem Environment.holds_agrees
    (environment : Environment) :
    Agrees (environment.holds site bindings)
      (environment.holds (site.withBudget more)
        bindings) := by
  cases environment with
  | around left right =>
      exact Surroundings.aroundBindings_agrees hMore left right
  | anywhere pattern indices =>
      exact Surroundings.anywhereBindings_agrees hMore pattern
        indices

theorem EnvironmentGroup.holds_agrees
    (group : EnvironmentGroup) :
    Agrees (EnvironmentGroup.holds site bindings group)
      (EnvironmentGroup.holds (site.withBudget more) bindings
        group) := by
  induction group generalizing bindings with
  | nil => exact fun _ hResult => hResult
  | cons environment rest ih =>
      intro result hResult
      unfold holds at hResult ⊢
      split at hResult
      · cases hResult
      · rename_i hNone
        rw [Environment.holds_agrees hMore environment _ hNone]
        exact hResult
      · rename_i next hNext
        rw [Environment.holds_agrees hMore environment _ hNext]
        exact ih result hResult

/- What is decided about a span is decided with more steps. -/
theorem anyHolds_agrees
    (groups : List EnvironmentGroup) :
    Agrees (anyHolds site bindings groups)
      (anyHolds (site.withBudget more) bindings groups) :=
  firstSome_agrees fun group _ =>
    EnvironmentGroup.holds_agrees hMore group

end Environments

end Diachrony
