import Diachrony.Proofs.Run.Lockstep
import Diachrony.Proofs.Scan.Laziness

/-
  Runs with and without lazy marks.

  A run depends on what its scans come to, and on the name
  of its rule only in what it reports. So a rule whose scans
  come to the same in every word that is scanned runs in
  parallel. Rules without references that differ in lazy
  marks of what they test for are such rules, if no match is
  abandoned in their scans.

  Key definitions include:
    * `RuleOutcome.Parallel`
    * `Rule.DecidesRun`

  Key theorems include:
    * `Rule.run_parallel`
    * `Rule.run_eager`
    * `lazyMarks_immaterial`
-/

namespace Diachrony

------------------------------------------------------------
-- Parallel outcomes
------------------------------------------------------------

/-
  Outcomes with the same word and the same changes, at the
  same point of a run. Their records may name other rules,
  and other diagnostics may be attached to them.
-/
structure RuleOutcome.Parallel
    (one other : RuleOutcome) : Prop where
  word_eq : one.word = other.word
  edits_eq : one.edits = other.edits
  passes_eq : one.passes = other.passes
  stopReason_eq : one.stopReason = other.stopReason

------------------------------------------------------------
-- Runs
------------------------------------------------------------

namespace Rule

/-
  No match is abandoned by a rule in the scans of a run that
  another one makes.
-/
def DecidesRun
    (rule one : Rule)
    (options : EngineOptions)
    (word : Word)
    (outcome : RuleOutcome) : Prop :=
  ∀ scanned, one.Scans options word outcome scanned →
    ∀ visits, one.visits options scanned = .ok visits →
      rule.DecidesScan options scanned visits

variable {one other : Rule}
variable {options : EngineOptions}
variable {word : Word}
variable {first : RuleOutcome}

/-
  A rule that scans every word of a run with the same result
  runs in parallel.
-/
theorem run_parallel
    (hFlags : one.flags = other.flags)
    (hRun : one.run options word = .ok first)
    (hAgrees :
      ∀ scanned, one.Scans options word first scanned →
        Agrees (one.sweep options scanned)
          (other.sweep options scanned)) :
    ∃ second,
      other.run options word = .ok second ∧
        second.Parallel first := by
  obtain ⟨second, hSecond, hSame⟩ :
      ∃ second,
        other.run options word = .ok second ∧
          one.InStep other options word first second := by
    apply run_inStep (by rw [hFlags]) (by rw [hFlags]) hRun
    intro scanned hScans _ sweep hSweep
    exact
      ⟨sweep, hAgrees scanned hScans sweep hSweep, rfl, rfl⟩
  refine ⟨second, hSecond, ?_⟩
  exact
    { word_eq := hSame.word_eq hRun hSecond
      edits_eq := by
        apply hSame.edits_eq hRun hSecond
        intro i hPass sweep twin hSweep hTwin
        have hOther :=
          hAgrees _ (.inl ⟨i, hPass, rfl⟩) sweep hSweep
        cases hTwin.symm.trans hOther
        rfl
      passes_eq := hSame.passes_eq
      stopReason_eq := hSame.stopReason_eq }

/-
  Rules without references in what they test for that differ
  in lazy marks run in parallel, if no match is abandoned in
  the scans of the run.
-/
theorem run_eager
    (hAlike : one.AlikeButLazy other)
    (hFree : one.testedRefs = [])
    (hRun : one.run options word = .ok first)
    (hOne : one.DecidesRun one options word first)
    (hOther : other.DecidesRun one options word first) :
    ∃ second,
      other.run options word = .ok second ∧
        second.Parallel first := by
  apply run_parallel hAlike.flags hRun
  intro scanned hScans sweep hSweep
  have hVisits := hSweep
  rw [sweep_eq] at hVisits
  cases hSome : one.visits options scanned with
  | error fault =>
      rw [hSome] at hVisits
      cases hVisits
  | ok visits =>
      rw [sweep_eager hAlike hFree hSome
        (hOne scanned hScans visits hSome)
        (hOther scanned hScans visits hSome)]
      exact hSweep

end Rule

------------------------------------------------------------
-- Lazy marks
------------------------------------------------------------

/-
  Patterns that differ in lazy marks match in the same
  places, and their longest matches end in the same places,
  unless a match is abandoned. So rules without references
  that differ in lazy marks of what they test for write the
  same word by the same changes.
-/
theorem lazyMarks_immaterial :
    (∀ (one other : Pattern)
        (word : WordArray)
        (start : Int)
        (request : MatchRequest),
      Pattern.eager one = Pattern.eager other →
      ¬Abandoned (Pattern.matchAt one word start request) →
      ¬Abandoned (Pattern.matchAt other word start request) →
        (Pattern.matchAt one word start request).map
              Option.isSome =
            (Pattern.matchAt other word start request).map
              Option.isSome ∧
          (request.longest = true →
            (Pattern.matchAt one word start request).map
                (Option.map Match.stop) =
              (Pattern.matchAt other word start request).map
                (Option.map Match.stop))) ∧
    ∀ (one other : Rule)
        (options : EngineOptions)
        (word : Word)
        (first : RuleOutcome),
      one.AlikeButLazy other →
      one.testedRefs = [] →
      one.run options word = .ok first →
      one.DecidesRun one options word first →
      other.DecidesRun one options word first →
        ∃ second,
          other.run options word = .ok second ∧
            second.word = first.word ∧
            second.edits = first.edits := by
  constructor
  · intro one other word start request hSame hOne hOther
    rcases Pattern.matchAt_outcomes hSame word start request
      with hConcur | ⟨result, reply, hResult, hReply⟩
    · rw [hConcur.eq hOne hOther]
      exact ⟨rfl, fun _ => rfl⟩
    · rcases Pattern.matchAt_eager hSame hResult hReply with
        ⟨hSome, hStops⟩
      rw [hResult, hReply]
      exact ⟨congrArg Except.ok hSome,
        fun hLongest => congrArg Except.ok (hStops hLongest)⟩
  · intro one other options word first hAlike hFree hRun hOne
      hOther
    rcases Rule.run_eager hAlike hFree hRun hOne hOther with
      ⟨second, hSecond, hParallel⟩
    exact ⟨second, hSecond, hParallel.word_eq,
      hParallel.edits_eq⟩

/-
  A symbol up to another one becomes a third, before a
  certain symbol and not if there is another in the word.
-/
def spanRule
    (isLazy : Bool) : Rule where
  branches :=
    [ { target :=
          [.literal "a", .gap isLazy, .literal "b"] } ]
  predicates :=
    [ { replacements := [[.literal "x"]]
        environments :=
          [[.around [] [.gap isLazy, .literal "c"]]]
        exceptions :=
          [[.anywhere [.literal "d", .gap isLazy] none]] } ]

/- The rule decides what it does where its twin looks. -/
theorem spanRule_decidesRun
    (isLazy : Bool) :
    let options : EngineOptions := { maxMatchSteps := 30 }
    let word : Word := ["a", "b", "b", "c"]
    ∀ outcome, outcome.passes = 1 →
      (spanRule isLazy).DecidesRun (spanRule false) options
        word outcome := by
  intro options word outcome hPasses scanned hScans visits
    hVisits
  have hDecides :
      ∀ visits ∈
          ((spanRule false).visits options word).toOption,
        (spanRule isLazy).DecidesScan options word visits := by
    cases isLazy <;> decide +kernel
  rcases hScans with ⟨i, hi, rfl⟩ | ⟨hPersistent, _⟩
  · obtain rfl : i = 0 := by omega
    rw [Function.iterate_zero, id_eq] at hVisits ⊢
    apply hDecides
    rw [hVisits]
    rfl
  · cases hPersistent

theorem spanRule_parallel :
    let options : EngineOptions := { maxMatchSteps := 30 }
    let word : Word := ["a", "b", "b", "c"]
    (Pattern.matchAt [.literal "a", .gap true] #["a", "b"] 0
        {}).map (Option.map Match.stop) =
      .ok (some 2) ∧
    ∃ second,
      (spanRule true).run options word = .ok second ∧
        second.word = ["x", "c"] ∧
        second.edits =
          [ { start := 0
              stop := 3
              before := word
              after := ["x", "c"] } ] := by
  intro options word
  have hGreedy :
      Pattern.matchAt [.literal "a", .gap false] #["a", "b"] 0
          {} =
        .ok (some { start := 0, stop := 2, bindings := [] }) := by
    decide +kernel
  have hRun :
      (spanRule false).run options word =
        .ok
          { word := ["x", "c"]
            changes :=
              [ { rule := "rule #0"
                  start := 0
                  stop := 3
                  before := word
                  after := ["x", "c"]
                  pass := 1 } ]
            passes := 1
            examined := 3 } := by
    decide +kernel
  constructor
  · have hStops :=
      (lazyMarks_immaterial.1 [.literal "a", .gap false]
        [.literal "a", .gap true] #["a", "b"] 0 {} rfl
        (by decide +kernel) (by decide +kernel)).2 rfl
    rw [hGreedy] at hStops
    exact hStops.symm
  · exact
      lazyMarks_immaterial.2 (spanRule false) (spanRule true)
        options word _ ⟨rfl, rfl, rfl, rfl⟩ rfl hRun
        (spanRule_decidesRun false _ rfl)
        (spanRule_decidesRun true _ rfl)

end Diachrony
