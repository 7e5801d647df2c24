import Diachrony.Proofs.Run.Ending

/-
  A scan looks at each position at most once.

  A verdict replaces no more symbols than it moves past, so
  what is ahead of a scan gets shorter with each visit, no
  matter how the word around it grows or shrinks. So no scan
  looks at more positions than its word has, with the one
  at the end, and a persistent run makes no more passes than
  its bound allows.

  Key definitions include:
    * `Rule.startOf`
    * `Rule.next?`
    * `Rule.ahead`
    * `Rule.Looks`

  Key theorems include:
    * `Rule.ahead_next?`
    * `Rule.Looks.count_le`
    * `Rule.looks_of_sweep`
    * `Rule.sweep_looks_once`
-/

namespace Diachrony

namespace Rule

------------------------------------------------------------
-- Positions of a scan
------------------------------------------------------------

section Positions

variable (rule : Rule)

/- Where a scan of a word begins. -/
def startOf
    (word : Word) : Cursor where
  word := word.toArray
  pos := if rule.flags.rightToLeft then word.length else 0
  limit := word.length
  origin := if rule.flags.rightToLeft then word.length else 0

/- Where a scan looks after a visit, unless that was the last. -/
def next?
    (visit : Visit) : Option Cursor :=
  if rule.flags.rightToLeft then
    match visit.cursor.pos with
    | 0 => none
    | pos + 1 =>
        some
          { word := visit.result
            pos := pos
            limit := visit.verdict.nextLimit visit.cursor.limit
            origin := pos }
  else
    let pos := visit.cursor.pos + visit.verdict.advance
    if pos ≤ visit.result.size then
      some
        { word := visit.result
          pos := pos
          limit := visit.result.size
          origin := visit.cursor.origin + visit.verdict.consumed }
    else
      none

/- How many symbols are ahead of a scan. -/
def ahead
    (cursor : Cursor) : Nat :=
  if rule.flags.rightToLeft then
    cursor.pos
  else
    cursor.word.size - cursor.pos

end Positions

/-
  The visits of a scan that looks at a position next, in
  order, and the fault that it stops with, if any.
-/
inductive Looks
    (rule : Rule)
    (options : EngineOptions)
    (allowed : List (Option (List Nat))) :
    Cursor → List Visit → Option RunFault → Prop where
  | fails
      {cursor : Cursor}
      {fault : RunFault}
      (hFault :
        rule.judge options allowed cursor = .error fault) :
      Looks rule options allowed cursor [] (some fault)
  | ends
      {cursor : Cursor}
      {verdict : Verdict}
      (hVerdict :
        rule.judge options allowed cursor = .ok verdict)
      (hLast : rule.next? ⟨cursor, verdict⟩ = none) :
      Looks rule options allowed cursor [⟨cursor, verdict⟩] none
  | goesOn
      {cursor next : Cursor}
      {verdict : Verdict}
      {visits : List Visit}
      {fault? : Option RunFault}
      (hVerdict :
        rule.judge options allowed cursor = .ok verdict)
      (hNext : rule.next? ⟨cursor, verdict⟩ = some next)
      (hLater : Looks rule options allowed next visits fault?) :
      Looks rule options allowed cursor
        (⟨cursor, verdict⟩ :: visits) fault?

variable {rule : Rule}
variable {options : EngineOptions}
variable {allowed : List (Option (List Nat))}
variable {cursor : Cursor}
variable {verdict : Verdict}

------------------------------------------------------------
-- One visit
------------------------------------------------------------

/-
  A verdict moves past one symbol at least, and past no more
  than are left.
-/
theorem consumed_of_judge
    (hVerdict :
      rule.judge options allowed cursor = .ok verdict) :
    1 ≤ verdict.consumed ∧
      verdict.consumed ≤ max (cursor.word.size - cursor.pos) 1 := by
  rw [Verdict.consumed]
  cases hSite : verdict.site? with
  | none =>
      dsimp only
      omega
  | some site =>
      have hWithin := judge_within hVerdict hSite
      have hStart := hWithin.start_eq
      have hStop := hWithin.stop_le
      simp only [Match.length]
      omega

/-
  What a scan to the right has behind it grows by what it
  writes, and what it has ahead of it shrinks by what it
  moves past.
-/
theorem size_result
    (hVerdict :
      rule.judge options allowed cursor = .ok verdict) :
    (Visit.result ⟨cursor, verdict⟩).size + verdict.consumed =
      cursor.word.size + verdict.advance := by
  cases verdict with
  | replaced site symbols =>
      have hWithin := judge_within hVerdict rfl
      have hStart := hWithin.start_eq
      have hForward := hWithin.start_le
      have hStop := hWithin.stop_le
      have hLength :
          site.found.length =
            site.found.stop - site.found.start :=
        rfl
      simp only [Visit.result, Verdict.applyTo,
        Verdict.consumed, Verdict.site?, Verdict.advance,
        WordArray.splice, Word.splice, List.size_toArray,
        List.length_append, List.length_take, List.length_drop,
        Array.length_toList]
      split <;> omega
  | _ => rfl

/-
  With each visit there is less ahead of a scan, in both
  directions and whatever was written.
-/
theorem ahead_next?
    {next : Cursor}
    (hVerdict :
      rule.judge options allowed cursor = .ok verdict)
    (hNext : rule.next? ⟨cursor, verdict⟩ = some next) :
    rule.ahead next < rule.ahead cursor := by
  rw [next?] at hNext
  rw [ahead, ahead]
  cases hDirection : rule.flags.rightToLeft with
  | true =>
      rw [if_pos hDirection] at hNext
      rw [if_pos rfl, if_pos rfl]
      cases hPos : cursor.pos with
      | zero =>
          rw [hPos] at hNext
          cases hNext
      | succ pos =>
          rw [hPos] at hNext
          cases hNext
          exact Nat.lt_succ_self pos
  | false =>
      rw [if_neg (by rw [hDirection]; exact Bool.false_ne_true)]
        at hNext
      have hConsumed := consumed_of_judge hVerdict
      have hSize := size_result hVerdict
      rw [if_neg Bool.false_ne_true, if_neg Bool.false_ne_true]
      dsimp only at hNext
      split at hNext
      · cases hNext
        dsimp only
        omega
      · cases hNext

------------------------------------------------------------
-- All visits
------------------------------------------------------------

namespace Looks

variable {visits : List Visit}
variable {fault? : Option RunFault}

/- No visit has more ahead of it than the first. -/
theorem ahead_le
    (hLooks : rule.Looks options allowed cursor visits fault?) :
    ∀ visit ∈ visits,
      rule.ahead visit.cursor ≤ rule.ahead cursor := by
  induction hLooks with
  | fails =>
      intro visit hVisit
      cases hVisit
  | ends =>
      intro visit hVisit
      obtain rfl := List.mem_singleton.mp hVisit
      exact Nat.le_refl _
  | goesOn hVerdict hNext _ ih =>
      have hLess := ahead_next? hVerdict hNext
      intro visit hVisit
      rcases List.mem_cons.mp hVisit with rfl | hLater
      · exact Nat.le_refl _
      · exact Nat.le_trans (ih visit hLater)
          (Nat.le_of_lt hLess)

/- Each visit has less ahead of it than those before. -/
theorem pairwise_ahead
    (hLooks : rule.Looks options allowed cursor visits fault?) :
    visits.Pairwise fun visit later =>
      rule.ahead later.cursor < rule.ahead visit.cursor := by
  induction hLooks with
  | fails => exact List.Pairwise.nil
  | ends => exact List.pairwise_singleton _ _
  | goesOn hVerdict hNext hLater ih =>
      refine List.Pairwise.cons ?_ ih
      intro visit hVisit
      exact Nat.lt_of_le_of_lt (hLater.ahead_le visit hVisit)
        (ahead_next? hVerdict hNext)

/-
  No more positions are looked at than are ahead, with the
  one that the scan begins at.
-/
theorem count_le
    (hLooks : rule.Looks options allowed cursor visits fault?) :
    visits.length + fault?.toList.length ≤
      rule.ahead cursor + 1 := by
  induction hLooks with
  | fails => exact Nat.le_add_left _ _
  | ends => exact Nat.le_add_left _ _
  | goesOn hVerdict hNext _ ih =>
      have hLess := ahead_next? hVerdict hNext
      rw [List.length_cons]
      omega

end Looks

------------------------------------------------------------
-- Whole scans
------------------------------------------------------------

/-
  The visits of a scan to the right that has a number of
  symbols left.
-/
theorem looks_of_visitsRight
    (hRight : rule.flags.rightToLeft = false)
    (word : WordArray)
    (pos origin left : Nat)
    (hSize : word.size = pos + left) :
    ∃ visits fault?,
      rule.Looks options allowed
          { word := word
            pos := pos
            limit := word.size
            origin := origin }
          visits fault? ∧
        rule.visitsRight options allowed word pos origin left =
          fault?.elim (.ok visits) .error := by
  induction left using Nat.strongRecOn
    generalizing word pos origin with
  | _ left ih =>
  rw [visitsRight]
  cases hVerdict :
      rule.judgeRight options allowed word pos origin with
  | error fault =>
      exact ⟨[], some fault, Looks.fails hVerdict, rfl⟩
  | ok verdict =>
      have hConsumed := consumed_of_judge hVerdict
      have hResult := size_result hVerdict
      dsimp only at hConsumed hResult
      cases left with
      | zero =>
          refine ⟨_, none, Looks.ends hVerdict ?_, rfl⟩
          rw [next?, hRight, if_neg Bool.false_ne_true]
          refine if_neg ?_
          dsimp only
          omega
      | succ left =>
          rcases ih (left - (verdict.consumed - 1)) (by omega)
              (visitRight word pos origin verdict).result
              (pos + verdict.advance)
              (origin + verdict.consumed)
              (by rw [visitRight]; omega) with
            ⟨visits, fault?, hLooks, hVisits⟩
          have hNext :
              rule.next? (visitRight word pos origin verdict) =
                some
                  { word :=
                      (visitRight word pos origin verdict).result
                    pos := pos + verdict.advance
                    limit :=
                      (visitRight word pos origin
                        verdict).result.size
                    origin := origin + verdict.consumed } := by
            rw [next?, hRight, if_neg Bool.false_ne_true]
            refine if_pos ?_
            rw [visitRight]
            dsimp only
            omega
          refine ⟨_, fault?, Looks.goesOn hVerdict hNext hLooks,
            ?_⟩
          dsimp only
          rw [hVisits]
          cases fault? <;> rfl

/- The visits of a scan to the left that looks at a position. -/
theorem looks_of_visitsLeft
    (hLeft : rule.flags.rightToLeft = true)
    (word : WordArray)
    (limit pos : Nat) :
    ∃ visits fault?,
      rule.Looks options allowed
          { word := word
            pos := pos
            limit := limit
            origin := pos }
          visits fault? ∧
        rule.visitsLeft options allowed word limit pos =
          fault?.elim (.ok visits) .error := by
  induction pos generalizing word limit with
  | zero =>
      rw [visitsLeft]
      cases hVerdict :
          rule.judgeLeft options allowed word limit 0 with
      | error fault =>
          exact ⟨[], some fault, Looks.fails hVerdict, rfl⟩
      | ok verdict =>
          refine ⟨_, none, Looks.ends hVerdict ?_, rfl⟩
          rw [next?, if_pos hLeft]
  | succ pos ih =>
      rw [visitsLeft]
      cases hVerdict :
          rule.judgeLeft options allowed word limit
            (pos + 1) with
      | error fault =>
          exact ⟨[], some fault, Looks.fails hVerdict, rfl⟩
      | ok verdict =>
          rcases ih (visitLeft word limit (pos + 1) verdict).result
              (verdict.nextLimit limit) with
            ⟨visits, fault?, hLooks, hVisits⟩
          refine ⟨_, fault?,
            Looks.goesOn hVerdict ?_ hLooks, ?_⟩
          · rw [next?, if_pos hLeft]
            rfl
          · dsimp only
            rw [hVisits]
            cases fault? <;> rfl

/-
  A scan is the visits that begin at its start, or the fault
  that they stop with.
-/
theorem looks_of_sweep
    (word : Word)
    (hAllowed :
      rule.allowedStarts options.maxMatchSteps word.toArray =
        .ok allowed) :
    ∃ visits fault?,
      rule.Looks options allowed (rule.startOf word)
          visits fault? ∧
        rule.sweep options word =
          fault?.elim (.ok (Sweep.ofVisits visits word))
            .error := by
  have hVisits :
      ∃ visits fault?,
        rule.Looks options allowed (rule.startOf word)
            visits fault? ∧
          rule.visits options word =
            fault?.elim (.ok visits) .error := by
    rw [Rule.visits, hAllowed, startOf]
    cases hDirection : rule.flags.rightToLeft with
    | true =>
        exact looks_of_visitsLeft hDirection word.toArray
          word.length word.length
    | false =>
        exact looks_of_visitsRight hDirection word.toArray 0 0
          word.length (Nat.zero_add _).symm
  rcases hVisits with ⟨visits, fault?, hLooks, hVisits⟩
  refine ⟨visits, fault?, hLooks, ?_⟩
  rw [sweep_eq, hVisits]
  cases fault? <;> rfl

/- A scan counts the positions that it looks at. -/
theorem examined_ofVisits
    (visits : List Visit)
    (word : Word) :
    (Sweep.ofVisits visits word).examined = visits.length := by
  induction visits generalizing word with
  | nil => rfl
  | cons visit visits ih =>
      rw [List.length_cons, ← ih visit.result.toList]
      rfl

------------------------------------------------------------
-- Runs
------------------------------------------------------------

section Runs

variable {bound : Int}
variable {outcome last : RuleOutcome}
variable {seen : List Form}
variable {word : Word}

/- A run makes one pass at least, and no more than are left. -/
theorem passes_of_runPasses
    {left : Nat}
    (hRun :
      rule.runPasses options bound left seen outcome =
        .ok last) :
    outcome.passes < last.passes ∧
      last.passes ≤ outcome.passes + 1 + left := by
  induction left using Nat.strongRecOn
    generalizing seen outcome with
  | _ left ih =>
  rcases runPasses_cases hRun with
    ⟨next, changed, hPass, hEnd⟩
  rcases pass_cases hPass with ⟨sweep, hSweep, rfl, rfl⟩
  have hNext :
      (outcome.addSweep rule sweep).passes =
        outcome.passes + 1 :=
    rfl
  rcases hEnd with ⟨_, rfl⟩ | ⟨_, _, _, rfl⟩ |
    ⟨_, _, rfl, hEnd⟩ | ⟨_, _, fewer, rfl, hMore⟩
  · change _ < (outcome.addSweep rule sweep).passes ∧
      (outcome.addSweep rule sweep).passes ≤ _
    omega
  · change _ < (outcome.addSweep rule sweep).passes ∧
      (outcome.addSweep rule sweep).passes ≤ _
    omega
  · have hLast :
        last.passes = (outcome.addSweep rule sweep).passes := by
      rcases endAtBound_cases hEnd with
        ⟨_, _, ⟨_, rfl⟩ | ⟨_, rfl⟩⟩ <;> rfl
    omega
  · have hLater := ih fewer (Nat.lt_succ_self _) hMore
    omega

/-
  A persistent run makes one pass at least and no more than
  its bound allows. Only where it allows none and invariants
  are checked, the run is refused.
-/
theorem run_within_bound
    (hPersistent : rule.flags.persistent = true)
    (hMatchable : rule.matchable = true)
    (word : Word) :
    (options.strict = true ∧
        rule.flags.passBound options.maxPasses < 1 →
      rule.run options word =
        .error (.violation
          (.passesBeyond 1
            (rule.flags.passBound options.maxPasses)))) ∧
      (¬(options.strict = true ∧
          rule.flags.passBound options.maxPasses < 1) →
        ∃ outcome,
          rule.run options word = .ok outcome ∧
            1 ≤ outcome.passes ∧
            outcome.passes ≤
              max (rule.flags.passBound options.maxPasses)
                1) := by
  rw [run_of_persistent hPersistent]
  constructor
  · intro hNone
    rw [runPasses]
    exact if_pos hNone
  · intro hSome
    have hLeft :
        options.strict = true →
          ((0 + 1 +
            ((rule.flags.passBound options.maxPasses).toNat -
              1) : Nat) : Int) ≤
            rule.flags.passBound options.maxPasses := by
      intro hStrict
      have hBound :
          1 ≤ rule.flags.passBound options.maxPasses :=
        Int.not_lt.mp fun hBelow => hSome ⟨hStrict, hBelow⟩
      omega
    obtain ⟨outcome, hRun⟩ :
        ∃ outcome,
          rule.runPasses options
              (rule.flags.passBound options.maxPasses)
              ((rule.flags.passBound options.maxPasses).toNat - 1)
              [Form.ofWord word] { word := word } =
            .ok outcome :=
      exists_runPasses hMatchable hLeft _
    have hPasses := passes_of_runPasses hRun
    refine ⟨outcome, hRun, hPasses.1, ?_⟩
    have hLast := hPasses.2
    dsimp only at hLast
    omega

end Runs

/-
  A scan of a rule over a word is a sequence of visits. Each
  has less ahead of it than the one before, so that no more
  than all positions of the word are looked at, however long
  the replacements are and whether or not the scan comes to
  a result. A rule that can be matched gets one, and a
  persistent run of it ends within its bound.
-/
theorem sweep_looks_once
    (rule : Rule)
    (options : EngineOptions)
    (word : Word) :
    (∀ allowed,
      rule.allowedStarts options.maxMatchSteps word.toArray =
          .ok allowed →
        ∃ visits fault?,
          rule.Looks options allowed (rule.startOf word)
              visits fault? ∧
            rule.sweep options word =
              fault?.elim (.ok (Sweep.ofVisits visits word))
                .error ∧
            (Sweep.ofVisits visits word).examined =
              visits.length ∧
            visits.length + fault?.toList.length ≤
              word.length + 1 ∧
            visits.Pairwise fun visit later =>
              rule.ahead later.cursor <
                rule.ahead visit.cursor) ∧
      (rule.matchable = true →
        (∃ sweep, rule.sweep options word = .ok sweep) ∧
          (rule.flags.persistent = true →
            let bound := rule.flags.passBound options.maxPasses
            (options.strict = true ∧ bound < 1 →
              rule.run options word =
                .error (.violation (.passesBeyond 1 bound))) ∧
              (¬(options.strict = true ∧ bound < 1) →
                ∃ outcome,
                  rule.run options word = .ok outcome ∧
                    1 ≤ outcome.passes ∧
                    outcome.passes ≤ max bound 1))) := by
  refine ⟨?_, ?_⟩
  · intro allowed hAllowed
    rcases looks_of_sweep word hAllowed with
      ⟨visits, fault?, hLooks, hSweep⟩
    have hStart : rule.ahead (rule.startOf word) = word.length := by
      rw [ahead, startOf]
      cases rule.flags.rightToLeft with
      | true => rfl
      | false => rfl
    refine ⟨visits, fault?, hLooks, hSweep,
      examined_ofVisits visits word, ?_, hLooks.pairwise_ahead⟩
    rw [← hStart]
    exact hLooks.count_le
  · intro hMatchable
    exact ⟨exists_sweep hMatchable word, fun hPersistent =>
      run_within_bound hPersistent hMatchable word⟩

end Rule

/- Write each `a` twice, again and again. -/
def doublingRule : Rule where
  branches := [ { target := [.literal "a"] } ]
  predicates :=
    [ { replacements := [[.literal "a", .literal "a"]] } ]
  flags := { persistent := true, maxPasses := some 3 }
  source := "a > a a"

/-
  The word has grown when the scan gets to its end, but what
  was written is not looked at. The run stops at its bound.
-/
theorem doublingRule_looks_once :
    ∃ visits outcome,
      doublingRule.Looks {} [none]
          (doublingRule.startOf ["a", "b", "a"]) visits none ∧
        doublingRule.sweep {} ["a", "b", "a"] =
          .ok (Sweep.ofVisits visits ["a", "b", "a"]) ∧
        (Sweep.ofVisits visits ["a", "b", "a"]).word =
          ["a", "a", "b", "a", "a"] ∧
        visits.length = 4 ∧
        (visits.Pairwise fun visit later =>
          doublingRule.ahead later.cursor <
            doublingRule.ahead visit.cursor) ∧
        doublingRule.run {} ["a", "b", "a"] = .ok outcome ∧
        1 ≤ outcome.passes ∧
        outcome.passes ≤ 3 := by
  have hAllowed :
      doublingRule.allowedStarts
          ({} : EngineOptions).maxMatchSteps
          (["a", "b", "a"] : Word).toArray =
        .ok [none] := by
    decide +kernel
  have hSwept :
      (doublingRule.sweep {} ["a", "b", "a"]).toOption.map
          (fun sweep => (sweep.word, sweep.examined)) =
        some (["a", "a", "b", "a", "a"], 4) := by
    decide +kernel
  have hOnce :=
    Rule.sweep_looks_once doublingRule {} ["a", "b", "a"]
  rcases hOnce.1 _ hAllowed with
    ⟨visits, fault?, hLooks, hSweep, hExamined, -, hShrinks⟩
  rcases (hOnce.2 (by decide)).2 rfl with ⟨-, hRuns⟩
  rcases hRuns (by decide) with ⟨outcome, hRun, hFirst, hLast⟩
  change (outcome.passes : Int) ≤ 3 at hLast
  rw [hSweep] at hSwept
  cases fault? with
  | some fault => cases hSwept
  | none =>
      simp only [Option.elim_none, Except.toOption,
        Option.map_some, Option.some.injEq,
        Prod.mk.injEq] at hSwept
      exact ⟨visits, outcome, hLooks, hSweep, hSwept.1,
        hExamined.symm.trans hSwept.2, hShrinks, hRun, hFirst,
        Int.ofNat_le.mp hLast⟩

end Diachrony
