import Diachrony.Proofs.Matching.Choices
import Diachrony.Proofs.Matching.Contexts
import Diachrony.Proofs.Scan.Environments

/-
  Disciplined bindings through environments.

  Environments match their patterns one after another and
  hand the bindings on. So what one match leaves alone, a
  group of environments leaves alone, and what one match
  sets is set to the position of a member. In particular a
  tag that the target has bound stays bound to the same,
  whatever the environments match.

  Key definitions include:
    * `AcceptedInTurn`
    * `DisciplinedInTurn`

  Key theorems include:
    * `MatchedInTurn.exists_accepted`
    * `AcceptedInTurn.disciplined`
    * `bindings_disciplined`
-/

namespace Diachrony

/-
  Patterns are matched in a word one after another, each
  along a way that it accepts, and lead from some bindings
  to others. An empty pattern is passed.
-/
inductive AcceptedInTurn
    (word : WordArray) :
    List Pattern → Bindings → List Choice → Bindings → Prop where
  | done
      {bindings : Bindings} :
      AcceptedInTurn word [] bindings [] bindings
  | passed
      {rest : List Pattern}
      {bindings last : Bindings}
      {choices : List Choice} :
      AcceptedInTurn word rest bindings choices last →
        AcceptedInTurn word ([] :: rest) bindings choices last
  | accepted
      {pattern : Pattern}
      {rest : List Pattern}
      {bindings last : Bindings}
      {request : MatchRequest}
      {start : Nat}
      {found : Match}
      {choices more : List Choice} :
      request.bindings = bindings →
      Pattern.matchAt pattern word start request =
          .ok (some found) →
      pattern.Accepts word start request choices found →
      AcceptedInTurn word rest found.bindings more last →
        AcceptedInTurn word (pattern :: rest) bindings
          (choices ++ more) last

/- The references of some patterns. -/
def refsOf
    (patterns : List Pattern) : List CategoryRef :=
  patterns.flatMap Pattern.categoryRefs

/-
  Patterns that were matched one after another have lead to
  disciplined bindings along each way that they accept.
-/
def DisciplinedInTurn
    (word : WordArray)
    (patterns : List Pattern)
    (given later : Bindings) : Prop :=
  (∃ choices,
    AcceptedInTurn word patterns given choices later) ∧
    ∀ choices,
      AcceptedInTurn word patterns given choices later →
        Disciplined (refsOf patterns) given choices later

section Turns

variable {word : WordArray}
variable {patterns : List Pattern}
variable {given later : Bindings}

/- Patterns that are matched are matched along some way. -/
theorem MatchedInTurn.exists_accepted
    (hMatched : MatchedInTurn word patterns given later) :
    ∃ choices,
      AcceptedInTurn word patterns given choices later := by
  induction hMatched with
  | done => exact ⟨[], AcceptedInTurn.done⟩
  | passed _ ih =>
      rcases ih with ⟨choices, hRest⟩
      exact ⟨choices, AcceptedInTurn.passed hRest⟩
  | matched hBindings hFound _ ih =>
      rcases ih with ⟨more, hRest⟩
      rcases Pattern.exists_accepts hFound with
        ⟨-, choices, hAccepts⟩
      exact ⟨choices ++ more, AcceptedInTurn.accepted
        hBindings hFound hAccepts hRest⟩

/- Each way through some patterns leaves disciplined bindings. -/
theorem AcceptedInTurn.disciplined
    {refs : List CategoryRef}
    {choices : List Choice}
    (hUnmixed : CategoryRef.Unmixed refs)
    (hRefs :
      ∀ pattern ∈ patterns,
        Pattern.categoryRefs pattern ⊆ refs)
    (hAccepted :
      AcceptedInTurn word patterns given choices later) :
    Disciplined refs given choices later := by
  induction hAccepted with
  | done => exact Disciplined.nothing
  | passed _ ih =>
      exact ih (List.forall_mem_cons.mp hRefs).2
  | accepted hBindings _ hAccepts _ ih =>
      rcases List.forall_mem_cons.mp hRefs with ⟨hHere, hLater⟩
      subst hBindings
      exact (hAccepts.disciplined hUnmixed hHere).append
        (ih hLater)

theorem MatchedInTurn.disciplinedInTurn
    (hUnmixed : CategoryRef.Unmixed (refsOf patterns))
    (hMatched : MatchedInTurn word patterns given later) :
    DisciplinedInTurn word patterns given later := by
  refine ⟨hMatched.exists_accepted, ?_⟩
  intro choices hAccepted
  refine hAccepted.disciplined hUnmixed ?_
  intro pattern hPattern ref hRef
  exact List.mem_flatMap.mpr ⟨pattern, hPattern, hRef⟩

end Turns

/-
  A tag that is bound before keeps its value through each
  group that uses its slot with tags only.
-/
theorem tags_kept_of_anyHolds
    {site : Surroundings}
    {groups : List EnvironmentGroup}
    {refs : List CategoryRef}
    {given later : Bindings}
    (hUnmixed :
      ∀ group ∈ groups,
        CategoryRef.Unmixed
          (refs ++
            refsOf (group.flatMap Environment.patterns)))
    (hHolds : anyHolds site given groups = .ok (some later)) :
    ∀ ref ∈ refs, ref.explicit = true →
      ∀ slot position, ref.slot = some slot →
        given.get? slot = some position →
          later.get? slot = some position := by
  intro ref hRef
  rcases exists_of_firstSome hHolds with ⟨group, hGroup, hHolds⟩
  rcases (EnvironmentGroup.matchedInTurn hHolds).exists_accepted
    with ⟨choices, hAccepted⟩
  have hDisciplined :=
    hAccepted.disciplined (hUnmixed group hGroup)
      fun pattern hPattern other hOther =>
        List.mem_append_right refs
          (List.mem_flatMap.mpr ⟨pattern, hPattern, hOther⟩)
  exact hDisciplined.tags_kept ref (List.mem_append_left _ hRef)

/-
  The discipline of bindings. Where no slot is used with a
  tag and without one, a match keeps bound tags and foreign
  slots, sets a slot to the position of a member only, and
  lets all references with one tag match what it is bound to
  in the end. Environments, groups of them and alternative
  groups do so as well, so that they leave each tag as the
  target has bound it.
-/
theorem bindings_disciplined :
    (∀ (pattern : Pattern) (word : WordArray) (start : Int)
        (request : MatchRequest) (found : Match),
      CategoryRef.Unmixed pattern.categoryRefs →
        Pattern.matchAt pattern word start request =
            .ok (some found) →
          (∃ choices,
            pattern.Accepts word start.toNat request choices
              found) ∧
            ∀ choices,
              pattern.Accepts word start.toNat request choices
                  found →
                Disciplined pattern.categoryRefs
                  request.bindings choices found.bindings) ∧
      (∀ (site : Surroundings) (environment : Environment)
          (given later : Bindings),
        CategoryRef.Unmixed (refsOf environment.patterns) →
          environment.holds site given = .ok (some later) →
            DisciplinedInTurn site.word environment.patterns
              given later) ∧
      (∀ (site : Surroundings) (group : EnvironmentGroup)
          (given later : Bindings),
        CategoryRef.Unmixed
            (refsOf (group.flatMap Environment.patterns)) →
          group.holds site given = .ok (some later) →
            DisciplinedInTurn site.word
              (group.flatMap Environment.patterns)
              given later) ∧
      (∀ (site : Surroundings)
          (groups : List EnvironmentGroup)
          (given later : Bindings),
        (∀ group ∈ groups,
          CategoryRef.Unmixed
            (refsOf (group.flatMap Environment.patterns))) →
          anyHolds site given groups = .ok (some later) →
            ∃ group ∈ groups,
              DisciplinedInTurn site.word
                (group.flatMap Environment.patterns)
                given later) ∧
      ∀ (target : Pattern) (word : WordArray) (start : Nat)
          (request : MatchRequest) (choices : List Choice)
          (found : Match) (site : Surroundings)
          (groups : List EnvironmentGroup)
          (later : Bindings),
        (∀ group ∈ groups,
          CategoryRef.Unmixed
            (target.categoryRefs ++
              refsOf (group.flatMap Environment.patterns))) →
          CategoryRef.Unmixed target.categoryRefs →
            target.Accepts word start request choices found →
              anyHolds site found.bindings groups =
                  .ok (some later) →
                (∀ ref ∈ target.categoryRefs,
                  ref.explicit = true →
                    ∀ slot position, ref.slot = some slot →
                      found.bindings.get? slot =
                          some position →
                        later.get? slot = some position) ∧
                  ∀ choice ∈ choices,
                    choice.ref.explicit = true →
                      ∀ slot, choice.ref.slot = some slot →
                        later.get? slot =
                          some (choice.position : Int) := by
  refine ⟨?_, ?_, ?_, ?_, ?_⟩
  · intro pattern word start request found hUnmixed hFound
    refine ⟨(Pattern.exists_accepts hFound).2, ?_⟩
    intro choices hAccepts
    exact hAccepts.disciplined hUnmixed
      (List.Subset.refl _)
  · intro site environment given later hUnmixed hHolds
    exact (Environment.matchedInTurn hHolds).disciplinedInTurn
      hUnmixed
  · intro site group given later hUnmixed hHolds
    exact (EnvironmentGroup.matchedInTurn
      hHolds).disciplinedInTurn hUnmixed
  · intro site groups given later hUnmixed hHolds
    rcases exists_of_firstSome hHolds with ⟨group, hGroup, hHolds⟩
    exact ⟨group, hGroup, (EnvironmentGroup.matchedInTurn
      hHolds).disciplinedInTurn (hUnmixed group hGroup)⟩
  · intro target word start request choices found site groups
      later hUnmixed hTarget hAccepts hHolds
    have hKept := tags_kept_of_anyHolds hUnmixed hHolds
    have hDisciplined :=
      hAccepts.disciplined hTarget (List.Subset.refl _)
    refine ⟨hKept, ?_⟩
    intro choice hChoice hTag slot hSlot
    exact hKept choice.ref (hDisciplined.chosen choice hChoice).1
      hTag slot _ hSlot
      (hDisciplined.tags_agree choice hChoice hTag slot hSlot)

/-
  The target binds a tag, of which it has two occurrences,
  and the environment passes over another vowel to the one
  that is bound.
-/
theorem taggedVowel_disciplined :
    let vowel := taggedVowel "^1"
    let target : Pattern :=
      [.category vowel, .literal "t", .category vowel]
    let right : Pattern := [.gap false, .category vowel]
    let word : WordArray := #["i", "t", "i", "k", "a", "i"]
    let found : Match :=
      { start := 0, stop := 3, bindings := [("^1", 1)] }
    let site : Surroundings :=
      { word := word
        start := 0
        stop := 3
        target := ["i", "t", "i"] }
    let groups : List EnvironmentGroup :=
      [[.around [] right]]
    Pattern.matchAt target word 0 {} = .ok (some found) ∧
      anyHolds site found.bindings groups =
        .ok (some [("^1", 1)]) ∧
      (∃ choices,
        target.Accepts word 0 {} choices found ∧
          Disciplined target.categoryRefs [] choices
            found.bindings ∧
          ∀ choice ∈ choices,
            choice.ref.explicit = true →
              ∀ slot, choice.ref.slot = some slot →
                Bindings.get? [("^1", 1)] slot =
                  some (choice.position : Int)) ∧
      ∃ group ∈ groups,
        DisciplinedInTurn word
          (group.flatMap Environment.patterns)
          found.bindings [("^1", 1)] := by
  intro vowel target right word found site groups
  have hFound :
      Pattern.matchAt target word 0 {} = .ok (some found) := by
    decide +kernel
  have hHolds :
      anyHolds site found.bindings groups =
        .ok (some [("^1", 1)]) := by
    decide +kernel
  have hTarget : CategoryRef.Unmixed target.categoryRefs :=
    CategoryRef.unmixed_of_tags (by decide)
  have hGroups :
      ∀ group ∈ groups,
        CategoryRef.Unmixed
          (refsOf (group.flatMap Environment.patterns)) :=
    fun group hGroup => CategoryRef.unmixed_of_tags
      ((by decide :
        ∀ group ∈ groups,
          ∀ ref ∈ refsOf
              (group.flatMap Environment.patterns),
            ref.explicit = true) group hGroup)
  have hBoth :
      ∀ group ∈ groups,
        CategoryRef.Unmixed
          (target.categoryRefs ++
            refsOf (group.flatMap Environment.patterns)) :=
    fun group hGroup => CategoryRef.unmixed_of_tags
      ((by decide :
        ∀ group ∈ groups,
          ∀ ref ∈ target.categoryRefs ++ refsOf
              (group.flatMap Environment.patterns),
            ref.explicit = true) group hGroup)
  rcases bindings_disciplined with
    ⟨hMatches, -, -, hGroupsKeep, hTags⟩
  rcases hMatches target word 0 {} found hTarget hFound with
    ⟨⟨choices, hAccepts⟩, hDisciplined⟩
  exact ⟨hFound, hHolds,
    ⟨choices, hAccepts, hDisciplined choices hAccepts,
      (hTags target word 0 {} choices found site groups _ hBoth
        hTarget hAccepts hHolds).2⟩,
    hGroupsKeep site groups found.bindings _ hGroups hHolds⟩

end Diachrony
