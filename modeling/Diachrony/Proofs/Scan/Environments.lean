import Diachrony.Proofs.Matching.Candidates
import Diachrony.Proofs.Matching.Members
import Diachrony.Proofs.Scan.Visits
import Diachrony.Proofs.Source.AsRead

/-
  Bindings through environments.

  When a group of environments holds, its patterns have been
  matched one after another, each somewhere in the word and
  with the bindings that the one before has left. So a tag
  that a pattern binds stays bound, and what was bound by
  the target stays as it was.

  Key definitions include:
    * `MatchedInTurn`

  Key theorems include:
    * `Environment.matchedInTurn`
    * `EnvironmentGroup.matchedInTurn`
    * `MatchedInTurn.keeps`
    * `MatchedInTurn.exists_matchesAt`
-/

namespace Diachrony

------------------------------------------------------------
-- Patterns in turn
------------------------------------------------------------

/-
  Patterns are matched in a word one after another, and lead
  from some bindings to others. An empty pattern is passed.
-/
inductive MatchedInTurn
    (word : WordArray) :
    List Pattern → Bindings → Bindings → Prop
  | done
      {bindings : Bindings} :
      MatchedInTurn word [] bindings bindings
  | passed
      {rest : List Pattern}
      {bindings last : Bindings} :
      MatchedInTurn word rest bindings last →
        MatchedInTurn word ([] :: rest) bindings last
  | matched
      {pattern : Pattern}
      {rest : List Pattern}
      {bindings last : Bindings}
      {request : MatchRequest}
      {start : Nat}
      {found : Match} :
      request.bindings = bindings →
      Pattern.matchAt pattern word start request =
          .ok (some found) →
      MatchedInTurn word rest found.bindings last →
        MatchedInTurn word (pattern :: rest) bindings last

namespace MatchedInTurn

variable {word : WordArray}
variable {pattern : Pattern}
variable {patterns others : List Pattern}
variable {bindings between last : Bindings}

theorem append
    (hFirst : MatchedInTurn word patterns bindings between)
    (hSecond : MatchedInTurn word others between last) :
    MatchedInTurn word (patterns ++ others) bindings last := by
  induction hFirst with
  | done => exact hSecond
  | passed _ ih => exact .passed (ih hSecond)
  | matched hBindings hFound _ ih =>
      exact .matched hBindings hFound (ih hSecond)

/- A single pattern that is matched. -/
theorem single
    {request : MatchRequest}
    {start : Nat}
    {found : Match}
    (hFound :
      Pattern.matchAt pattern word start request =
        .ok (some found)) :
    MatchedInTurn word [pattern] request.bindings
      found.bindings :=
  .matched rfl hFound .done

/-
  What the references of patterns preserve, matching them
  keeps.
-/
theorem keeps
    {property : Bindings → Prop}
    (hMatched : MatchedInTurn word patterns bindings last)
    (hBounds :
      ∀ pattern ∈ patterns, Pattern.wellBounded pattern = true)
    (hRefs :
      ∀ pattern ∈ patterns,
        ∀ ref ∈ Pattern.categoryRefs pattern,
          ref.Preserves property)
    (hProperty : property bindings) :
    property last := by
  induction hMatched with
  | done => exact hProperty
  | passed _ ih =>
      exact ih (List.forall_mem_cons.mp hBounds).2
        (List.forall_mem_cons.mp hRefs).2 hProperty
  | matched hBindings hFound _ ih =>
      rcases List.forall_mem_cons.mp hBounds with
        ⟨hBound, hBounds⟩
      rcases List.forall_mem_cons.mp hRefs with ⟨hRef, hRefs⟩
      apply ih hBounds hRefs
      rcases Pattern.exists_path hBound hFound with
        ⟨reached, hReached, rfl⟩
      subst hBindings
      exact Pattern.paths_keep _ hRef hProperty hReached

/-
  A reference by itself in one of the patterns matches one
  of its members, and its slot is bound to the position of
  that member in the end, if all have tags that have it.
-/
theorem exists_matchesAt
    {before after : Pattern}
    {ref : CategoryRef}
    {slot : String}
    (hMatched : MatchedInTurn word patterns bindings last)
    (hBounds :
      ∀ pattern ∈ patterns, Pattern.wellBounded pattern = true)
    (hTagged :
      ∀ pattern ∈ patterns,
        ∀ other ∈ Pattern.categoryRefs pattern,
          other.slot = some slot → other.explicit = true)
    (hSlot : ref.slot = some slot)
    (hMem : before ++ .category ref :: after ∈ patterns) :
    ∃ request start found position,
      Pattern.matchAt (before ++ .category ref :: after) word
          ((start : Nat) : Int) request =
        .ok (some found) ∧
        ref.MatchesAt (request.window word) before after
          (request.point start)
          ⟨found.stop, found.bindings⟩ position ∧
        last.get? slot = some (position : Int) := by
  induction hMatched with
  | done => cases hMem
  | passed _ ih =>
      rcases List.mem_cons.mp hMem with hHere | hLater
      · cases before <;> cases hHere
      · exact ih (List.forall_mem_cons.mp hBounds).2
          (List.forall_mem_cons.mp hTagged).2 hLater
  | @matched pattern rest _ last request start found _ hFound
      hRest ih =>
      rcases List.forall_mem_cons.mp hBounds with
        ⟨hBound, hLaterBounds⟩
      rcases List.forall_mem_cons.mp hTagged with
        ⟨hHere, hLaterTagged⟩
      rcases List.mem_cons.mp hMem with rfl | hLater
      · rcases Pattern.exists_path hBound hFound with
          ⟨reached, hReached, rfl⟩
        rcases CategoryRef.exists_matchesAt hReached with
          ⟨position, hMatches⟩
        refine ⟨request, start, _, position, hFound,
          hMatches, ?_⟩
        have hAfter : ∀ other ∈ Pattern.categoryRefs after,
            other.slot = some slot → other.explicit = true := by
          intro other hOther
          apply hHere
          rw [Pattern.categoryRefs_split]
          exact List.mem_append_right _
            (List.mem_cons_of_mem _ hOther)
        exact
          hRest.keeps hLaterBounds
            (fun pattern hPattern other hOther =>
              CategoryRef.preserves_bound
                (hLaterTagged pattern hPattern other hOther))
            (hMatches.bound hSlot hAfter)
      · exact ih hLaterBounds hLaterTagged hLater

end MatchedInTurn

------------------------------------------------------------
-- Environments
------------------------------------------------------------

section Environments

variable {site : Surroundings}
variable {bindings last : Bindings}

theorem Surroundings.leftMatched
    {left : Pattern}
    {candidates : List Bindings}
    (hLeft :
      site.leftBindings left bindings = .ok candidates)
    {candidate : Bindings}
    (hMem : candidate ∈ candidates) :
    MatchedInTurn site.word [left] bindings candidate := by
  unfold leftBindings at hLeft
  split at hLeft
  · rename_i hEmpty
    cases hLeft
    obtain rfl := List.mem_singleton.mp hMem
    obtain rfl := List.isEmpty_iff.mp hEmpty
    exact .passed .done
  split at hLeft
  · cases hLeft
  rename_i found hFound
  cases hLeft
  rcases List.mem_map.mp hMem with ⟨taken, hMatch, rfl⟩
  rcases exists_of_mem_collect hFound hMatch with
    ⟨start, _, hHere⟩
  exact .single hHere

theorem Surroundings.rightMatched
    {right : Pattern}
    (hRight :
      site.rightBindings right bindings = .ok (some last)) :
    MatchedInTurn site.word [right] bindings last := by
  unfold rightBindings at hRight
  split at hRight
  · rename_i hEmpty
    cases hRight
    obtain rfl := List.isEmpty_iff.mp hEmpty
    exact .passed .done
  split at hRight
  · cases hRight
  rename_i found hFound
  rcases Option.map_eq_some_iff.mp (Except.ok.inj hRight) with
    ⟨taken, rfl, rfl⟩
  rw [← Pattern.start_of_found hFound] at hFound
  exact .single hFound

theorem Surroundings.anywhereMatched
    {pattern : Pattern}
    {indices : Option (List Int)}
    (hAnywhere :
      site.anywhereBindings pattern indices bindings =
        .ok (some last)) :
    MatchedInTurn site.word [pattern] bindings last := by
  unfold anywhereBindings at hAnywhere
  split at hAnywhere
  · rename_i hEmpty
    cases hAnywhere
    obtain rfl := List.isEmpty_iff.mp hEmpty
    exact .passed .done
  dsimp only at hAnywhere
  split at hAnywhere
  · split at hAnywhere
    · cases hAnywhere
    rename_i found hFound
    rcases Option.map_eq_some_iff.mp
        (Except.ok.inj hAnywhere) with
      ⟨taken, rfl, rfl⟩
    rcases exists_of_firstSome hFound with
      ⟨start, _, hHere⟩
    exact .single hHere
  · split at hAnywhere
    · cases hAnywhere
    rename_i found hFound
    rcases Option.map_eq_some_iff.mp
        (Except.ok.inj hAnywhere) with
      ⟨taken, hMatch, rfl⟩
    have hSelected :=
      mem_of_mem_select (List.mem_of_mem_head? hMatch)
    rcases exists_of_mem_collect hFound hSelected with
      ⟨start, _, hHere⟩
    exact .single hHere

/- An environment holds when its patterns are matched in turn. -/
theorem Environment.matchedInTurn
    {environment : Environment}
    (hHolds :
      environment.holds site bindings = .ok (some last)) :
    MatchedInTurn site.word environment.patterns bindings
      last := by
  cases environment with
  | around left right =>
      unfold holds Surroundings.aroundBindings at hHolds
      dsimp only at hHolds
      split at hHolds
      · cases hHolds
      rename_i candidates hLeft
      rcases exists_of_firstSome hHolds with
        ⟨candidate, hMem, hRight⟩
      exact
        (Surroundings.leftMatched hLeft hMem).append
          (Surroundings.rightMatched hRight)
  | anywhere pattern indices =>
      exact Surroundings.anywhereMatched hHolds

theorem EnvironmentGroup.matchedInTurn
    {group : EnvironmentGroup}
    (hHolds :
      EnvironmentGroup.holds site bindings group =
        .ok (some last)) :
    MatchedInTurn site.word
      (group.flatMap Environment.patterns) bindings last := by
  induction group generalizing bindings with
  | nil =>
      cases hHolds
      exact .done
  | cons environment rest ih =>
      rw [EnvironmentGroup.holds] at hHolds
      split at hHolds
      · cases hHolds
      · cases hHolds
      · rename_i next hNext
        exact
          (Environment.matchedInTurn hNext).append
            (ih hHolds)

end Environments

end Diachrony
