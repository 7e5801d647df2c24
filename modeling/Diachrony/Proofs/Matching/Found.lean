import Diachrony.Proofs.Matching.Correctness
import Diachrony.Proofs.Matching.Extent

/-
  What a match is found along.

  A match that is found ends a path of its pattern, and it
  is the one that is chosen. If none is found at a position
  inside the word, then none is chosen.

  Key theorems include:
    * `Pattern.chosen_of_found`
    * `Pattern.exists_path`
    * `Pattern.nothing_chosen`
-/

namespace Diachrony

variable {pattern : Pattern}
variable {word : WordArray}
variable {request : MatchRequest}
variable {start : Nat}
variable {found : Match}

/- A pattern that comes to a result can be matched. -/
theorem Pattern.matchable_of_matchAt
    {result : Option Match}
    (hResult :
      Pattern.matchAt pattern word start request =
        .ok result) :
    Pattern.matchable pattern = true := by
  cases hMatchable : Pattern.matchable pattern with
  | true => rfl
  | false => simp [Pattern.matchAt, hMatchable] at hResult

/- No match begins in front of the word. -/
theorem Pattern.start_of_found
    {start : Int}
    (hFound :
      Pattern.matchAt pattern word start request =
        .ok (some found)) :
    (start.toNat : Int) = start := by
  unfold Pattern.matchAt at hFound
  split at hFound
  · cases hFound
  split at hFound
  · cases hFound
  · omega

/- A match is found inside the word. -/
theorem Pattern.start_le_of_found
    (hFound :
      Pattern.matchAt pattern word start request =
        .ok (some found)) :
    (start : Int) ≤ request.limitIn word := by
  unfold Pattern.matchAt at hFound
  split at hFound
  · cases hFound
  split at hFound
  · cases hFound
  · omega

/- A match that is found is the one that is chosen. -/
theorem Pattern.chosen_of_found
    (hBounds : Pattern.wellBounded pattern = true)
    (hFound :
      Pattern.matchAt pattern word start request =
        .ok (some found)) :
    request.choose start
        (Pattern.paths (request.window word) pattern
          (request.point start)) =
      some found := by
  rcases Pattern.matchAt_eq
      (Pattern.matchable_of_matchAt hFound) hBounds word request
      (Pattern.start_le_of_found hFound) with
    ⟨steps, hSteps⟩
  rw [hSteps request.budget] at hFound
  split at hFound
  · cases hFound
  · exact Except.ok.inj hFound

/- A match that is found ends a path. -/
theorem Pattern.exists_path
    (hBounds : Pattern.wellBounded pattern = true)
    (hFound :
      Pattern.matchAt pattern word start request =
        .ok (some found)) :
    ∃ reached ∈
        Pattern.paths (request.window word) pattern
          (request.point start),
      reached.toMatch start = found := by
  have hChosen := Pattern.chosen_of_found hBounds hFound
  unfold MatchRequest.choose at hChosen
  rcases Option.map_eq_some_iff.mp hChosen with
    ⟨reached, hReached, hMatch⟩
  refine ⟨reached, ?_, hMatch⟩
  split at hReached
  · exact (List.mem_filter.mp (List.argmax_mem hReached)).1
  · exact (List.mem_filter.mp (List.mem_of_head? hReached)).1

/- If no match is found inside the word, none is chosen. -/
theorem Pattern.nothing_chosen
    (hBounds : Pattern.wellBounded pattern = true)
    (hStart : (start : Int) ≤ request.limitIn word)
    (hNone :
      Pattern.matchAt pattern word start request = .ok none) :
    request.choose start
        (Pattern.paths (request.window word) pattern
          (request.point start)) =
      none := by
  rcases Pattern.matchAt_eq
      (Pattern.matchable_of_matchAt hNone) hBounds word request
      hStart with
    ⟨steps, hSteps⟩
  rw [hSteps request.budget] at hNone
  split at hNone
  · cases hNone
  · exact Except.ok.inj hNone

end Diachrony
