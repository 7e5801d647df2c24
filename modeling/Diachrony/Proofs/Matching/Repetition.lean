import Diachrony.Proofs.Matching.Correctness

/-
  What unbounded repetitions match.

  A body that is not nullable can be repeated any number of
  times. A nullable body is gone through at most once more
  than it has to be, so runs of more copies are not matched,
  even if each copy consumes a symbol.

  Key theorems include:
    * `Reach.mem_unbounded`
    * `Element.mem_paths_repeated`
    * `Element.repeated_found_iff`
    * `group_runs_not_matched`
-/

namespace Diachrony

------------------------------------------------------------
-- Numbers of copies
------------------------------------------------------------

namespace Reach

variable {limit : Nat}
variable {body : Reach}
variable {point reached : Point}

/- Copies after copies are copies. -/
theorem mem_copies_add
    {m n : Nat} :
    reached ∈ copies body (m + n) point ↔
      ∃ between ∈ copies body m point,
        reached ∈ copies body n between := by
  induction m generalizing point with
  | zero => simp [copies]
  | succ m ih =>
      rw [Nat.succ_add]
      simp only [copies, List.mem_flatMap, ih]
      constructor
      · rintro ⟨first, hFirst, between, hBetween, hReached⟩
        exact ⟨between, ⟨first, hFirst, hBetween⟩, hReached⟩
      · rintro ⟨between, ⟨first, hFirst, hBetween⟩, hReached⟩
        exact ⟨first, hFirst, between, hBetween, hReached⟩

theorem mem_upTo
    {isLazy : Bool}
    {n : Nat} :
    reached ∈ upTo isLazy body n point ↔
      ∃ k, k ≤ n ∧ reached ∈ copies body k point := by
  induction n generalizing point with
  | zero =>
      constructor
      · intro hReached
        exact ⟨0, Nat.le_refl 0, hReached⟩
      · rintro ⟨k, hBound, hReached⟩
        obtain rfl : k = 0 := by omega
        exact hReached
  | succ n ih =>
      simp only [upTo, mem_prefer, List.mem_flatMap, ih]
      constructor
      · rintro (⟨between, hBetween, k, hBound, hReached⟩ |
          hStay)
        · exact ⟨k + 1, by omega,
            List.mem_flatMap.mpr ⟨between, hBetween, hReached⟩⟩
        · exact ⟨0, by omega, hStay⟩
      · rintro ⟨k, hBound, hReached⟩
        cases k with
        | zero => exact Or.inr hReached
        | succ k =>
            rcases List.mem_flatMap.mp hReached with
              ⟨between, hBetween, hReached⟩
            exact Or.inl
              ⟨between, hBetween, k, by omega, hReached⟩

theorem mem_optional
    {isLazy : Bool} :
    reached ∈ optional isLazy body point ↔
      ∃ k, k ≤ 1 ∧ reached ∈ copies body k point := by
  have hOnce :
      optional isLazy body point =
        upTo isLazy body 1 point := by
    simp [optional, upTo]
  rw [hOnce]
  exact mem_upTo

/-
  Any number of copies of a consuming body can be gone
  through, whatever the limit is.
-/
theorem mem_unbounded
    {isLazy : Bool}
    (hConsuming : Consuming limit body)
    (hForward : Forward limit body)
    (hLimit : point.pos ≤ limit) :
    reached ∈ unbounded isLazy body limit point ↔
      ∃ k, reached ∈ copies body k point := by
  constructor
  · intro hReached
    rcases mem_upTo.mp hReached with ⟨k, _, hReached⟩
    exact ⟨k, hReached⟩
  · rintro ⟨k, hReached⟩
    have hMore :
        unbounded isLazy body limit point =
          upTo isLazy body (limit - point.pos + k) point :=
      upTo_eq_upTo hConsuming hForward hLimit
        (Nat.le_refl _) (Nat.le_add_right _ _)
    rw [hMore]
    exact mem_upTo.mpr ⟨k, Nat.le_add_left _ _, hReached⟩

end Reach

------------------------------------------------------------
-- Paths of an unbounded repetition
------------------------------------------------------------

/-
  The copies that may follow the required ones: any number,
  but no more than one of a nullable body.
-/
theorem Element.mem_further
    {window : Window}
    {body : Element}
    (hBounds : body.wellBounded = true)
    {isLazy : Bool}
    {point reached : Point}
    (hLimit : point.pos ≤ window.limit) :
    reached ∈
        Reach.further isLazy body.nullable window.limit
          (body.paths window) none point ↔
      ∃ k, (body.nullable = true → k ≤ 1) ∧
        reached ∈
          Reach.copies (body.paths window) k point := by
  have hForward :
      Reach.Forward window.limit (body.paths window) :=
    body.paths_forward
  cases hNullable : body.nullable with
  | true =>
      simpa [Reach.further] using Reach.mem_optional
  | false =>
      have hConsuming :
          Reach.Consuming window.limit (body.paths window) :=
        Element.paths_consuming body hBounds hNullable
      simpa [Reach.further] using
        Reach.mem_unbounded hConsuming hForward hLimit

/-
  A repetition without a bound reaches what any number of
  copies reach that is large enough, but no more than one
  further copy if the body is nullable.
-/
theorem Element.mem_paths_repeated
    {window : Window}
    {body : Element}
    (hBounds : body.wellBounded = true)
    (min : Int)
    (isLazy : Bool)
    {point reached : Point}
    (hLimit : point.pos ≤ window.limit) :
    reached ∈
        (Element.repeated body min none isLazy).paths window
          point ↔
      ∃ k, min.toNat ≤ k ∧
        (body.nullable = true → k ≤ min.toNat + 1) ∧
        reached ∈
          Reach.copies (body.paths window) k point := by
  have hForward :
      Reach.Forward window.limit (body.paths window) :=
    body.paths_forward
  simp only [Element.paths, Option.map_none, List.mem_flatMap]
  constructor
  · rintro ⟨between, hBetween, hReached⟩
    have hBelow := (hForward.copies _ hLimit hBetween).2
    rcases (Element.mem_further hBounds hBelow).mp hReached
      with ⟨k, hOnce, hReached⟩
    refine ⟨min.toNat + k, Nat.le_add_right _ _, ?_, ?_⟩
    · intro hNullable
      have hBound := hOnce hNullable
      omega
    · exact Reach.mem_copies_add.mpr
        ⟨between, hBetween, hReached⟩
  · rintro ⟨k, hEnough, hOnce, hReached⟩
    obtain ⟨more, rfl⟩ := Nat.exists_eq_add_of_le hEnough
    rcases Reach.mem_copies_add.mp hReached with
      ⟨between, hBetween, hReached⟩
    have hBelow := (hForward.copies _ hLimit hBetween).2
    refine ⟨between, hBetween,
      (Element.mem_further hBounds hBelow).mpr
        ⟨more, ?_, hReached⟩⟩
    intro hNullable
    have hBound := hOnce hNullable
    omega

------------------------------------------------------------
-- Matching an unbounded repetition
------------------------------------------------------------

/- A match is chosen if some path ends where it is asked to. -/
theorem MatchRequest.isSome_choose
    {request : MatchRequest}
    {start : Nat}
    {points : List Point} :
    (request.choose start points).isSome = true ↔
      ∃ point ∈ points, request.admits point = true := by
  have hFilter :
      points.filter request.admits ≠ [] ↔
        ∃ point ∈ points, request.admits point = true := by
    simp
  rw [MatchRequest.choose, Option.isSome_map, ← hFilter]
  cases request.longest with
  | false =>
      simp only [Bool.false_eq_true, if_false,
        List.isSome_head?, ne_eq]
  | true =>
      rw [if_pos rfl, Option.isSome_iff_ne_none, ne_eq, ne_eq,
        List.argmax_eq_none]

/-
  With a large enough budget a repetition without a bound is
  found up to a given end exactly if a large enough number
  of copies of the body leads there, where a nullable body
  is gone through at most once more than it has to be.
-/
theorem Element.repeated_found_iff
    {body : Element}
    (hMatchable : body.matchable = true)
    (hBounds : body.wellBounded = true)
    {min : Int}
    (hMin : 0 ≤ min)
    (isLazy : Bool)
    (word : WordArray)
    (request : MatchRequest)
    {start : Nat}
    (hStart : (start : Int) ≤ request.limitIn word)
    {stop : Int}
    (hStop : request.stop = some stop) :
    ∃ steps : Nat, ∀ budget : Int, steps ≤ budget →
      ∃ result,
        Pattern.matchAt [.repeated body min none isLazy] word
            start { request with budget := budget } =
          .ok result ∧
        (result.isSome = true ↔
          ∃ k : Nat, min ≤ k ∧
            (body.nullable = true → k ≤ min + 1) ∧
            ∃ reached ∈
              Reach.copies (body.paths (request.window word)) k
                (request.point start),
              (reached.pos : Int) = stop) := by
  have hLimit :
      (request.point start).pos ≤
        (request.window word).limit := by
    simp only [MatchRequest.point, MatchRequest.window]
    omega
  have hBuilt :
      Pattern.matchable [.repeated body min none isLazy] =
        true := by
    simp [Pattern.matchable, Element.matchable, hMatchable]
  have hBounded :
      Pattern.wellBounded [.repeated body min none isLazy] =
        true := by
    simp [Pattern.wellBounded, Element.wellBounded, hBounds,
      hMin]
  rcases Pattern.matchAt_eq hBuilt hBounded word request hStart
    with ⟨steps, hSteps⟩
  refine ⟨steps, ?_⟩
  intro budget hBudget
  have hEnough : ¬budget.toNat < steps := by omega
  refine ⟨_, by rw [hSteps budget, if_neg hEnough], ?_⟩
  have hAdmits : ∀ reached : Point,
      request.admits reached = true ↔
        (reached.pos : Int) = stop := by
    intro reached
    simp [MatchRequest.admits, hStop]
  simp only [MatchRequest.isSome_choose, hAdmits,
    Pattern.paths, List.flatMap_singleton',
    Element.mem_paths_repeated hBounds min isLazy hLimit]
  constructor
  · rintro ⟨reached, ⟨k, hLeast, hMost, hReached⟩, hEnd⟩
    refine ⟨k, by omega, ?_, reached, hReached, hEnd⟩
    intro hNullable
    have hOnce := hMost hNullable
    omega
  · rintro ⟨k, hLeast, hMost, reached, hReached, hEnd⟩
    refine ⟨reached, ⟨k, by omega, ?_, hReached⟩, hEnd⟩
    intro hNullable
    have hOnce := hMost hNullable
    omega

/- A group of two symbols. -/
def pairGroup : Element :=
  .optional [.literal "a", .literal "b"] false

theorem pairGroup_found :
    let request : MatchRequest := { stop := some 2 }
    let word : WordArray := #["a", "b", "a", "b"]
    pairGroup.matchable = true ∧
      pairGroup.wellBounded = true ∧
      (0 : Nat) ≤ request.limitIn word ∧
      ∃ steps : Nat, ∀ budget : Int, steps ≤ budget →
        ∃ result,
          Pattern.matchAt [.repeated pairGroup 0 none false]
              word (0 : Nat) { request with budget := budget } =
            .ok result ∧
          (result.isSome = true ↔
            ∃ k : Nat, (0 : Int) ≤ k ∧
              (pairGroup.nullable = true → (k : Int) ≤ 0 + 1) ∧
              ∃ reached ∈
                Reach.copies
                  (pairGroup.paths (request.window word)) k
                  (request.point 0),
                (reached.pos : Int) = 2) :=
  ⟨by decide, by decide, by decide,
    Element.repeated_found_iff (by decide) (by decide)
      (by decide) false _ _ (by decide) rfl⟩

/-
  Two copies of the group lead over four symbols, but its
  unbounded repetition does not match them.
-/
theorem group_runs_not_matched :
    let request : MatchRequest :=
      { stop := some 4, longest := false }
    let word : WordArray := #["a", "b", "a", "b"]
    Pattern.matchAt [.repeated pairGroup 0 none false] word
        (0 : Nat) request =
      .ok none ∧
    ∃ reached ∈
      Reach.copies (pairGroup.paths (request.window word)) 2
        (request.point 0),
      reached.pos = 4 := by
  refine ⟨by decide, ⟨4, []⟩, by decide, rfl⟩

end Diachrony
