import Diachrony.Proofs.Matching.Agreement
import Diachrony.Proofs.Matching.Budget
import Diachrony.Proofs.Matching.Candidates
import Diachrony.Proofs.Matching.Repetition
import Diachrony.Proofs.Matching.Termination

/-
  The contexts of a site.

  A left context is looked for from every position up to the
  site, and the right context is then matched with the
  bindings of each way to find the left one. If the slots of
  both are tags, and no tag is on both sides, the bindings
  make no difference: the two sides can be judged each by
  itself, under the bindings that were given.

  Key definitions include:
    * `Surroundings.leftWindow`
    * `Surroundings.rightWindow`
    * `Surroundings.HoldsLeft`
    * `Surroundings.HoldsRight`

  Key theorems include:
    * `Pattern.found_iff`
    * `Surroundings.leftBindings_nonempty_iff`
    * `Surroundings.rightBindings_isSome_iff`
    * `Surroundings.aroundBindings_isSome_iff`
    * `Environment.around_holds_iff`
-/

namespace Diachrony

------------------------------------------------------------
-- Matches and paths
------------------------------------------------------------

/-
  A match is found exactly if some path ends where it is
  asked to, whether the longest or any match will do.
-/
theorem Pattern.found_iff
    {pattern : Pattern}
    {word : WordArray}
    {request : MatchRequest}
    {start : Nat}
    {result : Option Match}
    (hBounds : Pattern.wellBounded pattern = true)
    (hStart : (start : Int) ≤ request.limitIn word)
    (hResult :
      Pattern.matchAt pattern word start request =
        .ok result) :
    result.isSome = true ↔
      ∃ reached ∈
          Pattern.paths (request.window word) pattern
            (request.point start),
        request.admits reached = true := by
  rw [Pattern.matchAt_eq_choose hBounds word request hStart
    hResult]
  exact MatchRequest.isSome_choose

------------------------------------------------------------
-- The two sides of a site
------------------------------------------------------------

namespace Surroundings

/-
  What a left context can see: no symbol from the start of
  the site on, and no edge but the start of the word.
-/
def leftWindow
    (site : Surroundings) : Window where
  symbols := site.word
  limit := site.start.toNat
  target := site.target
  side := .start

/-
  What a right context can see: the whole word, and no edge
  but its end.
-/
def rightWindow
    (site : Surroundings) : Window where
  symbols := site.word
  limit := site.word.size
  target := site.target
  side := .finish

/-
  A left context holds if it is empty, or if a path of it
  leads from somewhere to the start of the site.
-/
def HoldsLeft
    (site : Surroundings)
    (left : Pattern)
    (bindings : Bindings) : Prop :=
  left = [] ∨
    ∃ start : Nat, (start : Int) ≤ site.start ∧
      ∃ reached ∈
          Pattern.paths site.leftWindow left ⟨start, bindings⟩,
        (reached.pos : Int) = site.start

/-
  A right context holds if it is empty, or if a path of it
  leads on from the end of the site.
-/
def HoldsRight
    (site : Surroundings)
    (right : Pattern)
    (bindings : Bindings) : Prop :=
  right = [] ∨
    ∃ reached,
      reached ∈
        Pattern.paths site.rightWindow right
          ⟨site.stop.toNat, bindings⟩

variable {site : Surroundings}
variable {left right : Pattern}
variable {bindings other : Bindings}

/- The positions up to the site are those to start from. -/
theorem mem_leftStarts
    {start : Nat} :
    start ∈ site.leftStarts ↔ (start : Int) ≤ site.start := by
  simp only [leftStarts, List.mem_reverse, List.mem_range]
  omega

/- A right context asks for nothing but its own slots. -/
theorem HoldsRight.agree
    (hAgree : bindings.AgreeOn other right.slots)
    (hRight : site.HoldsRight right bindings) :
    site.HoldsRight right other := by
  rcases hRight with hEmpty | ⟨reached, hReached⟩
  · exact Or.inl hEmpty
  · rcases Pattern.paths_agree hAgree hReached with
      ⟨last, hLast, _⟩
    exact Or.inr ⟨last, hLast⟩

section Left

variable {candidates : List Bindings}

variable (hBounds : Pattern.wellBounded left = true)
variable
  (hLeft : site.leftBindings left bindings = .ok candidates)

include hBounds hLeft

/-
  The bindings after a left context are those that were
  given, or those of a path of it.
-/
theorem leftBindings_cases
    {candidate : Bindings}
    (hMem : candidate ∈ candidates) :
    candidate = bindings ∨
      ∃ window point reached,
        point.bindings = bindings ∧
          reached ∈ Pattern.paths window left point ∧
          reached.bindings = candidate := by
  unfold leftBindings at hLeft
  split at hLeft
  · cases hLeft
    exact Or.inl (List.mem_singleton.mp hMem)
  split at hLeft
  · cases hLeft
  rename_i found hFound
  cases hLeft
  rcases List.mem_map.mp hMem with ⟨taken, hTaken, rfl⟩
  rcases exists_of_mem_collect hFound hTaken with
    ⟨start, _, hHere⟩
  rcases Pattern.exists_path hBounds hHere with
    ⟨reached, hReached, rfl⟩
  exact Or.inr ⟨_, _, reached, rfl, hReached, rfl⟩

/- There are such bindings exactly if the left context holds. -/
theorem leftBindings_nonempty_iff
    (hSite : site.start ≤ site.word.size) :
    candidates ≠ [] ↔ site.HoldsLeft left bindings := by
  unfold leftBindings at hLeft
  split at hLeft
  · rename_i hEmpty
    cases hLeft
    exact iff_of_true (List.cons_ne_nil _ _)
      (Or.inl (List.isEmpty_iff.mp hEmpty))
  rename_i hSome
  split at hLeft
  · cases hLeft
  rename_i found hFound
  cases hLeft
  have hLimit :
      (site.leftRequest bindings).limitIn site.word =
        site.start :=
    Int.min_eq_left hSite
  have hWindow :
      (site.leftRequest bindings).window site.word =
        site.leftWindow := by
    rw [MatchRequest.window, hLimit]
    rfl
  have hAttempt : ∀ start result,
      start ∈ site.leftStarts →
      Pattern.matchAt left site.word (start : Nat)
          (site.leftRequest bindings) =
        .ok result →
      (result.isSome = true ↔
        ∃ reached ∈
            Pattern.paths site.leftWindow left
              ⟨start, bindings⟩,
          (reached.pos : Int) = site.start) := by
    intro start result hStart hResult
    have hInside :
        (start : Int) ≤
          (site.leftRequest bindings).limitIn site.word := by
      rw [hLimit]
      exact mem_leftStarts.mp hStart
    rw [Pattern.found_iff hBounds hInside hResult, hWindow]
    simp only [MatchRequest.admits, leftRequest,
      Option.all_some, decide_eq_true_eq]
    rfl
  constructor
  · intro hCandidates
    rcases List.exists_mem_of_ne_nil _ hCandidates with
      ⟨candidate, hCandidate⟩
    rcases List.mem_map.mp hCandidate with ⟨taken, hTaken, _⟩
    rcases exists_of_mem_collect hFound hTaken with
      ⟨start, hStart, hHere⟩
    exact Or.inr
      ⟨start, mem_leftStarts.mp hStart,
        (hAttempt start _ hStart hHere).mp rfl⟩
  · rintro (hEmpty | ⟨start, hBefore, hPath⟩)
    · exact absurd (List.isEmpty_iff.mpr hEmpty) hSome
    · have hStart := mem_leftStarts.mpr hBefore
      rcases exists_of_collect hFound hStart with
        ⟨result, hResult, hTaken⟩
      have hSuccess := (hAttempt start result hStart hResult).mpr
        hPath
      rcases Option.isSome_iff_exists.mp hSuccess with
        ⟨taken, hMatch⟩
      exact List.ne_nil_of_mem
        (List.mem_map_of_mem (hTaken taken hMatch))

end Left

section Right

variable {result : Option Bindings}

variable (hBounds : Pattern.wellBounded right = true)
variable (hStop : 0 ≤ site.stop)
variable
  (hRight : site.rightBindings right bindings = .ok result)

include hBounds hStop hRight

theorem rightBindings_cases
    {later : Bindings}
    (hLater : result = some later) :
    later = bindings ∨
      ∃ window point reached,
        point.bindings = bindings ∧
          reached ∈ Pattern.paths window right point ∧
          reached.bindings = later := by
  unfold rightBindings at hRight
  split at hRight
  · cases hRight
    exact Or.inl (Option.some.inj hLater).symm
  split at hRight
  · cases hRight
  rename_i found hFound
  cases hRight
  rcases Option.map_eq_some_iff.mp hLater with
    ⟨taken, rfl, rfl⟩
  rw [Int.eq_natCast_toNat.mpr hStop] at hFound
  rcases Pattern.exists_path hBounds hFound with
    ⟨reached, hReached, rfl⟩
  exact Or.inr ⟨_, _, reached, rfl, hReached, rfl⟩

/- The right context is matched exactly if it holds. -/
theorem rightBindings_isSome_iff
    (hSite : site.stop ≤ site.word.size) :
    result.isSome = true ↔ site.HoldsRight right bindings := by
  unfold rightBindings at hRight
  split at hRight
  · rename_i hEmpty
    cases hRight
    exact iff_of_true rfl
      (Or.inl (List.isEmpty_iff.mp hEmpty))
  rename_i hSome
  split at hRight
  · cases hRight
  rename_i found hFound
  cases hRight
  have hNotEmpty : right ≠ [] :=
    fun hEmpty => hSome (List.isEmpty_iff.mpr hEmpty)
  rw [Int.eq_natCast_toNat.mpr hStop] at hFound
  have hInside :
      (site.stop.toNat : Int) ≤
        (site.rightRequest bindings).limitIn site.word := by
    rw [Int.toNat_of_nonneg hStop]
    exact hSite
  rw [Option.isSome_map,
    Pattern.found_iff hBounds hInside hFound]
  simp only [HoldsRight, hNotEmpty, false_or,
    MatchRequest.admits, rightRequest, Option.all_none,
    and_true]
  rfl

end Right

------------------------------------------------------------
-- Enough steps
------------------------------------------------------------

/- What holds from some budget on of each entry holds of all. -/
theorem exists_common_budget
    {α : Type}
    {entries : List α}
    {holds : α → Int → Prop}
    (hEach : ∀ entry ∈ entries,
      ∃ steps : Nat, ∀ budget : Int, steps ≤ budget →
        holds entry budget) :
    ∃ steps : Nat, ∀ budget : Int, steps ≤ budget →
      ∀ entry ∈ entries, holds entry budget := by
  induction entries with
  | nil => exact ⟨0, by simp⟩
  | cons first rest ih =>
      rcases List.forall_mem_cons.mp hEach with
        ⟨⟨few, hFirst⟩, hRest⟩
      rcases ih hRest with ⟨many, hMany⟩
      refine ⟨max few many, fun budget hBudget => ?_⟩
      have hEnough : (few : Int) ≤ budget ∧ (many : Int) ≤ budget :=
        by omega
      exact List.forall_mem_cons.mpr
        ⟨hFirst budget hEnough.1, hMany budget hEnough.2⟩

/- A match comes to a result from some budget on. -/
theorem exists_matchAt
    {pattern : Pattern}
    (hMatchable : Pattern.matchable pattern = true)
    (hBounds : Pattern.wellBounded pattern = true)
    (word : WordArray)
    (start : Int)
    (request : MatchRequest) :
    ∃ steps : Nat, ∀ budget : Int, steps ≤ budget →
      ∃ result,
        Pattern.matchAt pattern word start
            { request with budget := budget } =
          .ok result := by
  rcases (Pattern.matchAt_terminates hMatchable hBounds word
    start request).1 with ⟨steps, result, hSteps⟩
  refine ⟨steps, fun budget hBudget => ⟨result, ?_⟩⟩
  exact (hSteps budget).1 (by omega)

theorem exists_leftBindings
    (hMatchable : Pattern.matchable left = true)
    (hBounds : Pattern.wellBounded left = true)
    (site : Surroundings)
    (bindings : Bindings) :
    ∃ steps : Nat, ∀ budget : Int, steps ≤ budget →
      ∃ candidates,
        (site.withBudget budget).leftBindings left bindings =
          .ok candidates := by
  by_cases hEmpty : left.isEmpty = true
  · refine ⟨0, fun budget _ => ⟨[bindings], ?_⟩⟩
    rw [leftBindings, if_pos hEmpty]
  have hEach : ∀ start ∈ site.leftStarts,
      ∃ steps : Nat, ∀ budget : Int, steps ≤ budget →
        ∃ result,
          Pattern.matchAt left site.word start
              { site.leftRequest bindings with
                budget := budget } =
            .ok result :=
    fun start _ =>
      exists_matchAt hMatchable hBounds site.word start
        (site.leftRequest bindings)
  rcases exists_common_budget hEach with ⟨steps, hSteps⟩
  refine ⟨steps, fun budget hBudget => ?_⟩
  rw [leftBindings, if_neg hEmpty]
  split
  · rename_i fault hFault
    rcases exists_of_collect_error hFault with
      ⟨start, hStart, hFailed⟩
    rcases hSteps budget hBudget start hStart with
      ⟨result, hResult⟩
    cases hFailed.symm.trans hResult
  · exact ⟨_, rfl⟩

theorem exists_rightBindings
    (hMatchable : Pattern.matchable right = true)
    (hBounds : Pattern.wellBounded right = true)
    (site : Surroundings)
    (bindings : Bindings) :
    ∃ steps : Nat, ∀ budget : Int, steps ≤ budget →
      ∃ result,
        (site.withBudget budget).rightBindings right bindings =
          .ok result := by
  by_cases hEmpty : right.isEmpty = true
  · refine ⟨0, fun budget _ => ⟨some bindings, ?_⟩⟩
    rw [rightBindings, if_pos hEmpty]
  rcases exists_matchAt hMatchable hBounds site.word site.stop
      (site.rightRequest bindings) with
    ⟨steps, hSteps⟩
  refine ⟨steps, fun budget hBudget => ?_⟩
  rcases hSteps budget hBudget with ⟨result, hResult⟩
  rw [rightBindings, if_neg hEmpty, word_withBudget,
    stop_withBudget, rightRequest_withBudget, hResult]
  exact ⟨_, rfl⟩

/- Contexts can be judged with some number of steps. -/
theorem exists_aroundBindings
    (hLeftMatchable : Pattern.matchable left = true)
    (hRightMatchable : Pattern.matchable right = true)
    (hLeftBounds : Pattern.wellBounded left = true)
    (hRightBounds : Pattern.wellBounded right = true)
    (site : Surroundings)
    (bindings : Bindings) :
    ∃ steps : Nat, ∀ budget : Int, steps ≤ budget →
      ∃ result,
        (site.withBudget budget).aroundBindings left right
            bindings =
          .ok result := by
  rcases exists_leftBindings hLeftMatchable hLeftBounds site
      bindings with
    ⟨few, hFew⟩
  rcases hFew few (Int.le_refl _) with ⟨candidates, hLeft⟩
  have hEach : ∀ candidate ∈ candidates,
      ∃ steps : Nat, ∀ budget : Int, steps ≤ budget →
        ∃ result,
          (site.withBudget budget).rightBindings right
              candidate =
            .ok result :=
    fun candidate _ =>
      exists_rightBindings hRightMatchable hRightBounds site
        candidate
  rcases exists_common_budget hEach with ⟨many, hMany⟩
  refine ⟨max few many, fun budget hBudget => ?_⟩
  -- With more steps the left context has the same candidates.
  have hSame :
      (site.withBudget budget).leftBindings left bindings =
        .ok candidates := by
    have hMore : (site.withBudget few).budget ≤ budget := by
      change (few : Int) ≤ budget
      omega
    exact Surroundings.leftBindings_agrees hMore left _ hLeft
  rw [aroundBindings, hSame]
  dsimp only
  cases hFirst :
      firstSome ((site.withBudget budget).rightBindings right)
        candidates with
  | ok result => exact ⟨result, rfl⟩
  | error fault =>
      rcases exists_of_firstSome_error hFirst with
        ⟨candidate, hMem, hFailed⟩
      rcases hMany budget (by omega) candidate hMem with
        ⟨result, hResult⟩
      cases hFailed.symm.trans hResult

end Surroundings

------------------------------------------------------------
-- Both contexts
------------------------------------------------------------

namespace Surroundings

section Around

variable {left right : Pattern}
variable {site : Surroundings}
variable {bindings : Bindings}
variable {result : Option Bindings}

variable (hLeftTagged : left.IsTagged)
variable (hApart : left.slots.Disjoint right.slots)
variable (hLeftBounds : Pattern.wellBounded left = true)

include hLeftTagged hApart hLeftBounds

/-
  A left context keeps what is bound, and binds nothing that
  the right context asks for.
-/
theorem leftBindings_keep
    {candidates : List Bindings}
    (hLeft : site.leftBindings left bindings = .ok candidates)
    {candidate : Bindings}
    (hMem : candidate ∈ candidates) :
    bindings.Extends candidate ∧
      candidate.AgreeOn bindings right.slots := by
  rcases leftBindings_cases hLeftBounds hLeft hMem with
    rfl | ⟨_, _, _, rfl, hReached, rfl⟩
  · exact ⟨fun _ _ hBound => hBound, fun _ _ => rfl⟩
  · exact
      ⟨Pattern.paths_extend hLeftTagged hReached,
        Pattern.paths_agree_elsewhere hApart hReached⟩

variable (hRightBounds : Pattern.wellBounded right = true)
variable (hEnd : 0 ≤ site.stop)
variable
  (hAround :
    site.aroundBindings left right bindings = .ok result)

include hRightBounds hEnd hAround

/-
  Both contexts are matched exactly if each of them holds
  under the bindings that were given.
-/
theorem aroundBindings_isSome_iff
    (hBefore : site.start ≤ site.word.size)
    (hStop : site.stop ≤ site.word.size) :
    result.isSome = true ↔
      site.HoldsLeft left bindings ∧
        site.HoldsRight right bindings := by
  unfold aroundBindings at hAround
  split at hAround
  · cases hAround
  rename_i candidates hLeft
  have hAgree : ∀ candidate ∈ candidates,
      candidate.AgreeOn bindings right.slots :=
    fun candidate hMem =>
      (leftBindings_keep hLeftTagged hApart hLeftBounds hLeft
        hMem).2
  have hHoldsLeft :=
    leftBindings_nonempty_iff hLeftBounds hLeft hBefore
  constructor
  · intro hSome
    rcases Option.isSome_iff_exists.mp hSome with ⟨later, rfl⟩
    rcases exists_of_firstSome hAround with
      ⟨candidate, hMem, hRight⟩
    have hHoldsRight :=
      (rightBindings_isSome_iff hRightBounds hEnd hRight
        hStop).mp rfl
    exact
      ⟨hHoldsLeft.mp (List.ne_nil_of_mem hMem),
        hHoldsRight.agree (hAgree candidate hMem)⟩
  · rintro ⟨hLeftHolds, hRightHolds⟩
    cases result with
    | some later => rfl
    | none =>
    rcases List.exists_mem_of_ne_nil _
        (hHoldsLeft.mpr hLeftHolds) with
      ⟨candidate, hMem⟩
    have hNone :=
      firstSome_eq_none_iff.mp hAround candidate hMem
    have hOther : bindings.AgreeOn candidate right.slots :=
      fun slot hSlot => (hAgree candidate hMem slot hSlot).symm
    exact
      (rightBindings_isSome_iff hRightBounds hEnd hNone
        hStop).mpr (hRightHolds.agree hOther)

/- What was bound before both contexts is bound after them. -/
theorem aroundBindings_extends
    (hRightTagged : right.IsTagged)
    {later : Bindings}
    (hLater : result = some later) :
    bindings.Extends later := by
  unfold aroundBindings at hAround
  split at hAround
  · cases hAround
  rename_i candidates hLeft
  rw [hLater] at hAround
  rcases exists_of_firstSome hAround with
    ⟨candidate, hMem, hRight⟩
  have hFirst :=
    (leftBindings_keep hLeftTagged hApart hLeftBounds hLeft
      hMem).1
  rcases rightBindings_cases hRightBounds hEnd hRight rfl with
    rfl | ⟨_, _, _, rfl, hReached, rfl⟩
  · exact hFirst
  · intro slot position hBound
    exact
      Pattern.paths_extend hRightTagged hReached
        (hFirst hBound)

end Around

end Surroundings

/-
  A condition on the surroundings of a span whose slots are
  tags, with no tag on both sides, holds exactly if the left
  context leads up to the span and the right one on from it,
  each under the bindings that were given. What was bound
  stays bound. With enough steps it is decided.
-/
theorem Environment.around_holds_iff
    {left right : Pattern}
    (hLeftTagged : left.IsTagged)
    (hRightTagged : right.IsTagged)
    (hApart : left.slots.Disjoint right.slots)
    (hLeftBounds : Pattern.wellBounded left = true)
    (hRightBounds : Pattern.wellBounded right = true)
    {site : Surroundings}
    (hStart : 0 ≤ site.start)
    (hOrder : site.start ≤ site.stop)
    (hStop : site.stop ≤ site.word.size)
    (bindings : Bindings) :
    (Pattern.matchable left = true →
      Pattern.matchable right = true →
        ∃ steps : Nat, ∀ budget : Int, steps ≤ budget →
          ∃ result,
            Environment.holds (site.withBudget budget)
                (.around left right) bindings =
              .ok result) ∧
    ∀ result,
      Environment.holds site (.around left right) bindings =
          .ok result →
        (result.isSome = true ↔
          site.HoldsLeft left bindings ∧
            site.HoldsRight right bindings) ∧
        ∀ later, result = some later →
          bindings.Extends later := by
  constructor
  · intro hLeftMatchable hRightMatchable
    exact Surroundings.exists_aroundBindings hLeftMatchable
      hRightMatchable hLeftBounds hRightBounds site bindings
  intro result hAround
  have hBefore : site.start ≤ site.word.size :=
    Int.le_trans hOrder hStop
  have hEnd : 0 ≤ site.stop := Int.le_trans hStart hOrder
  constructor
  · exact
      Surroundings.aroundBindings_isSome_iff hLeftTagged hApart
        hLeftBounds hRightBounds hEnd hAround hBefore hStop
  · intro later hLater
    exact
      Surroundings.aroundBindings_extends hLeftTagged hApart
        hLeftBounds hRightBounds hEnd hAround hRightTagged
        hLater

/-
  A vowel with a tag. Its last member is a vowel that stands
  at the end of the word.
-/
def taggedVowel
    (tag : String) : CategoryRef where
  category := some
    { name := "V"
      members :=
        [[.symbol "a"], [.symbol "i"], [.symbol "i", .edge]] }
  name := "V"
  slot := some tag
  explicit := true

/-
  The vowel on the right is bound, and the one on the left
  remains to be.
-/
theorem vowelContexts_hold :
    let left : Pattern :=
      [.edge, .gap false, .category (taggedVowel "^1"),
        .gap true]
    let right : Pattern :=
      [.repeated (.category (taggedVowel "^2")) 1 none false,
        .edge]
    let site : Surroundings :=
      { word := #["t", "a", "k", "i", "i"]
        start := 2
        stop := 3
        target := ["k"] }
    let given : Bindings := [("^2", 1)]
    let later : Bindings := [("^2", 1), ("^1", 0)]
    left.IsTagged ∧
      right.IsTagged ∧
      left.slots.Disjoint right.slots ∧
      Environment.holds site (.around left right) given =
        .ok (some later) ∧
      site.HoldsLeft left given ∧
      site.HoldsRight right given ∧
      given.Extends later := by
  intro left right site given later
  have hLeftTagged : left.IsTagged := by decide
  have hRightTagged : right.IsTagged := by decide
  have hApart : left.slots.Disjoint right.slots := by
    have hLeft : left.slots = ["^1"] := by decide
    have hRight : right.slots = ["^2"] := by decide
    rw [hLeft, hRight]
    simp
  have hHolds :
      Environment.holds site (.around left right) given =
        .ok (some later) := by
    decide +kernel
  have hContexts :=
    (Environment.around_holds_iff hLeftTagged hRightTagged
      hApart (by decide) (by decide) (by decide) (by decide)
      (by decide) given).2 _ hHolds
  exact ⟨hLeftTagged, hRightTagged, hApart, hHolds,
    (hContexts.1.mp rfl).1, (hContexts.1.mp rfl).2,
    hContexts.2 later rfl⟩

end Diachrony
