import Diachrony.Proofs.Matching.Contexts
import Diachrony.Proofs.Matching.Merging

/-
  Contexts that share tags.

  A tag that stands on both sides of a site has to be bound
  alike by both. Each context can be read by itself, under
  the bindings that were given, and the site is surrounded
  as it should be if the left one and the right one can be
  read so that they go together. What is tried with the
  right context, however, is the preferred way to read the
  left one from each position alone. So a site is passed
  over if only another way from there goes together with
  the right context. Where all ways to read the left context
  from one position bind alike what the right one asks for,
  nothing is missed.

  Key definitions include:
    * `Surroundings.ReadsLeft`
    * `Surroundings.ReadsRight`
    * `Surroundings.ReadsAround`
    * `Surroundings.firstLeft?`
    * `Surroundings.IsDecided`

  Key theorems include:
    * `Surroundings.mem_leftBindings_iff`
    * `Surroundings.reads_of_aroundBindings`
    * `Surroundings.aroundBindings_isSome_iff_first`
    * `Environment.around_holds_iff_reads`
-/

namespace Diachrony

namespace Surroundings

------------------------------------------------------------
-- Ways to read the contexts
------------------------------------------------------------

/-
  From a position on, the left context can be read up to the
  site, which leaves these bindings.
-/
def ReadsLeft
    (site : Surroundings)
    (left : Pattern)
    (given : Bindings)
    (start : Nat)
    (later : Bindings) : Prop :=
  (start : Int) ≤ site.start ∧
    ∃ reached ∈
        Pattern.paths site.leftWindow left ⟨start, given⟩,
      (reached.pos : Int) = site.start ∧
        reached.bindings = later

/-
  From the site on, the right context can be read, which
  leaves these bindings.
-/
def ReadsRight
    (site : Surroundings)
    (right : Pattern)
    (given : Bindings)
    (later : Bindings) : Prop :=
  ∃ reached ∈
      Pattern.paths site.rightWindow right
        ⟨site.stop.toNat, given⟩,
    reached.bindings = later

/-
  Both contexts can be read, each under the bindings that
  were given, without binding a tag differently.
-/
def ReadsAround
    (site : Surroundings)
    (left right : Pattern)
    (given : Bindings) : Prop :=
  ∃ start one other,
    site.ReadsLeft left given start one ∧
      site.ReadsRight right given other ∧
      one.Compatible other

/- What the preferred way to read the left context leaves. -/
def firstLeft?
    (site : Surroundings)
    (left : Pattern)
    (given : Bindings)
    (start : Nat) : Option Bindings :=
  ((Pattern.paths site.leftWindow left ⟨start, given⟩).find?
    fun reached => (reached.pos : Int) = site.start).map
      Point.bindings

/-
  All ways to read the left context from one position bind
  alike what the right one asks for.
-/
def IsDecided
    (site : Surroundings)
    (left right : Pattern)
    (given : Bindings) : Prop :=
  ∀ ⦃start : Nat⦄ ⦃one other : Bindings⦄,
    site.ReadsLeft left given start one →
      site.ReadsLeft left given start other →
        one.AgreeOn other right.slots

/- There are finitely many ways to compare. -/
instance
    (site : Surroundings)
    (left right : Pattern)
    (given : Bindings) :
    Decidable (site.IsDecided left right given) :=
  let ways (start : Nat) :=
    (Pattern.paths site.leftWindow left ⟨start, given⟩).filter
      fun reached => (reached.pos : Int) = site.start
  have hSame :
      (∀ start ∈ site.leftStarts,
        ∀ one ∈ ways start, ∀ other ∈ ways start,
          ∀ slot ∈ right.slots,
            one.bindings.get? slot =
              other.bindings.get? slot) ↔
        site.IsDecided left right given := by
    simp only [ways, List.mem_filter, decide_eq_true_eq,
      mem_leftStarts]
    constructor
    · rintro hEach start _ _ ⟨hBefore, one, hOne, hEnd, rfl⟩
        ⟨_, other, hOther, hLast, rfl⟩
      exact hEach start hBefore one ⟨hOne, hEnd⟩ other
        ⟨hOther, hLast⟩
    · intro hDecided start hBefore one hOne other hOther
      exact
        hDecided ⟨hBefore, one, hOne.1, hOne.2, rfl⟩
          ⟨hBefore, other, hOther.1, hOther.2, rfl⟩
  decidable_of_iff _ hSame

variable {site : Surroundings}
variable {left right : Pattern}
variable {given one other : Bindings}
variable {start : Nat}

/- The preferred way is one of the ways. -/
theorem readsLeft_of_firstLeft?
    (hBefore : (start : Int) ≤ site.start)
    (hFirst : site.firstLeft? left given start = some one) :
    site.ReadsLeft left given start one := by
  rcases Option.map_eq_some_iff.mp hFirst with
    ⟨reached, hFound, hBindings⟩
  have hEnd := List.find?_some hFound
  exact
    ⟨hBefore, reached, List.mem_of_find?_eq_some hFound,
      of_decide_eq_true hEnd, hBindings⟩

/- If there is a way, one of them is preferred. -/
theorem ReadsLeft.exists_first
    (hReads : site.ReadsLeft left given start one) :
    ∃ first, site.firstLeft? left given start = some first := by
  rcases hReads with ⟨_, reached, hReached, hEnd, _⟩
  have hFound :
      ((Pattern.paths site.leftWindow left ⟨start, given⟩).find?
        fun reached => (reached.pos : Int) = site.start).isSome :=
    List.find?_isSome.mpr
      ⟨reached, hReached, decide_eq_true hEnd⟩
  rcases Option.isSome_iff_exists.mp hFound with
    ⟨first, hFirst⟩
  exact ⟨first.bindings, congrArg (Option.map _) hFirst⟩

/- A tagged context keeps what is bound. -/
theorem ReadsLeft.extends_given
    (hTagged : left.IsTagged)
    (hReads : site.ReadsLeft left given start one) :
    given.Extends one := by
  rcases hReads with ⟨_, reached, hReached, _, rfl⟩
  exact Pattern.paths_extend hTagged hReached

/- A context binds no tags but its own. -/
theorem ReadsRight.get?_of_not_mem
    (hReads : site.ReadsRight right given other)
    {slot : String}
    (hOther : slot ∉ right.slots) :
    other.get? slot = given.get? slot := by
  rcases hReads with ⟨reached, hReached, rfl⟩
  have hApart : right.slots.Disjoint [slot] := by
    simpa using hOther
  exact
    Pattern.paths_agree_elsewhere hApart hReached slot
      (List.mem_singleton_self slot)

/-
  To go together with a way to read the right context is a
  matter of the tags that it asks for.
-/
theorem ReadsRight.compatible_of_agree
    {first : Bindings}
    (hReads : site.ReadsRight right given other)
    (hFirst : given.Extends first)
    (hAgree : first.AgreeOn one right.slots)
    (hCompatible : one.Compatible other) :
    first.Compatible other := by
  intro slot here there hHere hThere
  by_cases hSlot : slot ∈ right.slots
  · rw [hAgree slot hSlot] at hHere
    exact hCompatible hHere hThere
  · rw [hReads.get?_of_not_mem hSlot] at hThere
    rw [hFirst hThere] at hHere
    exact (Option.some.inj hHere).symm

------------------------------------------------------------
-- The left context
------------------------------------------------------------

section Left

/- An empty context is read at the site itself. -/
theorem firstLeft?_nil :
    site.firstLeft? [] given start = some one ↔
      (start : Int) = site.start ∧ given = one := by
  rw [firstLeft?, Pattern.paths, List.find?_cons]
  by_cases hHere : (start : Int) = site.start
  · simp [hHere]
  · simp [hHere]

variable (hBounds : Pattern.wellBounded left = true)
variable (hSite : site.start ≤ site.word.size)

include hBounds hSite

/- A match of the left context is the preferred way to read it. -/
theorem matchAt_eq_firstLeft?
    (hBefore : (start : Int) ≤ site.start)
    {result : Option Match}
    (hResult :
      Pattern.matchAt left site.word start
          (site.leftRequest given) =
        .ok result) :
    result.map Match.bindings =
      site.firstLeft? left given start := by
  have hLimit :
      (site.leftRequest given).limitIn site.word = site.start :=
    Int.min_eq_left hSite
  have hWindow :
      (site.leftRequest given).window site.word =
        site.leftWindow := by
    rw [MatchRequest.window, hLimit]
    rfl
  rw [Pattern.matchAt_eq_choose hBounds site.word _
    (by rw [hLimit]; exact hBefore) hResult, hWindow]
  simp only [MatchRequest.choose, leftRequest,
    Bool.false_eq_true, if_false, List.head?_filter,
    Option.map_map, firstLeft?, MatchRequest.point]
  congr 1

/-
  What is tried with the right context is what the preferred
  ways to read the left one leave, one for each position.
-/
theorem mem_leftBindings_iff
    (hStart : 0 ≤ site.start)
    {candidates : List Bindings}
    (hLeft : site.leftBindings left given = .ok candidates) :
    one ∈ candidates ↔
      ∃ start : Nat, (start : Int) ≤ site.start ∧
        site.firstLeft? left given start = some one := by
  unfold leftBindings at hLeft
  split at hLeft
  · rename_i hEmpty
    cases hLeft
    rw [List.isEmpty_iff.mp hEmpty, List.mem_singleton]
    simp only [firstLeft?_nil]
    constructor
    · rintro rfl
      have hHere := Int.toNat_of_nonneg hStart
      exact ⟨site.start.toNat, by omega, hHere, rfl⟩
    · rintro ⟨_, _, _, hSame⟩
      exact hSame.symm
  split at hLeft
  · cases hLeft
  rename_i found hFound
  cases hLeft
  rw [List.mem_map]
  constructor
  · rintro ⟨taken, hTaken, rfl⟩
    rcases exists_of_mem_collect hFound hTaken with
      ⟨start, hMem, hHere⟩
    have hBefore := mem_leftStarts.mp hMem
    exact
      ⟨start, hBefore,
        (matchAt_eq_firstLeft? hBounds hSite hBefore
          hHere).symm⟩
  · rintro ⟨start, hBefore, hFirst⟩
    rcases exists_of_collect hFound
        (mem_leftStarts.mpr hBefore) with
      ⟨result, hResult, hTaken⟩
    rw [← matchAt_eq_firstLeft? hBounds hSite hBefore hResult]
      at hFirst
    rcases Option.map_eq_some_iff.mp hFirst with
      ⟨taken, rfl, hBindings⟩
    exact ⟨taken, hTaken taken rfl, hBindings⟩

end Left

------------------------------------------------------------
-- The right context
------------------------------------------------------------

section Right

variable (hTagged : right.IsTagged)
variable (hExtends : given.Extends one)

include hTagged hExtends

/-
  The right context holds under further bindings exactly if
  a way to read it goes together with them.
-/
theorem holdsRight_iff :
    site.HoldsRight right one ↔
      ∃ other,
        site.ReadsRight right given other ∧
          one.Compatible other := by
  constructor
  · intro hHolds
    have hPath :
        ∃ reached,
          reached ∈
            Pattern.paths site.rightWindow right
              ⟨site.stop.toNat, one⟩ := by
      rcases hHolds with rfl | hPath
      · exact ⟨_, List.mem_singleton_self _⟩
      · exact hPath
    rcases hPath with ⟨reached, hReached⟩
    rcases Pattern.paths_split hTagged hExtends hReached with
      ⟨last, hLast, _, hCompatible, _⟩
    exact ⟨last.bindings, ⟨last, hLast, rfl⟩, hCompatible⟩
  · rintro ⟨_, ⟨reached, hReached, rfl⟩, hCompatible⟩
    have hHere :
        (⟨site.stop.toNat, one⟩ : Point).pos =
          (⟨site.stop.toNat, given⟩ : Point).pos := rfl
    rcases (Pattern.paths_merge right hTagged hReached).2 hHere
        hExtends hCompatible with
      ⟨last, hLast, _⟩
    exact Or.inr ⟨last, hLast⟩

/- What is bound in the end is merged from both contexts. -/
theorem exists_of_rightBindings
    (hBounds : Pattern.wellBounded right = true)
    (hStop : 0 ≤ site.stop)
    {later : Bindings}
    (hRight : site.rightBindings right one = .ok (some later)) :
    ∃ other,
      site.ReadsRight right given other ∧
        one.Compatible other ∧
        Bindings.IsMerge one other later := by
  have hPath :
      ∃ reached ∈
          Pattern.paths site.rightWindow right
            ⟨site.stop.toNat, one⟩,
        reached.bindings = later := by
    unfold rightBindings at hRight
    split at hRight
    · rename_i hEmpty
      cases hRight
      rw [List.isEmpty_iff.mp hEmpty]
      exact ⟨_, List.mem_singleton_self _, rfl⟩
    split at hRight
    · cases hRight
    rename_i found hFound
    rcases Option.map_eq_some_iff.mp (Except.ok.inj hRight) with
      ⟨taken, rfl, rfl⟩
    rw [Int.eq_natCast_toNat.mpr hStop] at hFound
    rcases Pattern.exists_path hBounds hFound with
      ⟨reached, hReached, rfl⟩
    exact ⟨reached, hReached, rfl⟩
  rcases hPath with ⟨reached, hReached, rfl⟩
  rcases Pattern.paths_split hTagged hExtends hReached with
    ⟨last, hLast, _, hCompatible, hMerge⟩
  exact
    ⟨last.bindings, ⟨last, hLast, rfl⟩, hCompatible, hMerge⟩

end Right

------------------------------------------------------------
-- Both contexts
------------------------------------------------------------

section Around

variable (hLeftTagged : left.IsTagged)
variable (hRightTagged : right.IsTagged)
variable (hLeftBounds : Pattern.wellBounded left = true)
variable (hRightBounds : Pattern.wellBounded right = true)
variable (hStart : 0 ≤ site.start)
variable (hOrder : site.start ≤ site.stop)
variable (hStop : site.stop ≤ site.word.size)
variable {result : Option Bindings}
variable
  (hAround :
    site.aroundBindings left right given = .ok result)

include hLeftTagged hRightTagged hLeftBounds hRightBounds
include hStart hOrder hStop hAround

/- What is found has been read on both sides. -/
theorem reads_of_aroundBindings
    {later : Bindings}
    (hLater : result = some later) :
    ∃ start one other,
      site.ReadsLeft left given start one ∧
        site.ReadsRight right given other ∧
        one.Compatible other ∧
        Bindings.IsMerge one other later := by
  unfold aroundBindings at hAround
  split at hAround
  · cases hAround
  rename_i candidates hLeft
  rw [hLater] at hAround
  rcases exists_of_firstSome hAround with
    ⟨one, hMem, hRight⟩
  rcases (mem_leftBindings_iff hLeftBounds (by omega) hStart
      hLeft).mp hMem with
    ⟨start, hBefore, hFirst⟩
  have hReads := readsLeft_of_firstLeft? hBefore hFirst
  rcases exists_of_rightBindings hRightTagged
      (hReads.extends_given hLeftTagged) hRightBounds (by omega)
      hRight with
    ⟨other, hOther, hCompatible, hMerge⟩
  exact ⟨start, one, other, hReads, hOther, hCompatible, hMerge⟩

/-
  The contexts are found exactly if, from some position, the
  preferred way to read the left one goes together with a
  way to read the right one.
-/
theorem aroundBindings_isSome_iff_first :
    result.isSome = true ↔
      ∃ (start : Nat) (one other : Bindings),
        (start : Int) ≤ site.start ∧
          site.firstLeft? left given start = some one ∧
          site.ReadsRight right given other ∧
          one.Compatible other := by
  unfold aroundBindings at hAround
  split at hAround
  · cases hAround
  rename_i candidates hLeft
  have hCandidates : ∀ one, one ∈ candidates ↔
      ∃ start : Nat, (start : Int) ≤ site.start ∧
        site.firstLeft? left given start = some one :=
    fun _ =>
      mem_leftBindings_iff hLeftBounds (by omega) hStart hLeft
  have hHolds : ∀ one result, one ∈ candidates →
      site.rightBindings right one = .ok result →
      (result.isSome = true ↔
        ∃ other,
          site.ReadsRight right given other ∧
            one.Compatible other) := by
    intro one result hMem hRight
    rcases (hCandidates one).mp hMem with
      ⟨start, hBefore, hFirst⟩
    have hReads := readsLeft_of_firstLeft? hBefore hFirst
    rw [rightBindings_isSome_iff hRightBounds (by omega) hRight
      hStop]
    exact
      holdsRight_iff hRightTagged
        (hReads.extends_given hLeftTagged)
  constructor
  · intro hSome
    rcases Option.isSome_iff_exists.mp hSome with ⟨later, rfl⟩
    rcases exists_of_firstSome hAround with
      ⟨one, hMem, hRight⟩
    rcases (hCandidates one).mp hMem with
      ⟨start, hBefore, hFirst⟩
    rcases (hHolds one _ hMem hRight).mp rfl with
      ⟨other, hOther⟩
    exact ⟨start, one, other, hBefore, hFirst, hOther⟩
  · rintro ⟨start, one, other, hBefore, hFirst, hOther⟩
    cases result with
    | some later => rfl
    | none =>
    have hMem := (hCandidates one).mpr ⟨start, hBefore, hFirst⟩
    have hNone := firstSome_eq_none_iff.mp hAround one hMem
    exact (hHolds one _ hMem hNone).mpr ⟨other, hOther⟩

/-
  If all ways to read the left context from one position are
  alike, the contexts are found exactly if they can be read.
-/
theorem aroundBindings_isSome_iff_reads
    (hDecided : site.IsDecided left right given) :
    result.isSome = true ↔ site.ReadsAround left right given := by
  rw [aroundBindings_isSome_iff_first hLeftTagged hRightTagged
    hLeftBounds hRightBounds hStart hOrder hStop hAround]
  constructor
  · rintro ⟨start, one, other, hBefore, hFirst, hOther⟩
    exact
      ⟨start, one, other, readsLeft_of_firstLeft? hBefore hFirst,
        hOther⟩
  · rintro ⟨start, one, other, hLeft, hRight, hCompatible⟩
    rcases hLeft.exists_first with ⟨first, hFirst⟩
    have hReads := readsLeft_of_firstLeft? hLeft.1 hFirst
    exact
      ⟨start, first, other, hLeft.1, hFirst, hRight,
        hRight.compatible_of_agree
          (hReads.extends_given hLeftTagged)
          (hDecided hReads hLeft) hCompatible⟩

end Around

end Surroundings

/-
  A condition on the surroundings of a span, whose slots are
  tags, binds what two ways to read its sides bind that go
  together. It is found exactly if from some position the
  preferred way to read the left side goes together with a
  way to read the right one. If all ways from one position
  are alike, it is found exactly if both sides can be read
  together. With enough steps it is decided.
-/
theorem Environment.around_holds_iff_reads
    {left right : Pattern}
    (hLeftTagged : left.IsTagged)
    (hRightTagged : right.IsTagged)
    (hLeftBounds : Pattern.wellBounded left = true)
    (hRightBounds : Pattern.wellBounded right = true)
    {site : Surroundings}
    (hStart : 0 ≤ site.start)
    (hOrder : site.start ≤ site.stop)
    (hStop : site.stop ≤ site.word.size)
    (given : Bindings) :
    (Pattern.matchable left = true →
      Pattern.matchable right = true →
        ∃ steps : Nat, ∀ budget : Int, steps ≤ budget →
          ∃ result,
            Environment.holds (site.withBudget budget)
                (.around left right) given =
              .ok result) ∧
    ∀ result,
      Environment.holds site (.around left right) given =
          .ok result →
        (result.isSome = true ↔
          ∃ (start : Nat) (one other : Bindings),
            (start : Int) ≤ site.start ∧
              site.firstLeft? left given start = some one ∧
              site.ReadsRight right given other ∧
              one.Compatible other) ∧
        (site.IsDecided left right given →
          (result.isSome = true ↔
            site.ReadsAround left right given)) ∧
        ∀ later, result = some later →
          ∃ start one other,
            site.ReadsLeft left given start one ∧
              site.ReadsRight right given other ∧
              one.Compatible other ∧
              Bindings.IsMerge one other later := by
  constructor
  · intro hLeftMatchable hRightMatchable
    exact Surroundings.exists_aroundBindings hLeftMatchable
      hRightMatchable hLeftBounds hRightBounds site given
  intro result hAround
  refine ⟨?_, fun hDecided => ?_, fun later hLater => ?_⟩
  · exact
      Surroundings.aroundBindings_isSome_iff_first hLeftTagged
        hRightTagged hLeftBounds hRightBounds hStart hOrder hStop
        hAround
  · exact
      Surroundings.aroundBindings_isSome_iff_reads hLeftTagged
        hRightTagged hLeftBounds hRightBounds hStart hOrder hStop
        hAround hDecided
  · exact
      Surroundings.reads_of_aroundBindings hLeftTagged
        hRightTagged hLeftBounds hRightBounds hStart hOrder hStop
        hAround hLater

/- The vowel before a consonant comes again after it. -/
theorem sharedVowel_found :
    let left : Pattern :=
      [.category (taggedVowel "^1"), .gap false]
    let right : Pattern :=
      [.gap false, .category (taggedVowel "^1")]
    let site : Surroundings :=
      { word := #["t", "a", "s", "k", "i", "t", "a"]
        start := 3
        stop := 4
        target := ["k"] }
    let later : Bindings := [("^1", 0)]
    left.IsTagged ∧
      right.IsTagged ∧
      site.IsDecided left right [] ∧
      Environment.holds site (.around left right) [] =
        .ok (some later) ∧
      site.ReadsAround left right [] ∧
      ∃ start one other,
        site.ReadsLeft left [] start one ∧
          site.ReadsRight right [] other ∧
          one.Compatible other ∧
          Bindings.IsMerge one other later := by
  intro left right site later
  have hLeftTagged : left.IsTagged := by decide
  have hRightTagged : right.IsTagged := by decide
  have hDecided : site.IsDecided left right [] := by
    decide +kernel
  have hHolds :
      Environment.holds site (.around left right) [] =
        .ok (some later) := by
    decide +kernel
  have hReads :=
    (Environment.around_holds_iff_reads hLeftTagged hRightTagged
      (by decide) (by decide) (by decide) (by decide) (by decide)
      []).2 _ hHolds
  exact ⟨hLeftTagged, hRightTagged, hDecided, hHolds,
    (hReads.2.1 hDecided).mp rfl, hReads.2.2 later rfl⟩

/-
  The gap on the left reaches as far as it can, from both
  positions up to the last vowel. The first vowel, which
  comes again on the right, is not tried.
-/
theorem sharedVowel_overlooked :
    let left : Pattern :=
      [.gap false, .category (taggedVowel "^1"), .gap false]
    let right : Pattern := [.category (taggedVowel "^1")]
    let site : Surroundings :=
      { word := #["a", "i", "k", "a"]
        start := 2
        stop := 3
        target := ["k"] }
    left.IsTagged ∧
      right.IsTagged ∧
      site.ReadsAround left right [] ∧
      Environment.holds site (.around left right) [] =
        .ok none := by
  intro left right site
  have hLeft : site.ReadsLeft left [] 0 [("^1", 0)] :=
    ⟨by decide, ⟨2, [("^1", 0)]⟩, by decide +kernel, rfl, rfl⟩
  have hRight : site.ReadsRight right [] [("^1", 0)] :=
    ⟨⟨4, [("^1", 0)]⟩, by decide +kernel, rfl⟩
  have hCompatible :
      Bindings.Compatible [("^1", 0)] [("^1", 0)] := by
    intro slot here there hHere hThere
    exact Option.some.inj (hHere.symm.trans hThere)
  exact ⟨by decide, by decide,
    ⟨0, _, _, hLeft, hRight, hCompatible⟩, by decide +kernel⟩

end Diachrony
