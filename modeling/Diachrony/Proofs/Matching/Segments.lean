import Diachrony.Proofs.Matching.Alignment
import Diachrony.Proofs.Matching.Candidates
import Diachrony.Proofs.Matching.Found
import Diachrony.Proofs.Matching.Locality

/-
  Patterns of segments.

  A segment matches one symbol: it is a literal, a wildcard
  or a category whose members are single symbols. A pattern
  of segments is matched along its first path, and it binds
  the slots as the alignment of its segments with the
  symbols does.

  Key definitions include:
    * `Element.isSegment`
    * `Pattern.isSegments`

  Key theorems include:
    * `Pattern.not_binds_of_head`
    * `Pattern.binds_of_head`
    * `Pattern.binds_of_found`
    * `Pattern.not_binds_of_none`
-/

namespace Diachrony

------------------------------------------------------------
-- Segments
------------------------------------------------------------

/- Whether a member is a single symbol. -/
def Member.isSymbol : Member → Bool
  | [.symbol _] => true
  | _ => false

/- Whether all members of a category are single symbols. -/
def CategoryRef.isSegment
    (ref : CategoryRef) : Bool :=
  ref.category.all fun category =>
    category.members.all Member.isSymbol

/- Whether an element matches exactly one symbol. -/
def Element.isSegment : Element → Bool
  | .literal _ => true
  | .category ref => ref.isSegment
  | .wildcard => true
  | _ => false

/- Whether a pattern is a sequence of segments. -/
def Pattern.isSegments
    (pattern : Pattern) : Bool :=
  pattern.all Element.isSegment

theorem Member.exists_symbol
    {member : Member}
    (hSymbol : Member.isSymbol member = true) :
    ∃ symbol, member = [.symbol symbol] := by
  unfold Member.isSymbol at hSymbol
  split at hSymbol
  · exact ⟨_, rfl⟩
  · cases hSymbol

theorem Member.touchesEdge_of_isSymbol
    {member : Member}
    (hSymbol : Member.isSymbol member = true) :
    Member.touchesEdge member = false := by
  rcases Member.exists_symbol hSymbol with ⟨symbol, rfl⟩
  rfl

theorem Element.isLocal_of_isSegment
    {element : Element}
    (hSegment : element.isSegment = true) :
    element.isLocal = true := by
  cases element with
  | literal symbol => rfl
  | wildcard => rfl
  | category ref =>
      rw [Element.isLocal, CategoryRef.isLocal]
      simp only [isSegment, CategoryRef.isSegment] at hSegment
      cases hCategory : ref.category with
      | none => rfl
      | some category =>
          rw [hCategory, Option.all_some, List.all_eq_true]
            at hSegment
          rw [Option.all_some, List.all_eq_true]
          intro member hMember
          rw [Member.touchesEdge_of_isSymbol
            (hSegment member hMember)]
          rfl
  | _ => cases hSegment

theorem Pattern.isLocal_of_isSegments
    {pattern : Pattern}
    (hSegments : pattern.isSegments = true) :
    Pattern.isLocal pattern = true := by
  induction pattern with
  | nil => rfl
  | cons element rest ih =>
      simp only [Pattern.isSegments, List.all_cons,
        Bool.and_eq_true] at hSegments
      rw [Pattern.isLocal,
        Element.isLocal_of_isSegment hSegments.1,
        ih hSegments.2]
      rfl

theorem Pattern.matchable_of_isSegments
    {pattern : Pattern}
    (hSegments : pattern.isSegments = true) :
    Pattern.matchable pattern = true := by
  induction pattern with
  | nil => rfl
  | cons element rest ih =>
      simp only [Pattern.isSegments, List.all_cons,
        Bool.and_eq_true] at hSegments
      have hElement : element.matchable = true := by
        cases element <;> first | rfl | cases hSegments.1
      rw [Pattern.matchable, hElement, ih hSegments.2]
      rfl

theorem Pattern.wellBounded_of_isSegments
    {pattern : Pattern}
    (hSegments : pattern.isSegments = true) :
    Pattern.wellBounded pattern = true := by
  induction pattern with
  | nil => rfl
  | cons element rest ih =>
      simp only [Pattern.isSegments, List.all_cons,
        Bool.and_eq_true] at hSegments
      have hElement : element.wellBounded = true := by
        cases element <;> first | rfl | cases hSegments.1
      rw [Pattern.wellBounded, hElement, ih hSegments.2]
      rfl

------------------------------------------------------------
-- Paths of segments
------------------------------------------------------------

/- A slot of a pattern is that of one of its references. -/
theorem Pattern.mem_categoryRefs
    {pattern : Pattern}
    {ref : CategoryRef}
    (hMem : Element.category ref ∈ pattern) :
    ref ∈ pattern.categoryRefs := by
  rcases List.append_of_mem hMem with ⟨before, after, rfl⟩
  exact Pattern.mem_categoryRefs_split before after ref

theorem Pattern.WellSlotted.tail
    {element : Element}
    {rest : Pattern}
    (hSlots : Pattern.WellSlotted (element :: rest)) :
    Pattern.WellSlotted rest where
  slotted := by
    intro ref hMem
    apply hSlots.slotted
    rw [Pattern.categoryRefs_cons]
    exact List.mem_append_right _ hMem
  shared := by
    have hShared := hSlots.shared
    rw [Pattern.categoryRefs_cons] at hShared
    exact (List.pairwise_append.mp hShared).2.1

/- A reference shares its slot with tagged ones only. -/
theorem Pattern.WellSlotted.head
    {ref : CategoryRef}
    {rest : Pattern}
    (hSlots : Pattern.WellSlotted (.category ref :: rest)) :
    ∃ slot,
      ref.slot = some slot ∧
        ∀ found, Element.category found ∈ rest →
          found.slot = some slot →
            ref.explicit = true ∧ found.explicit = true := by
  have hWhole :
      Pattern.WellSlotted ([] ++ .category ref :: rest) :=
    hSlots
  rcases hWhole.behind with ⟨slot, hSlot, _, hShared⟩
  refine ⟨slot, hSlot, ?_⟩
  intro found hMem hFound
  exact hShared found (Pattern.mem_categoryRefs hMem) hFound

section Paths

variable {window : Window}

/- A member that is a symbol is matched by that symbol. -/
theorem CategoryRef.memberPaths_symbol
    (ref : CategoryRef)
    (symbol : Symbol)
    (position : Nat)
    (point : Point) :
    ref.memberPaths window ([.symbol symbol], position)
        point =
      if ref.allows point.bindings position = true ∧
          (window.ahead point.pos).head? = some symbol then
        [ { pos := point.pos + 1
            bindings := ref.record position point.bindings } ]
      else
        [] := by
  unfold memberPaths
  by_cases hAllows : ref.allows point.bindings position = true
  · rw [if_pos hAllows]
    by_cases hReads :
        (window.ahead point.pos).head? = some symbol
    · have hRead := Window.reads_iff.mpr hReads
      simp [Member.paths, Part.paths, Window.consume_singleton,
        hRead, hAllows, hReads, Point.forward]
    · have hRead := mt Window.reads_iff.mp hReads
      simp [Member.paths, Part.paths, Window.consume_singleton,
        hRead, hReads]
  · simp [hAllows]

/- Single symbols are tried in the order of declaration. -/
theorem Category.longestFirst_symbols
    {category : Category}
    (hSymbols : category.members.all Member.isSymbol = true) :
    category.longestFirst = category.members.zipIdx := by
  have hLength : ∀ entry ∈ category.members.zipIdx,
      entry.1.length = 1 := by
    intro entry hEntry
    have hMember := List.fst_mem_of_mem_zipIdx hEntry
    rcases Member.exists_symbol
        (List.all_eq_true.mp hSymbols _ hMember) with
      ⟨symbol, hSymbol⟩
    rw [hSymbol]
    rfl
  apply List.Pairwise.insertionSort_eq
  apply List.pairwise_of_forall_mem_list
  intro one hOne other hOther
  rw [hLength one hOne, hLength other hOther]

/- The first path through a reference and what follows it. -/
theorem Pattern.head_paths_category
    {ref : CategoryRef}
    (hSegment : ref.isSegment = true)
    {category : Category}
    (hCategory : ref.category = some category)
    (rest : Pattern)
    (point : Point) :
    (Pattern.paths window (.category ref :: rest) point).head? =
      category.members.zipIdx.findSome? fun entry =>
        ((ref.memberPaths window entry point).flatMap
          (Pattern.paths window rest)).head? := by
  have hSymbols :
      category.members.all Member.isSymbol = true := by
    simpa [CategoryRef.isSegment, hCategory] using hSegment
  have hPaths :
      Element.paths window (.category ref) point =
        category.members.zipIdx.flatMap fun entry =>
          ref.memberPaths window entry point := by
    rw [← Category.longestFirst_symbols hSymbols]
    simp only [Element.paths, CategoryRef.paths, hCategory]
  rw [Pattern.paths, hPaths, List.flatMap_assoc,
    List.head?_flatMap]

/- A segment that refers to no category matches one symbol. -/
theorem Element.paths_plain
    {element : Element}
    (hSegment : element.isSegment = true)
    (hElement : ∀ ref, element ≠ .category ref)
    {symbol : Symbol}
    {later : List Symbol}
    {point : Point}
    (hAhead : window.ahead point.pos = symbol :: later) :
    Element.paths window element point =
      if element.fits symbol then [point.forward 1] else [] := by
  cases element with
  | literal own =>
      simp only [Element.paths, Element.fits, Window.consume,
        hAhead, List.cons_prefix_cons, List.nil_prefix,
        and_true, decide_eq_true_eq]
      rfl
  | wildcard =>
      simp [Element.paths, Element.fits, Window.consumeAny,
        hAhead]
  | category ref => exact absurd rfl (hElement ref)
  | _ => cases hSegment

/-
  If no path leads through the segments of a pattern, then
  there is no way to bind their slots.
-/
theorem Pattern.not_binds_of_head
    {pattern : Pattern}
    (hSegments : pattern.isSegments = true)
    (hSlots : pattern.WellSlotted)
    {point : Point}
    (hEnough :
      pattern.length ≤ (window.ahead point.pos).length)
    (hNone :
      (Pattern.paths window pattern point).head? = none)
    (after : Bindings) :
    ¬Alignment.Binds (pattern.zip (window.ahead point.pos))
      point.bindings after := by
  induction pattern generalizing point with
  | nil => cases hNone
  | cons element rest ih =>
  simp only [Pattern.isSegments, List.all_cons,
    Bool.and_eq_true] at hSegments
  cases hAhead : window.ahead point.pos with
  | nil =>
      rw [hAhead] at hEnough
      cases hEnough
  | cons symbol later =>
  have hNext : window.ahead (point.pos + 1) = later := by
    rw [Window.ahead_succ, hAhead]
    rfl
  have hLater :
      rest.length ≤ (window.ahead (point.pos + 1)).length := by
    rw [hNext]
    rw [hAhead] at hEnough
    exact Nat.le_of_succ_le_succ hEnough
  rw [List.zip_cons_cons]
  intro hBinds
  by_cases hCategory : ∃ ref, element = .category ref
  · rcases hCategory with ⟨ref, rfl⟩
    rcases hSlots.head with ⟨slot, hSlot, hShared⟩
    rcases hBinds.tail hSlot
        (fun found seen hMem =>
          hShared found (List.of_mem_zip hMem).1) with
      ⟨position, ⟨category, hFound, hMember⟩, hAllows, hRest⟩
    rw [Pattern.head_paths_category hSegments.1 hFound,
      List.findSome?_eq_none_iff] at hNone
    have hHere :=
      hNone ([.symbol symbol], position)
        (List.mem_zipIdx_iff_getElem?.mpr hMember)
    have hReads :
        ref.allows point.bindings position = true ∧
          (window.ahead point.pos).head? = some symbol := by
      rw [hAhead]
      exact ⟨hAllows, rfl⟩
    rw [CategoryRef.memberPaths_symbol, if_pos hReads,
      List.flatMap_singleton] at hHere
    apply ih hSegments.2 hSlots.tail hLater hHere
    rw [hNext, CategoryRef.record, hSlot]
    exact hRest
  · have hPlain : ∀ ref, element ≠ .category ref :=
      fun ref hSame => hCategory ⟨ref, hSame⟩
    rcases (Alignment.binds_cons_plain hPlain).mp hBinds with
      ⟨hFits, hRest⟩
    rw [Pattern.paths, Element.paths_plain hSegments.1 hPlain
      hAhead, if_pos hFits, List.flatMap_singleton] at hNone
    apply ih hSegments.2 hSlots.tail hLater hNone
    rw [Point.forward, hNext]
    exact hRest

/- Where nothing is ahead, no segment is matched. -/
theorem Element.paths_nothing
    {element : Element}
    (hSegment : element.isSegment = true)
    {point : Point}
    (hAhead : window.ahead point.pos = []) :
    Element.paths window element point = [] := by
  cases element with
  | literal own =>
      simp [Element.paths, Window.consume, hAhead]
  | wildcard => simp [Element.paths, Window.consumeAny, hAhead]
  | category ref =>
      rw [Element.paths, CategoryRef.paths]
      cases hCategory : ref.category with
      | none => rfl
      | some category =>
          have hSymbols :
              category.members.all Member.isSymbol = true := by
            simpa [isSegment, CategoryRef.isSegment, hCategory]
              using hSegment
          apply List.flatMap_eq_nil_iff.mpr
          rintro ⟨member, position⟩ hEntry
          rw [Category.longestFirst_symbols hSymbols] at hEntry
          rcases Member.exists_symbol
              (List.all_eq_true.mp hSymbols member
                (List.fst_mem_of_mem_zipIdx hEntry)) with
            ⟨symbol, rfl⟩
          rw [CategoryRef.memberPaths_symbol, if_neg]
          simp [hAhead]
  | _ => cases hSegment

/- A segment looks at the next symbol and at no other. -/
theorem Element.paths_of_head
    {element : Element}
    (hSegment : element.isSegment = true)
    {other : Window}
    {point : Point}
    (hHead :
      (window.ahead point.pos).head? =
        (other.ahead point.pos).head?) :
    Element.paths window element point =
      Element.paths other element point := by
  cases hAhead : window.ahead point.pos with
  | nil =>
      rw [hAhead] at hHead
      have hOther := List.head?_eq_none_iff.mp hHead.symm
      rw [Element.paths_nothing hSegment hAhead,
        Element.paths_nothing hSegment hOther]
  | cons symbol later =>
      have hFirst := hHead
      rw [hAhead] at hFirst
      obtain ⟨behind, hOther⟩ :=
        List.head?_eq_some_iff.mp hFirst.symm
      by_cases hCategory : ∃ ref, element = .category ref
      · obtain ⟨ref, rfl⟩ := hCategory
        rw [Element.paths, Element.paths, CategoryRef.paths,
          CategoryRef.paths]
        cases hFound : ref.category with
        | none => rfl
        | some category =>
            have hSymbols :
                category.members.all Member.isSymbol = true := by
              simpa [isSegment, CategoryRef.isSegment, hFound]
                using hSegment
            dsimp only
            rw [Category.longestFirst_symbols hSymbols]
            apply List.flatMap_congr
            rintro ⟨member, position⟩ hEntry
            obtain ⟨own, rfl⟩ := Member.exists_symbol
              (List.all_eq_true.mp hSymbols member
                (List.fst_mem_of_mem_zipIdx hEntry))
            rw [CategoryRef.memberPaths_symbol,
              CategoryRef.memberPaths_symbol, hHead]
      · have hPlain : ∀ ref, element ≠ .category ref :=
          fun ref hSame => hCategory ⟨ref, hSame⟩
        rw [Element.paths_plain hSegment hPlain hAhead,
          Element.paths_plain hSegment hPlain hOther]

/-
  The first path through the segments of a pattern binds
  their slots to the least positions.
-/
theorem Pattern.binds_of_head
    {pattern : Pattern}
    (hSegments : pattern.isSegments = true)
    (hSlots : pattern.WellSlotted)
    {point reached : Point}
    (hHead :
      (Pattern.paths window pattern point).head? =
        some reached) :
    pattern.length ≤ (window.ahead point.pos).length ∧
      Alignment.Binds
        (pattern.zip (window.ahead point.pos))
        point.bindings reached.bindings := by
  induction pattern generalizing point with
  | nil =>
      cases hHead
      exact ⟨Nat.zero_le _, Alignment.Binds.nil⟩
  | cons element rest ih =>
  simp only [Pattern.isSegments, List.all_cons,
    Bool.and_eq_true] at hSegments
  cases hAhead : window.ahead point.pos with
  | nil =>
      rw [Pattern.paths,
        Element.paths_nothing hSegments.1 hAhead] at hHead
      cases hHead
  | cons symbol later =>
  have hNext : window.ahead (point.pos + 1) = later := by
    rw [Window.ahead_succ, hAhead]
    rfl
  rw [List.zip_cons_cons]
  by_cases hCategory : ∃ ref, element = .category ref
  · rcases hCategory with ⟨ref, rfl⟩
    rcases hSlots.head with ⟨slot, hSlot, hShared⟩
    cases hFound : ref.category with
    | none =>
        simp [Pattern.paths, Element.paths, CategoryRef.paths,
          hFound] at hHead
    | some category =>
    have hSymbols :
        category.members.all Member.isSymbol = true := by
      simpa [Element.isSegment, CategoryRef.isSegment, hFound]
        using hSegments.1
    rw [Pattern.head_paths_category hSegments.1 hFound]
      at hHead
    rcases exists_of_findSome?_zipIdx hHead with
      ⟨position, member, hMember, hHere, hEarlier⟩
    rcases Member.exists_symbol
        (List.all_eq_true.mp hSymbols member
          (List.mem_of_getElem? hMember)) with
      ⟨own, rfl⟩
    rw [CategoryRef.memberPaths_symbol, hAhead] at hHere
    split at hHere
    · rename_i hReads
      rcases hReads with ⟨hAllows, hOwn⟩
      obtain rfl : symbol = own := Option.some.inj hOwn
      rw [List.flatMap_singleton] at hHere
      rcases ih hSegments.2 hSlots.tail hHere with
        ⟨hLength, hBinds⟩
      rw [hNext] at hLength hBinds
      rw [CategoryRef.record, hSlot] at hBinds
      refine ⟨Nat.succ_le_succ hLength, ?_⟩
      apply hBinds.cons hSlot
        (fun found seen hMem =>
          hShared found (List.of_mem_zip hMem).1)
        ⟨category, hFound, hMember⟩ hAllows
      -- what binds from an earlier member on, a path leads to
      intro earlier hLess hOffers hHeld result
      rcases hOffers with ⟨other, hOther, hEntry⟩
      obtain rfl : category = other :=
        Option.some.inj (hFound.symm.trans hOther)
      have hNone := hEarlier earlier hLess _ hEntry
      rw [CategoryRef.memberPaths_symbol, hAhead,
        if_pos ⟨hHeld, rfl⟩, List.flatMap_singleton] at hNone
      have hAbsent :=
        Pattern.not_binds_of_head hSegments.2 hSlots.tail
          (by rw [hNext]; exact hLength) hNone result
      rw [hNext, CategoryRef.record, hSlot] at hAbsent
      exact hAbsent
    · cases hHere
  · have hPlain : ∀ ref, element ≠ .category ref :=
      fun ref hSame => hCategory ⟨ref, hSame⟩
    rw [Pattern.paths, Element.paths_plain hSegments.1 hPlain
      hAhead] at hHead
    split at hHead
    · rename_i hFits
      rw [List.flatMap_singleton] at hHead
      rcases ih hSegments.2 hSlots.tail hHead with
        ⟨hLength, hBinds⟩
      rw [Point.forward, hNext] at hLength hBinds
      refine ⟨Nat.succ_le_succ hLength, ?_⟩
      exact
        (Alignment.binds_cons_plain hPlain).mpr
          ⟨hFits, hBinds⟩
    · cases hHead

/- Each path through segments ends behind as many symbols. -/
theorem Element.pos_of_segment
    {element : Element}
    (hSegment : element.isSegment = true)
    {point reached : Point}
    (hReached : reached ∈ Element.paths window element point) :
    reached.pos = point.pos + 1 := by
  have hSymbol : ∀ symbol : Symbol, ∀ between,
      between ∈ window.consume [symbol] point →
        between.pos = point.pos + 1 := by
    intro symbol between hBetween
    rw [Window.consume_singleton] at hBetween
    split at hBetween
    · obtain rfl := List.mem_singleton.mp hBetween
      rfl
    · cases hBetween
  cases element with
  | literal own => exact hSymbol own reached hReached
  | wildcard =>
      change reached ∈ window.consumeAny point at hReached
      unfold Window.consumeAny at hReached
      split at hReached
      · cases hReached
      · obtain rfl := List.mem_singleton.mp hReached
        rfl
  | category ref =>
      rcases CategoryRef.mem_paths hReached with
        ⟨category, member, between, hCategory, hMember,
          hBetween, hPos⟩
      have hMembers :
          category.members.all Member.isSymbol = true := by
        simpa [isSegment, CategoryRef.isSegment, hCategory]
          using hSegment
      rcases Member.exists_symbol
          (List.all_eq_true.mp hMembers member hMember) with
        ⟨symbol, rfl⟩
      rw [hPos]
      apply hSymbol symbol
      simpa [Member.paths, Part.paths] using hBetween
  | _ => cases hSegment

theorem Pattern.pos_of_segments
    {pattern : Pattern}
    (hSegments : pattern.isSegments = true)
    {point reached : Point}
    (hReached : reached ∈ Pattern.paths window pattern point) :
    reached.pos = point.pos + pattern.length := by
  induction pattern generalizing point with
  | nil =>
      obtain rfl := List.mem_singleton.mp hReached
      rfl
  | cons element rest ih =>
      simp only [Pattern.isSegments, List.all_cons,
        Bool.and_eq_true] at hSegments
      rcases List.mem_flatMap.mp hReached with
        ⟨between, hBetween, hLater⟩
      have hFirst :=
        Element.pos_of_segment hSegments.1 hBetween
      have hRest := ih hSegments.2 hLater
      rw [List.length_cons]
      omega

end Paths

------------------------------------------------------------
-- Matches of segments
------------------------------------------------------------

/- Among paths of one length the first is the longest. -/
theorem argmax_eq_head?
    {points : List Point}
    {stop : Nat}
    (hStop : ∀ point ∈ points, point.pos = stop) :
    points.argmax Point.pos = points.head? := by
  cases points with
  | nil => rfl
  | cons first rest =>
      rw [List.argmax_cons, List.head?_cons]
      cases hBest : rest.argmax Point.pos with
      | none => rfl
      | some best =>
          have hFirst := hStop first List.mem_cons_self
          have hSame :=
            hStop best
              (List.mem_cons_of_mem _
                (List.argmax_mem hBest))
          have hLess : ¬first.pos < best.pos := by omega
          simp [hLess]

section Matches

variable {pattern : Pattern}
variable {word : Word}
variable {budget : Int}

/- The path of segments that is chosen is the first. -/
theorem MatchRequest.choose_segments
    (hSegments : pattern.isSegments = true)
    (window : Window) :
    MatchRequest.choose { budget := budget } 0
        (Pattern.paths window pattern ⟨0, []⟩) =
      (Pattern.paths window pattern ⟨0, []⟩).head?.map
        (Point.toMatch 0) := by
  have hAdmits :
      (Pattern.paths window pattern ⟨0, []⟩).filter
          (MatchRequest.admits { budget := budget }) =
        Pattern.paths window pattern ⟨0, []⟩ := by
    apply List.filter_eq_self.mpr
    intro point _
    rfl
  rw [choose, hAdmits]
  dsimp only
  rw [if_pos rfl, argmax_eq_head?]
  intro point hPoint
  exact Pattern.pos_of_segments hSegments hPoint

theorem Window.ahead_front
    (word : Word) :
    (MatchRequest.window { budget := budget }
      word.toArray).ahead 0 = word := by
  simp [MatchRequest.window, MatchRequest.limitIn, ahead]

/- Segments are matched along their first path, if at all. -/
theorem Pattern.eq_head_of_matchAt
    (hSegments : pattern.isSegments = true)
    {result : Option Match}
    (hResult :
      Pattern.matchAt pattern word.toArray 0
        { budget := budget } = .ok result) :
    result =
      (Pattern.paths
        (MatchRequest.window { budget := budget } word.toArray)
        pattern ⟨0, []⟩).head?.map (Point.toMatch 0) := by
  have hBounds := Pattern.wellBounded_of_isSegments hSegments
  rw [← MatchRequest.choose_segments hSegments]
  cases result with
  | none =>
      have hStart :
          ((0 : Nat) : Int) ≤
            MatchRequest.limitIn { budget := budget }
              word.toArray := by
        simp [MatchRequest.limitIn]
      exact (Pattern.nothing_chosen hBounds hStart hResult).symm
  | some found =>
      exact (Pattern.chosen_of_found hBounds hResult).symm

/- A match of segments binds their slots as they are aligned. -/
theorem Pattern.binds_of_found
    (hSegments : pattern.isSegments = true)
    (hSlots : pattern.WellSlotted)
    {found : Match}
    (hFound :
      Pattern.matchAt pattern word.toArray 0
        { budget := budget } = .ok (some found)) :
    pattern.length ≤ word.length ∧
      found.length = pattern.length ∧
      Alignment.Binds (pattern.zip word) [] found.bindings := by
  rcases Option.map_eq_some_iff.mp
      (Pattern.eq_head_of_matchAt hSegments hFound).symm with
    ⟨reached, hHead, rfl⟩
  rcases Pattern.binds_of_head hSegments hSlots hHead with
    ⟨hLength, hBinds⟩
  rw [Window.ahead_front] at hLength hBinds
  refine ⟨hLength, ?_, hBinds⟩
  have hPos : reached.pos = 0 + pattern.length :=
    Pattern.pos_of_segments hSegments
      (List.mem_of_head? hHead)
  simp only [Match.length, Point.toMatch]
  omega

/- Without a match there is no way to bind the slots. -/
theorem Pattern.not_binds_of_none
    (hSegments : pattern.isSegments = true)
    (hSlots : pattern.WellSlotted)
    (hNone :
      Pattern.matchAt pattern word.toArray 0
        { budget := budget } = .ok none)
    (hEnough : pattern.length ≤ word.length)
    (after : Bindings) :
    ¬Alignment.Binds (pattern.zip word) [] after := by
  have hHead := Option.map_eq_none_iff.mp
    (Pattern.eq_head_of_matchAt hSegments hNone).symm
  have hAbsent :=
    Pattern.not_binds_of_head hSegments hSlots
      (by rw [Window.ahead_front]; exact hEnough) hHead
      after
  rw [Window.ahead_front] at hAbsent
  exact hAbsent

end Matches

------------------------------------------------------------
-- Reversed patterns
------------------------------------------------------------

theorem Pattern.isSegments_reverse
    {pattern : Pattern}
    (hSegments : pattern.isSegments = true) :
    Pattern.isSegments pattern.reverse = true := by
  rw [Pattern.isSegments] at hSegments ⊢
  rw [List.all_reverse]
  exact hSegments

/- The references in a sequence of segments, in order. -/
theorem Pattern.categoryRefs_segments
    {pattern : Pattern}
    (hSegments : pattern.isSegments = true) :
    pattern.categoryRefs =
      pattern.filterMap Element.categoryRef? := by
  induction pattern with
  | nil => rfl
  | cons element rest ih =>
      simp only [Pattern.isSegments, List.all_cons,
        Bool.and_eq_true] at hSegments
      rw [Pattern.categoryRefs_cons, ih hSegments.2]
      cases element <;> first | rfl | cases hSegments.1

theorem Pattern.WellSlotted.reverse
    {pattern : Pattern}
    (hSegments : pattern.isSegments = true)
    (hSlots : pattern.WellSlotted) :
    Pattern.WellSlotted pattern.reverse := by
  have hRefs :
      Pattern.categoryRefs pattern.reverse =
        pattern.categoryRefs.reverse := by
    rw [Pattern.categoryRefs_segments hSegments,
      Pattern.categoryRefs_segments
        (Pattern.isSegments_reverse hSegments),
      List.filterMap_reverse]
  constructor
  · intro ref hMem
    rw [hRefs] at hMem
    exact hSlots.slotted ref (List.mem_reverse.mp hMem)
  · rw [hRefs, List.pairwise_reverse]
    apply hSlots.shared.imp
    intro one other hShared hSame
    exact (hShared hSame.symm).symm

end Diachrony
