import Diachrony.Proofs.Matching.Agreement

/-
  Paths under merged bindings.

  A path of a tagged pattern can be taken under further
  bindings too, as long as these bind no slot to anything
  else than the path does. What is bound at its end is then
  what either of them binds. Conversely a path that is taken
  under further bindings can be taken without them, and then
  ends with bindings that go together with them.

  Key definitions include:
    * `Bindings.Compatible`
    * `Bindings.IsMerge`
    * `Reach.Merges`

  Key theorems include:
    * `Pattern.paths_merge`
    * `Pattern.paths_split`
-/

namespace Diachrony

------------------------------------------------------------
-- Bindings that go together
------------------------------------------------------------

namespace Bindings

variable {given one other both later : Bindings}
variable {slot : String}
variable {position : Int}

/- No slot is bound to different positions. -/
def Compatible
    (one other : Bindings) : Prop :=
  ∀ ⦃slot : String⦄ ⦃here there : Int⦄,
    one.get? slot = some here →
      other.get? slot = some there →
        here = there

/-
  Bindings of all that one of two binds, to what the first
  binds it to if it does.
-/
def IsMerge
    (one other both : Bindings) : Prop :=
  ∀ slot, both.get? slot = (one.get? slot).or (other.get? slot)

theorem Extends.refl
    (bindings : Bindings) :
    bindings.Extends bindings :=
  fun _ _ hBound => hBound

theorem Extends.trans
    (hFirst : given.Extends one)
    (hSecond : one.Extends later) :
    given.Extends later :=
  fun _ _ hBound => hSecond (hFirst hBound)

/- What goes together with later bindings does with earlier ones. -/
theorem Compatible.of_extends
    (hCompatible : one.Compatible later)
    (hExtends : other.Extends later) :
    one.Compatible other :=
  fun _ _ _ hHere hThere => hCompatible hHere (hExtends hThere)

/- Bindings and what they extend have nothing to merge. -/
theorem IsMerge.of_extends
    (hExtends : other.Extends one) :
    IsMerge one other one := by
  intro slot
  cases hOne : one.get? slot with
  | some position => rfl
  | none =>
  cases hOther : other.get? slot with
  | none => rfl
  | some position =>
      rw [hExtends hOther] at hOne
      cases hOne

theorem IsMerge.of_extended
    (hExtends : one.Extends other) :
    IsMerge one other other := by
  intro slot
  cases hOne : one.get? slot with
  | none => rfl
  | some position => exact hExtends hOne

theorem IsMerge.extends_left
    (hMerge : IsMerge one other both) :
    one.Extends both := by
  intro slot position hBound
  rw [hMerge slot, hBound, Option.some_or]

theorem IsMerge.extends_right
    (hMerge : IsMerge one other both)
    (hCompatible : one.Compatible other) :
    other.Extends both := by
  intro slot position hBound
  rw [hMerge slot]
  cases hOne : one.get? slot with
  | none => exact hBound
  | some here =>
      rw [hCompatible hOne hBound]
      exact Option.some_or

/-
  A merge goes together with what both of its parts go
  together with.
-/
theorem IsMerge.compatible
    (hMerge : IsMerge one other both)
    (hOne : one.Compatible later)
    (hOther : other.Extends later) :
    both.Compatible later := by
  intro slot here there hHere hThere
  rw [hMerge slot] at hHere
  rcases Option.or_eq_some_iff.mp hHere with
    hBound | ⟨_, hBound⟩
  · exact hOne hBound hThere
  · rw [hOther hBound] at hThere
    exact Option.some.inj hThere

/- What is merged with bindings may be extended afterwards. -/
theorem IsMerge.trans
    (hFirst : IsMerge given one both)
    (hExtends : one.Extends other)
    (hSecond : IsMerge both other later) :
    IsMerge given other later := by
  intro slot
  rw [hSecond slot, hFirst slot, Option.or_assoc,
    ← IsMerge.of_extended hExtends slot]

end Bindings

------------------------------------------------------------
-- Paths under further bindings
------------------------------------------------------------

namespace Reach

variable {body first second : Reach}

/-
  What is bound on the way stays bound. The same way on can
  be taken under more bindings, as long as these go together
  with those at its end, and both are merged by it.
-/
def Merges
    (reach : Reach) : Prop :=
  ∀ ⦃point reached : Point⦄,
    reached ∈ reach point →
      point.bindings.Extends reached.bindings ∧
        ∀ ⦃other : Point⦄,
          other.pos = point.pos →
          point.bindings.Extends other.bindings →
          other.bindings.Compatible reached.bindings →
            ∃ last ∈ reach other,
              last.pos = reached.pos ∧
                Bindings.IsMerge other.bindings
                  reached.bindings last.bindings

theorem Positional.merges
    {reach : Reach}
    (hPositional : reach.Positional)
    (hIdle : reach.Idle) :
    reach.Merges := by
  intro point reached hReached
  rw [hIdle hReached]
  refine ⟨Bindings.Extends.refl _, ?_⟩
  intro other hPos hExtends _
  exact
    ⟨_, hPositional hPos hReached, rfl,
      Bindings.IsMerge.of_extends hExtends⟩

theorem Merges.stay :
    Merges (fun point => [point]) := by
  intro point reached hReached
  obtain rfl := List.mem_singleton.mp hReached
  refine ⟨Bindings.Extends.refl _, ?_⟩
  intro other hPos hExtends _
  exact
    ⟨other, List.mem_singleton_self _, hPos,
      Bindings.IsMerge.of_extends hExtends⟩

theorem Merges.flatMap
    (hFirst : Merges first)
    (hSecond : Merges second) :
    Merges (fun point => (first point).flatMap second) := by
  intro point reached hReached
  rcases List.mem_flatMap.mp hReached with
    ⟨between, hBetween, hReached⟩
  rcases hFirst hBetween with ⟨hNear, hFirst⟩
  rcases hSecond hReached with ⟨hFar, hSecond⟩
  refine ⟨hNear.trans hFar, ?_⟩
  intro other hPos hExtends hCompatible
  -- Up to the middle the same bindings go together, and with
  -- the merge of them the rest can be taken.
  have hHalfway : other.bindings.Compatible between.bindings :=
    hCompatible.of_extends hFar
  rcases hFirst hPos hExtends hHalfway with
    ⟨middle, hMiddle, hSame, hMerge⟩
  rcases hSecond hSame (hMerge.extends_right hHalfway)
      (hMerge.compatible hCompatible hFar) with
    ⟨last, hLast, hEnd, hMerged⟩
  exact
    ⟨last, List.mem_flatMap.mpr ⟨middle, hMiddle, hLast⟩,
      hEnd, hMerge.trans hFar hMerged⟩

theorem Merges.optional
    {isLazy : Bool}
    (hBody : Merges body) :
    Merges (optional isLazy body) := by
  intro point reached hReached
  rcases mem_prefer.mp hReached with hThrough | hAround
  · rcases hBody hThrough with ⟨hKept, hBody⟩
    refine ⟨hKept, fun other hPos hExtends hCompatible => ?_⟩
    rcases hBody hPos hExtends hCompatible with
      ⟨last, hLast, hEnd⟩
    exact ⟨last, mem_prefer.mpr (Or.inl hLast), hEnd⟩
  · rcases Merges.stay hAround with ⟨hKept, hStay⟩
    refine ⟨hKept, fun other hPos hExtends hCompatible => ?_⟩
    rcases hStay hPos hExtends hCompatible with
      ⟨last, hLast, hEnd⟩
    exact ⟨last, mem_prefer.mpr (Or.inr hLast), hEnd⟩

theorem Merges.copies
    (hBody : Merges body)
    (n : Nat) :
    Merges (copies body n) := by
  induction n with
  | zero => exact Merges.stay
  | succ n ih => exact hBody.flatMap ih

theorem Merges.upTo
    {isLazy : Bool}
    (hBody : Merges body)
    (n : Nat) :
    Merges (upTo isLazy body n) := by
  induction n with
  | zero => exact Merges.stay
  | succ n ih => exact (hBody.flatMap ih).optional

/- Both ways allow for the same number of copies. -/
theorem Merges.unbounded
    {isLazy : Bool}
    (hBody : Merges body)
    (limit : Nat) :
    Merges (unbounded isLazy body limit) := by
  intro point reached hReached
  rcases hBody.upTo (limit - point.pos) hReached with
    ⟨hKept, hCopies⟩
  refine ⟨hKept, fun other hPos hExtends hCompatible => ?_⟩
  unfold Reach.unbounded
  rw [hPos]
  exact hCopies hPos hExtends hCompatible

theorem Merges.further
    {isLazy nullable : Bool}
    {limit : Nat}
    (hBody : Merges body)
    (most : Option Nat) :
    Merges (further isLazy nullable limit body most) := by
  cases most with
  | some n => exact hBody.upTo n
  | none =>
      cases nullable with
      | true => exact hBody.optional
      | false => exact hBody.unbounded limit

end Reach

------------------------------------------------------------
-- References
------------------------------------------------------------

section References

variable {window : Window}

namespace CategoryRef

/- A tag that may be recorded is not bound to anything else. -/
theorem eq_of_allows
    {ref : CategoryRef}
    {slot : String}
    {bindings : Bindings}
    {position : Nat}
    (hSlot : ref.slot = some slot)
    (hTagged : ref.explicit = true)
    (hAllows : ref.allows bindings position = true)
    {bound : Int}
    (hBound : bindings.get? slot = some bound) :
    bound = position := by
  rw [allows, hTagged, hSlot, Option.bind_some, hBound]
    at hAllows
  exact of_decide_eq_true hAllows

theorem allows_of_compatible
    {ref : CategoryRef}
    {slot : String}
    {bindings : Bindings}
    {position : Nat}
    (hSlot : ref.slot = some slot)
    (hBound : ∀ bound,
      bindings.get? slot = some bound → bound = position) :
    ref.allows bindings position = true := by
  rw [allows, hSlot, Option.bind_some]
  cases hExplicit : ref.explicit with
  | false => rfl
  | true =>
  cases hHere : bindings.get? slot with
  | none => rfl
  | some bound => exact decide_eq_true (hBound bound hHere)

theorem memberPaths_merge
    {ref : CategoryRef}
    (hTagged : ref.slot ≠ none → ref.explicit = true)
    (entry : Member × Nat) :
    (ref.memberPaths window entry).Merges := by
  intro point reached hReached
  unfold memberPaths at hReached ⊢
  split at hReached
  case isFalse => cases hReached
  rename_i hAllows
  rcases List.mem_map.mp hReached with ⟨between, hBetween, rfl⟩
  have hIdle := Member.paths_idle entry.1 hBetween
  cases hSlot : ref.slot with
  | none =>
      simp only [record, hSlot, hIdle]
      refine ⟨Bindings.Extends.refl _, ?_⟩
      intro other hPos hExtends _
      have hOther : ref.allows other.bindings entry.2 = true := by
        rw [allows, hSlot]
        cases ref.explicit <;> rfl
      have hPath :=
        Member.paths_positional entry.1 hPos hBetween
      rw [if_pos hOther]
      exact
        ⟨_, List.mem_map_of_mem hPath, rfl,
          Bindings.IsMerge.of_extends hExtends⟩
  | some slot =>
      have hExplicit : ref.explicit = true :=
        hTagged (by rw [hSlot]; exact Option.some_ne_none slot)
      simp only [record, hSlot, hIdle]
      constructor
      · intro own bound hBound
        rw [Bindings.get?_set]
        split
        · rename_i hSame
          rw [hSame] at hBound
          rw [eq_of_allows hSlot hExplicit hAllows hBound]
        · exact hBound
      · intro other hPos hExtends hCompatible
        have hHeld : ∀ bound,
            other.bindings.get? slot = some bound →
              bound = entry.2 :=
          fun bound hBound =>
            hCompatible hBound (Bindings.get?_set_self _ _ slot)
        have hPath :=
          Member.paths_positional entry.1 hPos hBetween
        rw [if_pos (allows_of_compatible hSlot hHeld)]
        refine ⟨_, List.mem_map_of_mem hPath, rfl, ?_⟩
        intro own
        simp only [Bindings.get?_set]
        split
        · rename_i hSame
          rw [hSame]
          cases hOther : other.bindings.get? slot with
          | none => rfl
          | some bound => rw [hHeld bound hOther, Option.some_or]
        · exact Bindings.IsMerge.of_extends hExtends own

/-
  What is recorded under merged bindings can be recorded
  under one part of them, and goes together with the other.
-/
theorem respects_merge
    {ref : CategoryRef}
    (hTagged : ref.slot ≠ none → ref.explicit = true)
    (given : Bindings) :
    ref.Respects fun both other =>
      given.Compatible other ∧ Bindings.IsMerge given other both := by
  intro both other position hRelated hAllows
  rcases hRelated with ⟨hCompatible, hMerge⟩
  cases hSlot : ref.slot with
  | none =>
      rw [allows, hSlot] at hAllows ⊢
      rw [record, record, hSlot]
      exact ⟨hAllows, hCompatible, hMerge⟩
  | some slot =>
      have hExplicit : ref.explicit = true :=
        hTagged (by rw [hSlot]; exact Option.some_ne_none slot)
      have hHeld : ∀ bound,
          both.get? slot = some bound → bound = position :=
        fun bound hBound =>
          eq_of_allows hSlot hExplicit hAllows hBound
      have hOther : ∀ bound,
          other.get? slot = some bound → bound = position :=
        fun bound hBound =>
          hHeld bound (hMerge.extends_right hCompatible hBound)
      have hGiven : ∀ bound,
          given.get? slot = some bound → bound = position :=
        fun bound hBound => hHeld bound (hMerge.extends_left hBound)
      rw [record, record, hSlot]
      refine ⟨allows_of_compatible hSlot hOther, ?_, ?_⟩
      · intro own here there hHere hThere
        rw [Bindings.get?_set] at hThere
        split at hThere
        · rename_i hSame
          rw [hSame] at hHere
          rw [hGiven here hHere]
          exact Option.some.inj hThere
        · exact hCompatible hHere hThere
      · intro own
        rw [Bindings.get?_set, Bindings.get?_set]
        split
        · rename_i hSame
          rw [hSame]
          cases hHere : given.get? slot with
          | none => rfl
          | some bound => rw [hGiven bound hHere, Option.some_or]
        · exact hMerge own

theorem paths_merge
    {ref : CategoryRef}
    (hTagged : ref.slot ≠ none → ref.explicit = true) :
    (ref.paths window).Merges := by
  intro point reached hReached
  unfold paths at hReached ⊢
  split at hReached
  · cases hReached
  rcases List.mem_flatMap.mp hReached with
    ⟨entry, hEntry, hReached⟩
  rcases memberPaths_merge hTagged entry hReached with
    ⟨hKept, hMember⟩
  refine ⟨hKept, fun other hPos hExtends hCompatible => ?_⟩
  rcases hMember hPos hExtends hCompatible with
    ⟨last, hLast, hEnd⟩
  exact
    ⟨last, List.mem_flatMap.mpr ⟨entry, hEntry, hLast⟩, hEnd⟩

end CategoryRef

end References

------------------------------------------------------------
-- Elements and patterns
------------------------------------------------------------

section Patterns

variable {window : Window}

mutual

theorem Element.paths_merge :
    (element : Element) →
      (∀ ref ∈ element.categoryRefs,
        ref.slot ≠ none → ref.explicit = true) →
      Reach.Merges (Element.paths window element)
  | .literal symbol, _ =>
      (Window.consume_positional [symbol]).merges
        (Window.consume_idle [symbol])
  | .category ref, hTagged =>
      CategoryRef.paths_merge (hTagged ref List.mem_cons_self)
  | .wildcard, _ =>
      Window.consumeAny_positional.merges
        Window.consumeAny_idle
  | .gap _, _ =>
      (Window.consumeAny_positional.merges
        Window.consumeAny_idle).unbounded _
  | .edge, _ =>
      Window.standAtEdge_positional.merges
        Window.standAtEdge_idle
  | .null, _ => Reach.Merges.stay
  | .target false, _ =>
      (Window.consume_positional _).merges
        (Window.consume_idle _)
  | .target true, _ =>
      (Window.consume_positional _).merges
        (Window.consume_idle _)
  | .ditto, _ =>
      Window.consumeAgain_positional.merges
        Window.consumeAgain_idle
  | .optional body _, hTagged =>
      (Pattern.paths_merge body hTagged).optional
  | .repeated body _ _ _, hTagged =>
      have hBody := Element.paths_merge body hTagged
      (hBody.copies _).flatMap (hBody.further _)
  | .foreign _, _ => by
      intro point reached hReached
      cases hReached

/- All paths of a tagged pattern merge what is bound. -/
theorem Pattern.paths_merge :
    (pattern : Pattern) →
      pattern.IsTagged →
      Reach.Merges (Pattern.paths window pattern)
  | [], _ => Reach.Merges.stay
  | element :: rest, hTagged => by
      unfold Pattern.IsTagged at hTagged
      rw [Pattern.categoryRefs_cons] at hTagged
      have hElement : ∀ ref ∈ element.categoryRefs,
          ref.slot ≠ none → ref.explicit = true :=
        fun ref hMem =>
          hTagged ref (List.mem_append_left _ hMem)
      have hRest : Pattern.IsTagged rest :=
        fun ref hMem =>
          hTagged ref (List.mem_append_right _ hMem)
      exact
        (Element.paths_merge element hElement).flatMap
          (Pattern.paths_merge rest hRest)

end

/-
  A path that is taken under more bindings can be taken
  without them. What it binds goes together with them, and
  is merged with them at its end.
-/
theorem Pattern.paths_split
    {pattern : Pattern}
    (hTagged : pattern.IsTagged)
    {pos : Nat}
    {given one : Bindings}
    (hExtends : given.Extends one)
    {reached : Point}
    (hReached :
      reached ∈ Pattern.paths window pattern ⟨pos, one⟩) :
    ∃ last ∈ Pattern.paths window pattern ⟨pos, given⟩,
      last.pos = reached.pos ∧
        one.Compatible last.bindings ∧
        Bindings.IsMerge one last.bindings reached.bindings := by
  have hCarries :
      Reach.Carries
        (fun both other =>
          one.Compatible other ∧ Bindings.IsMerge one other both)
        (Pattern.paths window pattern) :=
    Pattern.paths_carry pattern fun ref hRef =>
      CategoryRef.respects_merge (hTagged ref hRef) one
  have hCompatible : one.Compatible given := by
    intro slot here there hHere hThere
    rw [hExtends hThere] at hHere
    exact (Option.some.inj hHere).symm
  have hStart : (⟨pos, given⟩ : Point).pos =
      (⟨pos, one⟩ : Point).pos := rfl
  exact hCarries hStart
    ⟨hCompatible, Bindings.IsMerge.of_extends hExtends⟩ hReached

end Patterns

end Diachrony
