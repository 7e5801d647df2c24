import Diachrony.Proofs.Matching.Members

/-
  Paths under bindings that agree.

  What a path asks of the bindings concerns the slots of its
  own references. So a pattern has the same paths, up to
  bindings, from all points at a position whose bindings
  agree on its slots, and they agree on these at the end. If
  its slots are tags, it also keeps what was bound before.

  Key definitions include:
    * `Bindings.AgreeOn`
    * `Bindings.Extends`
    * `Reach.Carries`
    * `Pattern.slots`
    * `Pattern.IsTagged`

  Key theorems include:
    * `Pattern.paths_carry`
    * `Pattern.paths_agree`
    * `Pattern.paths_extend`
-/

namespace Diachrony

------------------------------------------------------------
-- Bindings
------------------------------------------------------------

namespace Bindings

/- Bindings that bind some slots alike. -/
def AgreeOn
    (one other : Bindings)
    (slots : List String) : Prop :=
  ∀ slot ∈ slots, one.get? slot = other.get? slot

/- Later bindings bind all that is bound to the same. -/
def Extends
    (given later : Bindings) : Prop :=
  ∀ ⦃slot : String⦄ ⦃position : Int⦄,
    given.get? slot = some position →
      later.get? slot = some position

end Bindings

------------------------------------------------------------
-- What is carried along
------------------------------------------------------------

namespace Reach

variable {relation : Bindings → Bindings → Prop}
variable {body first second : Reach}

/-
  Where related bindings are found at a position, each way
  on from the one has a counterpart from the other, and the
  bindings at their ends are related again.
-/
def Carries
    (relation : Bindings → Bindings → Prop)
    (reach : Reach) : Prop :=
  ∀ ⦃point other reached : Point⦄,
    other.pos = point.pos →
    relation point.bindings other.bindings →
    reached ∈ reach point →
      ∃ last ∈ reach other,
        last.pos = reached.pos ∧
          relation reached.bindings last.bindings

theorem Carries.stay :
    Carries relation (fun point => [point]) := by
  intro point other reached hPos hRelated hReached
  obtain rfl := List.mem_singleton.mp hReached
  exact ⟨other, List.mem_singleton_self _, hPos, hRelated⟩

theorem Carries.flatMap
    (hFirst : Carries relation first)
    (hSecond : Carries relation second) :
    Carries relation
      (fun point => (first point).flatMap second) := by
  intro point other reached hPos hRelated hReached
  rcases List.mem_flatMap.mp hReached with
    ⟨between, hBetween, hReached⟩
  rcases hFirst hPos hRelated hBetween with
    ⟨middle, hMiddle, hSame, hMiddleRelated⟩
  rcases hSecond hSame hMiddleRelated hReached with
    ⟨last, hLast, hEnd⟩
  exact
    ⟨last, List.mem_flatMap.mpr ⟨middle, hMiddle, hLast⟩,
      hEnd⟩

theorem Carries.optional
    {isLazy : Bool}
    (hBody : Carries relation body) :
    Carries relation (optional isLazy body) := by
  intro point other reached hPos hRelated hReached
  rcases mem_prefer.mp hReached with hThrough | hAround
  · rcases hBody hPos hRelated hThrough with
      ⟨last, hLast, hEnd⟩
    exact ⟨last, mem_prefer.mpr (Or.inl hLast), hEnd⟩
  · rcases Carries.stay hPos hRelated hAround with
      ⟨last, hLast, hEnd⟩
    exact ⟨last, mem_prefer.mpr (Or.inr hLast), hEnd⟩

theorem Carries.copies
    (hBody : Carries relation body)
    (n : Nat) :
    Carries relation (copies body n) := by
  induction n with
  | zero => exact Carries.stay
  | succ n ih => exact hBody.flatMap ih

theorem Carries.upTo
    {isLazy : Bool}
    (hBody : Carries relation body)
    (n : Nat) :
    Carries relation (upTo isLazy body n) := by
  induction n with
  | zero => exact Carries.stay
  | succ n ih => exact (hBody.flatMap ih).optional

/- Both sides allow for the same number of copies. -/
theorem Carries.unbounded
    {isLazy : Bool}
    (hBody : Carries relation body)
    (limit : Nat) :
    Carries relation (unbounded isLazy body limit) := by
  intro point other reached hPos hRelated hReached
  unfold Reach.unbounded
  rw [hPos]
  exact hBody.upTo (limit - point.pos) hPos hRelated hReached

theorem Carries.further
    {isLazy nullable : Bool}
    {limit : Nat}
    (hBody : Carries relation body)
    (most : Option Nat) :
    Carries relation
      (further isLazy nullable limit body most) := by
  cases most with
  | some n => exact hBody.upTo n
  | none =>
      cases nullable with
      | true => exact hBody.optional
      | false => exact hBody.unbounded limit

end Reach

------------------------------------------------------------
-- Single steps
------------------------------------------------------------

section Steps

variable {window : Window}
variable {relation : Bindings → Bindings → Prop}

/- A way on that depends on the position alone. -/
def Reach.Positional
    (reach : Reach) : Prop :=
  ∀ ⦃point other reached : Point⦄,
    other.pos = point.pos →
    reached ∈ reach point →
      { other with pos := reached.pos } ∈ reach other

theorem Reach.Positional.carries
    {reach : Reach}
    (hPositional : reach.Positional)
    (hIdle : reach.Idle) :
    reach.Carries relation := by
  intro point other reached hPos hRelated hReached
  refine ⟨_, hPositional hPos hReached, rfl, ?_⟩
  rw [hIdle hReached]
  exact hRelated

theorem Window.consume_positional
    (symbols : List Symbol) :
    (window.consume symbols).Positional := by
  intro point other reached hPos hReached
  rcases mem_consume.mp hReached with ⟨hAhead, rfl⟩
  apply mem_consume.mpr
  rw [hPos]
  exact ⟨hAhead, by simp [Point.forward, hPos]⟩

theorem Window.consumeAny_positional :
    window.consumeAny.Positional := by
  intro point other reached hPos hReached
  unfold consumeAny at hReached ⊢
  rw [hPos]
  split at hReached
  · cases hReached
  · rename_i hAhead
    obtain rfl := List.mem_singleton.mp hReached
    rw [if_neg hAhead]
    simp [Point.forward, hPos]

theorem Window.standAtEdge_positional :
    window.standAtEdge.Positional := by
  intro point other reached hPos hReached
  unfold standAtEdge at hReached ⊢
  rw [hPos]
  split at hReached
  · rename_i hEdge
    obtain rfl := List.mem_singleton.mp hReached
    rw [if_pos hEdge, ← hPos]
    exact List.mem_singleton_self _
  · cases hReached

theorem Window.consumeAgain_positional :
    window.consumeAgain.Positional := by
  intro point other reached hPos hReached
  unfold consumeAgain at hReached ⊢
  rw [hPos]
  cases hHere : point.pos with
  | zero =>
      rw [hHere] at hReached
      cases hReached
  | succ before =>
      rw [hHere] at hReached
      dsimp only at hReached ⊢
      cases hSymbol : window.symbols[before]? with
      | none =>
          rw [hSymbol] at hReached
          cases hReached
      | some symbol =>
          rw [hSymbol] at hReached
          exact
            Window.consume_positional [symbol] hPos hReached

theorem Member.paths_positional
    (member : Member) :
    Reach.Positional (Member.paths window member) := by
  induction member with
  | nil =>
      intro point other reached hPos hReached
      obtain rfl := List.mem_singleton.mp hReached
      rw [← hPos]
      exact List.mem_singleton_self _
  | cons part rest ih =>
      intro point other reached hPos hReached
      rcases List.mem_flatMap.mp hReached with
        ⟨between, hBetween, hReached⟩
      have hPart : Reach.Positional (part.paths window) := by
        cases part with
        | symbol s => exact Window.consume_positional [s]
        | edge => exact Window.standAtEdge_positional
      refine List.mem_flatMap.mpr
        ⟨_, hPart hPos hBetween, ?_⟩
      refine ih ?_ hReached
      rfl

namespace CategoryRef

/-
  A reference allows as much under the second one of related
  bindings as under the first, and what is recorded is
  related again.
-/
def Respects
    (ref : CategoryRef)
    (relation : Bindings → Bindings → Prop) : Prop :=
  ∀ ⦃one other : Bindings⦄ ⦃position : Nat⦄,
    relation one other →
    ref.allows one position = true →
      ref.allows other position = true ∧
        relation (ref.record position one)
          (ref.record position other)

theorem memberPaths_carry
    {ref : CategoryRef}
    (hRef : ref.Respects relation)
    (entry : Member × Nat) :
    (ref.memberPaths window entry).Carries relation := by
  intro point other reached hPos hRelated hReached
  unfold memberPaths at hReached ⊢
  split at hReached
  · rename_i hAllows
    rcases hRef hRelated hAllows with ⟨hOther, hRecorded⟩
    rcases List.mem_map.mp hReached with
      ⟨between, hBetween, rfl⟩
    have hPath :=
      Member.paths_positional entry.1 hPos hBetween
    rw [if_pos hOther]
    refine ⟨_, List.mem_map_of_mem hPath, rfl, ?_⟩
    rw [Member.paths_idle entry.1 hBetween]
    exact hRecorded
  · cases hReached

theorem paths_carry
    {ref : CategoryRef}
    (hRef : ref.Respects relation) :
    (ref.paths window).Carries relation := by
  intro point other reached hPos hRelated hReached
  unfold paths at hReached ⊢
  split at hReached
  · cases hReached
  · rcases List.mem_flatMap.mp hReached with
      ⟨entry, hEntry, hReached⟩
    rcases memberPaths_carry hRef entry hPos hRelated hReached
      with ⟨last, hLast, hEnd⟩
    exact
      ⟨last, List.mem_flatMap.mpr ⟨entry, hEntry, hLast⟩,
        hEnd⟩

end CategoryRef

end Steps

------------------------------------------------------------
-- Elements and patterns
------------------------------------------------------------

section Patterns

variable {window : Window}
variable {relation : Bindings → Bindings → Prop}

mutual

/- What each reference of an element respects, it carries. -/
theorem Element.paths_carry :
    (element : Element) →
      (∀ ref ∈ element.categoryRefs,
        ref.Respects relation) →
      Reach.Carries relation (Element.paths window element)
  | .literal symbol, _ =>
      (Window.consume_positional [symbol]).carries
        (Window.consume_idle [symbol])
  | .category ref, hRefs =>
      CategoryRef.paths_carry (hRefs ref List.mem_cons_self)
  | .wildcard, _ =>
      Window.consumeAny_positional.carries
        Window.consumeAny_idle
  | .gap _, _ =>
      (Window.consumeAny_positional.carries
        Window.consumeAny_idle).unbounded _
  | .edge, _ =>
      Window.standAtEdge_positional.carries
        Window.standAtEdge_idle
  | .null, _ => Reach.Carries.stay
  | .target false, _ =>
      (Window.consume_positional _).carries
        (Window.consume_idle _)
  | .target true, _ =>
      (Window.consume_positional _).carries
        (Window.consume_idle _)
  | .ditto, _ =>
      Window.consumeAgain_positional.carries
        Window.consumeAgain_idle
  | .optional body _, hRefs =>
      (Pattern.paths_carry body hRefs).optional
  | .repeated body _ _ _, hRefs =>
      have hBody := Element.paths_carry body hRefs
      (hBody.copies _).flatMap (hBody.further _)
  | .foreign _, _ => by
      intro point other reached _ _ hReached
      cases hReached

theorem Pattern.paths_carry :
    (pattern : Pattern) →
      (∀ ref ∈ pattern.categoryRefs,
        ref.Respects relation) →
      Reach.Carries relation (Pattern.paths window pattern)
  | [], _ => Reach.Carries.stay
  | element :: rest, hRefs => by
      rw [Pattern.categoryRefs_cons] at hRefs
      have hElement : ∀ ref ∈ element.categoryRefs,
          ref.Respects relation :=
        fun ref hMem => hRefs ref (List.mem_append_left _ hMem)
      have hRest : ∀ ref ∈ Pattern.categoryRefs rest,
          ref.Respects relation :=
        fun ref hMem =>
          hRefs ref (List.mem_append_right _ hMem)
      exact
        (Element.paths_carry element hElement).flatMap
          (Pattern.paths_carry rest hRest)

end

end Patterns

------------------------------------------------------------
-- Slots and tags
------------------------------------------------------------

namespace Pattern

/- The slots of the references of a pattern. -/
def slots
    (pattern : Pattern) : List String :=
  pattern.categoryRefs.filterMap CategoryRef.slot

/- All slots of a pattern are tags. -/
def IsTagged
    (pattern : Pattern) : Prop :=
  ∀ ref ∈ pattern.categoryRefs,
    ref.slot ≠ none → ref.explicit = true

instance
    (pattern : Pattern) :
    Decidable pattern.IsTagged :=
  inferInstanceAs
    (Decidable
      (∀ ref ∈ pattern.categoryRefs,
        ref.slot ≠ none → ref.explicit = true))

variable {window : Window}
variable {pattern : Pattern}

theorem mem_slots
    {ref : CategoryRef}
    {slot : String}
    (hRef : ref ∈ pattern.categoryRefs)
    (hSlot : ref.slot = some slot) :
    slot ∈ pattern.slots :=
  List.mem_filterMap.mpr ⟨ref, hRef, hSlot⟩

/- A slot that is bound stays bound if all slots are tags. -/
theorem IsTagged.preserves_bound
    (hTagged : pattern.IsTagged)
    {ref : CategoryRef}
    (hRef : ref ∈ pattern.categoryRefs)
    (slot : String)
    (bound : Int) :
    ref.Preserves fun bindings =>
      bindings.get? slot = some bound := by
  apply CategoryRef.preserves_bound
  intro hSlot
  apply hTagged ref hRef
  rw [hSlot]
  exact Option.some_ne_none slot

/- Other slots than those of a pattern are left alone. -/
theorem preserves_other
    {ref : CategoryRef}
    (hRef : ref ∈ pattern.categoryRefs)
    {slot : String}
    (hOther : slot ∉ pattern.slots)
    (bound : Option Int) :
    ref.Preserves fun bindings =>
      bindings.get? slot = bound := by
  intro bindings position hBound _ _
  rw [CategoryRef.record]
  cases hSlot : ref.slot with
  | none => exact hBound
  | some own =>
      have hNe : slot ≠ own := by
        rintro rfl
        exact hOther (mem_slots hRef hSlot)
      exact (Bindings.get?_set_ne bindings position hNe).trans
        hBound

/- A reference looks at its own slot alone. -/
theorem respects_agreement
    {ref : CategoryRef}
    {slots : List String}
    (hRef : ref ∈ pattern.categoryRefs)
    (hSlots : pattern.slots ⊆ slots) :
    ref.Respects fun one other => one.AgreeOn other slots := by
  intro one other position hAgree hAllows
  cases hSlot : ref.slot with
  | none =>
      rw [CategoryRef.allows, hSlot] at hAllows ⊢
      rw [CategoryRef.record, CategoryRef.record, hSlot]
      exact ⟨hAllows, hAgree⟩
  | some own =>
      have hOwn := hAgree own (hSlots (mem_slots hRef hSlot))
      rw [CategoryRef.allows, hSlot, Option.bind_some]
        at hAllows ⊢
      rw [CategoryRef.record, CategoryRef.record, hSlot]
      refine ⟨hOwn ▸ hAllows, ?_⟩
      intro slot hMem
      rw [Bindings.get?_set, Bindings.get?_set,
        hAgree slot hMem]

/-
  Bindings that agree on the slots of a pattern let it reach
  the same positions.
-/
theorem paths_agree
    {pos : Nat}
    {one other : Bindings}
    (hAgree : one.AgreeOn other pattern.slots)
    {reached : Point}
    (hReached :
      reached ∈ Pattern.paths window pattern ⟨pos, one⟩) :
    ∃ last ∈ Pattern.paths window pattern ⟨pos, other⟩,
      last.pos = reached.pos := by
  have hCarries :
      Reach.Carries
        (fun one other => one.AgreeOn other pattern.slots)
        (Pattern.paths window pattern) :=
    Pattern.paths_carry pattern fun ref hRef =>
      respects_agreement hRef (List.Subset.refl _)
  have hStart : (⟨pos, other⟩ : Point).pos =
      (⟨pos, one⟩ : Point).pos := rfl
  rcases hCarries hStart hAgree hReached with
    ⟨last, hLast, hEnd, _⟩
  exact ⟨last, hLast, hEnd⟩

/- A tagged pattern keeps what is bound. -/
theorem paths_extend
    (hTagged : pattern.IsTagged)
    {point reached : Point}
    (hReached : reached ∈ Pattern.paths window pattern point) :
    point.bindings.Extends reached.bindings := by
  intro slot position hBound
  have hKeeps :
      Reach.Keeps
        (fun bindings => bindings.get? slot = some position)
        (Pattern.paths window pattern) :=
    Pattern.paths_keep pattern fun _ hRef =>
      hTagged.preserves_bound hRef slot position
  exact hKeeps hBound hReached

/- A path binds no other slots than those of its pattern. -/
theorem paths_agree_elsewhere
    {slots : List String}
    (hApart : pattern.slots.Disjoint slots)
    {point reached : Point}
    (hReached : reached ∈ Pattern.paths window pattern point) :
    reached.bindings.AgreeOn point.bindings slots := by
  intro slot hMem
  have hOther : slot ∉ pattern.slots :=
    fun hOwn => hApart hOwn hMem
  have hKeeps :
      Reach.Keeps
        (fun bindings =>
          bindings.get? slot = point.bindings.get? slot)
        (Pattern.paths window pattern) :=
    Pattern.paths_keep pattern fun _ hRef =>
      preserves_other hRef hOther _
  exact hKeeps rfl hReached

end Pattern

end Diachrony
