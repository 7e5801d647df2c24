import Diachrony.Proofs.Matching.Progress
import Diachrony.Proofs.Pattern.Slots

/-
  Bindings along paths.

  Only references change the bindings on the way, and each
  of them binds its own slot to the position of a member it
  may match. So what each reference of a pattern preserves,
  all paths of the pattern preserve.

  Key definitions include:
    * `Reach.Keeps`
    * `CategoryRef.Preserves`

  Key theorems include:
    * `Bindings.get?_set`
    * `Pattern.paths_keep`
-/

namespace Diachrony

------------------------------------------------------------
-- Looking up what is bound
------------------------------------------------------------

namespace Bindings

variable (bindings : Bindings)
variable (position : Int)

theorem get?_set_self
    (slot : String) :
    (bindings.set slot position).get? slot = some position := by
  induction bindings with
  | nil => simp [set, get?]
  | cons entry rest ih =>
      rcases entry with ⟨other, p⟩
      by_cases hSlot : other = slot
      · simp [set, hSlot, get?]
      · have hOther : (slot == other) = false :=
          beq_false_of_ne (Ne.symm hSlot)
        simp only [get?] at ih
        simp [set, hSlot, get?, List.lookup_cons, hOther, ih]

theorem get?_set_ne
    {slot other : String}
    (hNe : other ≠ slot) :
    (bindings.set slot position).get? other =
      bindings.get? other := by
  induction bindings with
  | nil =>
      have hOther : (other == slot) = false :=
        beq_false_of_ne hNe
      simp [set, get?, List.lookup_cons, hOther]
  | cons entry rest ih =>
      rcases entry with ⟨first, p⟩
      simp only [get?] at ih
      by_cases hSlot : first = slot
      · subst hSlot
        have hOther : (other == first) = false :=
          beq_false_of_ne hNe
        simp [set, get?, List.lookup_cons, hOther]
      · simp only [set, hSlot, if_false, get?,
          List.lookup_cons, ih]

/- A slot is bound to what it was bound to last. -/
theorem get?_set
    (slot other : String) :
    (bindings.set slot position).get? other =
      if other = slot then
        some position
      else
        bindings.get? other := by
  split
  · rename_i hSame
    rw [hSame, get?_set_self]
  · rename_i hNe
    exact get?_set_ne bindings position hNe

end Bindings

------------------------------------------------------------
-- What is preserved
------------------------------------------------------------

namespace Reach

variable {property : Bindings → Prop}
variable {body first second : Reach}

/- What holds of the bindings at a point holds wherever it leads. -/
def Keeps
    (property : Bindings → Prop)
    (reach : Reach) : Prop :=
  ∀ ⦃point reached : Point⦄,
    property point.bindings →
    reached ∈ reach point →
      property reached.bindings

theorem Keeps.stay :
    Keeps property (fun point => [point]) := by
  intro point reached hPoint hReached
  obtain rfl := List.mem_singleton.mp hReached
  exact hPoint

theorem Keeps.flatMap
    (hFirst : Keeps property first)
    (hSecond : Keeps property second) :
    Keeps property
      (fun point => (first point).flatMap second) := by
  intro point reached hPoint hReached
  rcases List.mem_flatMap.mp hReached with
    ⟨between, hBetween, hReached⟩
  exact hSecond (hFirst hPoint hBetween) hReached

theorem Keeps.optional
    {isLazy : Bool}
    (hBody : Keeps property body) :
    Keeps property (optional isLazy body) := by
  intro point reached hPoint hReached
  rcases mem_prefer.mp hReached with hThrough | hAround
  · exact hBody hPoint hThrough
  · exact Keeps.stay hPoint hAround

theorem Keeps.copies
    (hBody : Keeps property body)
    (n : Nat) :
    Keeps property (copies body n) := by
  induction n with
  | zero => exact Keeps.stay
  | succ n ih => exact hBody.flatMap ih

theorem Keeps.upTo
    {isLazy : Bool}
    (hBody : Keeps property body)
    (n : Nat) :
    Keeps property (upTo isLazy body n) := by
  induction n with
  | zero => exact Keeps.stay
  | succ n ih => exact (hBody.flatMap ih).optional

theorem Keeps.unbounded
    {isLazy : Bool}
    (hBody : Keeps property body)
    (limit : Nat) :
    Keeps property (unbounded isLazy body limit) := by
  intro point reached hPoint hReached
  exact hBody.upTo (limit - point.pos) hPoint hReached

theorem Keeps.further
    {isLazy nullable : Bool}
    {limit : Nat}
    (hBody : Keeps property body)
    (most : Option Nat) :
    Keeps property
      (further isLazy nullable limit body most) := by
  cases most with
  | some n => exact hBody.upTo n
  | none =>
      cases nullable with
      | true => exact hBody.optional
      | false => exact hBody.unbounded limit

end Reach

------------------------------------------------------------
-- Single steps
------------------------------------------------------------

section Steps

variable {window : Window}
variable {property : Bindings → Prop}

/- Bindings stay the same on the way. -/
def Reach.Idle
    (reach : Reach) : Prop :=
  ∀ ⦃point reached : Point⦄,
    reached ∈ reach point → reached.bindings = point.bindings

theorem Reach.Idle.keeps
    {reach : Reach}
    (hIdle : reach.Idle) :
    reach.Keeps property := by
  intro point reached hPoint hReached
  rw [hIdle hReached]
  exact hPoint

theorem Window.consume_idle
    (symbols : List Symbol) :
    (window.consume symbols).Idle := by
  intro point reached hReached
  unfold consume at hReached
  split at hReached
  · obtain rfl := List.mem_singleton.mp hReached
    rfl
  · cases hReached

theorem Window.consumeAny_idle :
    window.consumeAny.Idle := by
  intro point reached hReached
  unfold consumeAny at hReached
  split at hReached
  · cases hReached
  · obtain rfl := List.mem_singleton.mp hReached
    rfl

theorem Window.standAtEdge_idle :
    window.standAtEdge.Idle := by
  intro point reached hReached
  unfold standAtEdge at hReached
  split at hReached
  · obtain rfl := List.mem_singleton.mp hReached
    rfl
  · cases hReached

theorem Window.consumeAgain_idle :
    window.consumeAgain.Idle := by
  intro point reached hReached
  rcases mem_consumeAgain hReached with ⟨symbol, hReached⟩
  exact Window.consume_idle [symbol] hReached

theorem Member.paths_idle
    (member : Member) :
    Reach.Idle (Member.paths window member) := by
  induction member with
  | nil =>
      intro point reached hReached
      obtain rfl := List.mem_singleton.mp hReached
      rfl
  | cons part rest ih =>
      intro point reached hReached
      rcases List.mem_flatMap.mp hReached with
        ⟨between, hBetween, hReached⟩
      rw [ih hReached]
      cases part with
      | symbol s => exact Window.consume_idle [s] hBetween
      | edge => exact Window.standAtEdge_idle hBetween

/- The category of a reference has a member at a position. -/
def CategoryRef.HasMember
    (ref : CategoryRef)
    (position : Nat) : Prop :=
  ∃ category,
    ref.category = some category ∧ position < category.size

/-
  A reference binds its slot to the position of a member
  that it may match.
-/
def CategoryRef.Preserves
    (ref : CategoryRef)
    (property : Bindings → Prop) : Prop :=
  ∀ ⦃bindings : Bindings⦄ ⦃position : Nat⦄,
    property bindings →
    ref.HasMember position →
    ref.allows bindings position = true →
      property (ref.record position bindings)

theorem CategoryRef.memberPaths_keep
    {ref : CategoryRef}
    (hRef : ref.Preserves property)
    {entry : Member × Nat}
    (hMember : ref.HasMember entry.2) :
    (ref.memberPaths window entry).Keeps property := by
  intro point reached hPoint hReached
  unfold memberPaths at hReached
  split at hReached
  · rename_i hAllows
    rcases List.mem_map.mp hReached with
      ⟨between, hBetween, rfl⟩
    rw [Member.paths_idle entry.1 hBetween]
    exact hRef hPoint hMember hAllows
  · cases hReached

theorem CategoryRef.paths_keep
    {ref : CategoryRef}
    (hRef : ref.Preserves property) :
    (ref.paths window).Keeps property := by
  intro point reached hPoint hReached
  unfold paths at hReached
  split at hReached
  · cases hReached
  · rename_i category hCategory
    rcases List.mem_flatMap.mp hReached with
      ⟨entry, hEntry, hReached⟩
    have hListed : entry ∈ category.members.zipIdx :=
      (List.mem_insertionSort _).mp hEntry
    have hMember : ref.HasMember entry.2 :=
      ⟨category, hCategory, List.snd_lt_of_mem_zipIdx hListed⟩
    exact
      CategoryRef.memberPaths_keep hRef hMember hPoint hReached

end Steps

------------------------------------------------------------
-- Elements and patterns
------------------------------------------------------------

section Patterns

variable {window : Window}
variable {property : Bindings → Prop}

mutual

/- What each reference of an element preserves, it keeps. -/
theorem Element.paths_keep :
    (element : Element) →
      (∀ ref ∈ element.categoryRefs,
        ref.Preserves property) →
      Reach.Keeps property (Element.paths window element)
  | .literal symbol, _ => (Window.consume_idle [symbol]).keeps
  | .category ref, hRefs =>
      CategoryRef.paths_keep (hRefs ref List.mem_cons_self)
  | .wildcard, _ => Window.consumeAny_idle.keeps
  | .gap _, _ =>
      Reach.Keeps.unbounded Window.consumeAny_idle.keeps _
  | .edge, _ => Window.standAtEdge_idle.keeps
  | .null, _ => Reach.Keeps.stay
  | .target false, _ => (Window.consume_idle _).keeps
  | .target true, _ => (Window.consume_idle _).keeps
  | .ditto, _ => Window.consumeAgain_idle.keeps
  | .optional body _, hRefs =>
      (Pattern.paths_keep body hRefs).optional
  | .repeated body _ _ _, hRefs =>
      have hBody := Element.paths_keep body hRefs
      (hBody.copies _).flatMap (hBody.further _)
  | .foreign _, _ => by
      intro point reached _ hReached
      cases hReached

theorem Pattern.paths_keep :
    (pattern : Pattern) →
      (∀ ref ∈ pattern.categoryRefs,
        ref.Preserves property) →
      Reach.Keeps property (Pattern.paths window pattern)
  | [], _ => Reach.Keeps.stay
  | element :: rest, hRefs => by
      rw [Pattern.categoryRefs_cons] at hRefs
      have hElement : ∀ ref ∈ element.categoryRefs,
          ref.Preserves property :=
        fun ref hMem => hRefs ref (List.mem_append_left _ hMem)
      have hRest : ∀ ref ∈ Pattern.categoryRefs rest,
          ref.Preserves property :=
        fun ref hMem =>
          hRefs ref (List.mem_append_right _ hMem)
      exact
        (Element.paths_keep element hElement).flatMap
          (Pattern.paths_keep rest hRest)

end

end Patterns

end Diachrony
