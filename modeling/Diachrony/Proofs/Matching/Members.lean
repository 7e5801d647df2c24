import Diachrony.Proofs.Matching.Bindings
import Diachrony.Proofs.Matching.Found

/-
  The member that a reference matches.

  On each path of a pattern, a reference that stands in the
  pattern by itself matches one of its members. Its slot is
  bound to the position of that member, and stays so up to
  the end of the path if only tags share the slot. So the
  bindings of a match tell which member was matched on the
  way to it.

  Key definitions include:
    * `CategoryRef.MatchesAt`
    * `Bindings.AreNumbered`

  Key theorems include:
    * `CategoryRef.exists_matchesAt`
    * `CategoryRef.MatchesAt.bound`
    * `CategoryRef.preserves_bound`
-/

namespace Diachrony

variable {window : Window}
variable {before after : Pattern}
variable {ref : CategoryRef}
variable {start stop : Point}
variable {position : Nat}

------------------------------------------------------------
-- Paths through a reference
------------------------------------------------------------

theorem Pattern.paths_append
    (window : Window)
    (before after : Pattern)
    (start : Point) :
    Pattern.paths window (before ++ after) start =
      (Pattern.paths window before start).flatMap
        (Pattern.paths window after) := by
  induction before generalizing start with
  | nil => exact (List.flatMap_singleton _ _).symm
  | cons element rest ih =>
      rw [List.cons_append, Pattern.paths, Pattern.paths,
        List.flatMap_assoc]
      congr 1
      funext between
      exact ih between

/-
  A path of a pattern leads from a point to another one, and
  a reference between two parts of the pattern matches its
  member at a position on the way.
-/
def CategoryRef.MatchesAt
    (ref : CategoryRef)
    (window : Window)
    (before after : Pattern)
    (start stop : Point)
    (position : Nat) : Prop :=
  ∃ category member near far,
    ref.category = some category ∧
      category.members[position]? = some member ∧
      near ∈ Pattern.paths window before start ∧
      far ∈ ref.memberPaths window (member, position) near ∧
      stop ∈ Pattern.paths window after far

/- A path through a reference passes one of its members. -/
theorem CategoryRef.exists_matchesAt
    (hStop :
      stop ∈
        Pattern.paths window (before ++ .category ref :: after)
          start) :
    ∃ position,
      ref.MatchesAt window before after start stop
        position := by
  rw [Pattern.paths_append] at hStop
  rcases List.mem_flatMap.mp hStop with ⟨near, hNear, hStop⟩
  rw [Pattern.paths] at hStop
  rcases List.mem_flatMap.mp hStop with ⟨far, hFar, hStop⟩
  rw [Element.paths, CategoryRef.paths] at hFar
  cases hCategory : ref.category with
  | none =>
      rw [hCategory] at hFar
      cases hFar
  | some category =>
      rw [hCategory] at hFar
      rcases List.mem_flatMap.mp hFar with
        ⟨⟨member, position⟩, hEntry, hFar⟩
      have hMember :
          (member, position) ∈ category.members.zipIdx :=
        (List.mem_insertionSort _).mp hEntry
      exact ⟨position, category, member, near, far, hCategory,
        List.mem_zipIdx_iff_getElem?.mp hMember, hNear, hFar,
        hStop⟩

------------------------------------------------------------
-- Bound slots
------------------------------------------------------------

/- A slot stays bound where only tags have it. -/
theorem CategoryRef.preserves_bound
    {slot : String}
    {bound : Int}
    (hTagged : ref.slot = some slot → ref.explicit = true) :
    ref.Preserves fun bindings =>
      bindings.get? slot = some bound := by
  intro bindings position hBound _ hAllows
  cases hSlot : ref.slot with
  | none =>
      rw [CategoryRef.record, hSlot]
      exact hBound
  | some own =>
      rw [CategoryRef.record, hSlot]
      by_cases hSame : own = slot
      · subst hSame
        have hHeld : bound = position := by
          rw [CategoryRef.allows, hTagged hSlot, hSlot,
            Option.bind_some, hBound] at hAllows
          exact of_decide_eq_true hAllows
        rw [hHeld]
        exact Bindings.get?_set_self bindings position own
      · have hOther : slot ≠ own := fun h => hSame h.symm
        exact (Bindings.get?_set_ne bindings position
          hOther).trans hBound

/- The slot of a reference is bound to what it matches. -/
theorem CategoryRef.MatchesAt.bound
    (hMatches :
      ref.MatchesAt window before after start stop position)
    {slot : String}
    (hSlot : ref.slot = some slot)
    (hTagged :
      ∀ other ∈ Pattern.categoryRefs after,
        other.slot = some slot → other.explicit = true) :
    stop.bindings.get? slot = some (position : Int) := by
  rcases hMatches with
    ⟨_, member, near, far, _, _, _, hFar, hStop⟩
  have hBound :
      far.bindings.get? slot = some (position : Int) := by
    rw [CategoryRef.memberPaths] at hFar
    split at hFar
    · rcases List.mem_map.mp hFar with ⟨point, _, rfl⟩
      dsimp only
      rw [CategoryRef.record, hSlot]
      exact Bindings.get?_set_self _ _ slot
    · cases hFar
  have hKeeps :
      Reach.Keeps
        (fun bindings =>
          bindings.get? slot = some (position : Int))
        (Pattern.paths window after) :=
    Pattern.paths_keep after fun other hMem =>
      CategoryRef.preserves_bound (hTagged other hMem)
  exact hKeeps hBound hStop

/- All slots are bound to positions. -/
def Bindings.AreNumbered
    (bindings : Bindings) : Prop :=
  ∀ slot bound,
    bindings.get? slot = some bound →
      ∃ position : Nat, bound = position

theorem CategoryRef.preserves_areNumbered
    (ref : CategoryRef) :
    ref.Preserves Bindings.AreNumbered := by
  intro bindings position hNumbered _ _
  cases hSlot : ref.slot with
  | none =>
      rw [CategoryRef.record, hSlot]
      exact hNumbered
  | some own =>
      rw [CategoryRef.record, hSlot]
      intro slot bound hBound
      rw [Bindings.get?_set] at hBound
      split at hBound
      · exact ⟨position, (Option.some.inj hBound).symm⟩
      · exact hNumbered slot bound hBound

end Diachrony
