import Diachrony.Pattern.Slots
import Diachrony.Source.Bracket

/-
  The slots of a pattern.

  A tagged reference has the slot that its tag names. The
  untagged references of a pattern are numbered depth first,
  and no number names the slot of a tag. So each of them has
  a slot of its own, and only tagged references can share
  one.

  Key definitions include:
    * `CategoryRef.AsRead`
    * `Pattern.untagged`
    * `Pattern.WellSlotted`

  Key theorems include:
    * `implicitSlot_injective`
    * `Pattern.categoryRefs_assignSlots`
    * `Pattern.slot_of_untagged`
    * `Pattern.wellSlotted_assignSlots`
-/

namespace Diachrony

------------------------------------------------------------
-- Names of slots
------------------------------------------------------------

theorem implicitSlot_injective
    {m n : Nat}
    (hSame : implicitSlot m = implicitSlot n) :
    m = n := by
  have hDigits : Nat.toDigits 10 m = Nat.toDigits 10 n := by
    have hLists := congrArg String.toList hSame
    simpa [implicitSlot, Nat.toString_eq_ofList_toDigits]
      using hLists
  calc
    m = Nat.ofDigitChars 10 (Nat.toDigits 10 m) 0 :=
      Nat.ofDigitChars_ten_toDigits.symm
    _ = Nat.ofDigitChars 10 (Nat.toDigits 10 n) 0 := by
      rw [hDigits]
    _ = n := Nat.ofDigitChars_ten_toDigits

/- No number names the slot of a tag. -/
theorem implicitSlot_ne_tagSlot
    (m n : Nat) :
    implicitSlot m ≠ tagSlot n := by
  intro hSame
  have hText := congrArg String.toList hSame
  simp [implicitSlot, tagSlot] at hText

theorem implicitSlot_ne_empty
    (n : Nat) :
    implicitSlot n ≠ "" := by
  intro hSame
  have hText := congrArg String.toList hSame
  simp [implicitSlot] at hText

theorem tagSlot_ne_empty
    (n : Nat) :
    tagSlot n ≠ "" := by
  intro hSame
  have hText := congrArg String.toList hSame
  simp [tagSlot] at hText

------------------------------------------------------------
-- Numbered references
------------------------------------------------------------

/-
  A reference as it is read: with the slot of its tag, or
  without any.
-/
structure CategoryRef.AsRead
    (ref : CategoryRef) : Prop where
  tagged :
    ref.explicit = true → ∃ n, ref.slot = some (tagSlot n)
  untagged : ref.explicit = false → ref.slot = none

/- A reference that is read with a slot is tagged. -/
theorem CategoryRef.AsRead.tagged_of_slot
    {ref : CategoryRef}
    {slot : String}
    (hRead : ref.AsRead)
    (hSlot : ref.slot = some slot) :
    ref.explicit = true := by
  by_cases hTagged : ref.explicit = true
  · exact hTagged
  · rw [hRead.untagged (Bool.eq_false_iff.mpr hTagged)] at hSlot
    cases hSlot

namespace CategoryRef

variable {ref : CategoryRef}
variable {refs before after : List CategoryRef}
variable {next : Nat}

/- Number the untagged references of a list. -/
def numberFrom
    (next : Nat) : List CategoryRef → List CategoryRef
  | [] => []
  | ref :: rest =>
      (ref.assignSlot next).1 ::
        numberFrom (ref.assignSlot next).2 rest

/- How many references of a list are untagged. -/
def untaggedIn
    (refs : List CategoryRef) : Nat :=
  refs.countP fun ref => !ref.explicit

@[simp]
theorem explicit_assignSlot :
    (ref.assignSlot next).1.explicit = ref.explicit := by
  unfold assignSlot
  split <;> rfl

theorem untaggedIn_cons :
    untaggedIn (ref :: refs) =
      untaggedIn refs + if ref.explicit then 0 else 1 := by
  rw [untaggedIn, List.countP_cons]
  cases ref.explicit <;> rfl

theorem untaggedIn_append :
    untaggedIn (before ++ after) =
      untaggedIn before + untaggedIn after :=
  List.countP_append

theorem next_assignSlot :
    (ref.assignSlot next).2 =
      next + if ref.explicit then 0 else 1 := by
  unfold assignSlot
  cases ref.explicit <;> rfl

theorem numberFrom_append :
    numberFrom next (before ++ after) =
      numberFrom next before ++
        numberFrom (next + untaggedIn before) after := by
  induction before generalizing next with
  | nil => rfl
  | cons ref rest ih =>
      have hCount :
          next + untaggedIn (ref :: rest) =
            (ref.assignSlot next).2 + untaggedIn rest := by
        rw [untaggedIn_cons, next_assignSlot]
        omega
      rw [List.cons_append, numberFrom, numberFrom, ih, hCount]
      rfl

/-
  The slot of an untagged reference is the number of those
  before it.
-/
theorem slot_of_numberFrom
    (hRefs :
      numberFrom next refs = before ++ ref :: after)
    (hUntagged : ref.explicit = false) :
    ref.slot =
      some (implicitSlot (next + untaggedIn before)) := by
  induction refs generalizing next before with
  | nil => cases before <;> cases hRefs
  | cons first rest ih =>
      rw [numberFrom] at hRefs
      cases before with
      | nil =>
          cases hRefs
          rw [explicit_assignSlot] at hUntagged
          simp [assignSlot, hUntagged, untaggedIn]
      | cons other before =>
          rcases List.cons.inj hRefs with ⟨rfl, hRest⟩
          rw [ih hRest, untaggedIn_cons, next_assignSlot,
            explicit_assignSlot]
          congr 2
          omega

/-
  A reference after numbering: a tagged one is as it was
  read, and an untagged one has the slot of a number that is
  not less than the first.
-/
theorem numbered_of_mem
    (hRead : ∀ ref ∈ refs, ref.AsRead)
    (hMem : ref ∈ numberFrom next refs) :
    (ref.explicit = true ∧
      ∃ n, ref.slot = some (tagSlot n)) ∨
    (ref.explicit = false ∧
      ∃ n, next ≤ n ∧ ref.slot = some (implicitSlot n)) := by
  induction refs generalizing next with
  | nil => cases hMem
  | cons first rest ih =>
      rcases List.forall_mem_cons.mp hRead with
        ⟨hFirst, hRest⟩
      rcases List.mem_cons.mp hMem with rfl | hLater
      · cases hTagged : first.explicit with
        | true =>
            left
            simp only [assignSlot, hTagged, if_true, true_and]
            exact hFirst.tagged hTagged
        | false =>
            right
            simp [assignSlot, hTagged]
            exact ⟨next, Nat.le_refl _, rfl⟩
      · rcases ih hRest hLater with
          hTagged | ⟨hUntagged, n, hn, hSlot⟩
        · exact Or.inl hTagged
        · refine Or.inr ⟨hUntagged, n, ?_, hSlot⟩
          rw [next_assignSlot] at hn
          omega

/- Only tagged references share a slot. -/
theorem pairwise_numberFrom
    (hRead : ∀ ref ∈ refs, ref.AsRead) :
    (numberFrom next refs).Pairwise fun one other =>
      one.slot = other.slot →
        one.explicit = true ∧ other.explicit = true := by
  induction refs generalizing next with
  | nil => exact List.Pairwise.nil
  | cons first rest ih =>
      rcases List.forall_mem_cons.mp hRead with
        ⟨hFirst, hRest⟩
      refine List.Pairwise.cons ?_ (ih hRest)
      intro other hOther hShared
      have hOther := numbered_of_mem hRest hOther
      rw [explicit_assignSlot]
      cases hTagged : first.explicit with
      | true =>
          rcases hFirst.tagged hTagged with ⟨m, hSlot⟩
          simp only [assignSlot, hTagged, if_true, hSlot]
            at hShared
          rcases hOther with ⟨hOther, _⟩ | ⟨_, n, _, hNumber⟩
          · exact ⟨rfl, hOther⟩
          · rw [hNumber] at hShared
            exact absurd (Option.some.inj hShared).symm
              (implicitSlot_ne_tagSlot n m)
      | false =>
          simp only [assignSlot, hTagged, Bool.false_eq_true,
            if_false] at hShared
          rcases hOther with ⟨_, n, hTag⟩ | ⟨_, n, hn, hNumber⟩
          · rw [hTag] at hShared
            exact absurd (Option.some.inj hShared)
              (implicitSlot_ne_tagSlot next n)
          · rw [hNumber] at hShared
            obtain rfl : next = n :=
              implicitSlot_injective (Option.some.inj hShared)
            rw [next_assignSlot, hTagged] at hn
            exact absurd hn (by simp)

end CategoryRef

------------------------------------------------------------
-- Patterns
------------------------------------------------------------

/- The number of untagged references in a pattern. -/
def Pattern.untagged
    (pattern : Pattern) : Nat :=
  CategoryRef.untaggedIn pattern.categoryRefs

/- The references in an element, depth first. -/
def Element.categoryRefs
    (element : Element) : List CategoryRef :=
  element.walk.filterMap Element.categoryRef?

theorem Pattern.categoryRefs_cons
    (element : Element)
    (rest : Pattern) :
    Pattern.categoryRefs (element :: rest) =
      element.categoryRefs ++ Pattern.categoryRefs rest := by
  rw [categoryRefs, Pattern.walk, List.filterMap_append]
  rfl

theorem Pattern.categoryRefs_append
    (before after : Pattern) :
    Pattern.categoryRefs (before ++ after) =
      Pattern.categoryRefs before ++
        Pattern.categoryRefs after := by
  induction before with
  | nil => rfl
  | cons element rest ih =>
      rw [List.cons_append, categoryRefs_cons, ih,
        categoryRefs_cons, List.append_assoc]

/- A reference by itself is one of the references. -/
theorem Pattern.categoryRefs_split
    (before after : Pattern)
    (ref : CategoryRef) :
    Pattern.categoryRefs (before ++ .category ref :: after) =
      Pattern.categoryRefs before ++
        ref :: Pattern.categoryRefs after := by
  rw [categoryRefs_append, categoryRefs_cons]
  rfl

theorem Pattern.mem_categoryRefs_split
    (before after : Pattern)
    (ref : CategoryRef) :
    ref ∈
      Pattern.categoryRefs
        (before ++ .category ref :: after) := by
  rw [categoryRefs_split]
  exact List.mem_append_right _ List.mem_cons_self

mutual

/- The references in an element are numbered in order. -/
theorem Element.categoryRefs_assignSlotsFrom :
    (element : Element) → (next : Nat) →
      (Element.assignSlotsFrom next element).1.categoryRefs =
          CategoryRef.numberFrom next element.categoryRefs ∧
        (Element.assignSlotsFrom next element).2 =
          next +
            CategoryRef.untaggedIn element.categoryRefs
  | .category ref, next => by
      constructor
      · rfl
      · simp only [Element.assignSlotsFrom,
          CategoryRef.next_assignSlot, Element.categoryRefs,
          Element.walk, List.filterMap_cons,
          Element.categoryRef?, List.filterMap_nil,
          CategoryRef.untaggedIn_cons]
        simp [CategoryRef.untaggedIn]
  | .optional body _, next =>
      Pattern.categoryRefs_assignSlotsFrom body next
  | .repeated body _ _ _, next =>
      Element.categoryRefs_assignSlotsFrom body next
  | .literal _, _ => ⟨rfl, rfl⟩
  | .wildcard, _ => ⟨rfl, rfl⟩
  | .gap _, _ => ⟨rfl, rfl⟩
  | .edge, _ => ⟨rfl, rfl⟩
  | .null, _ => ⟨rfl, rfl⟩
  | .target _, _ => ⟨rfl, rfl⟩
  | .ditto, _ => ⟨rfl, rfl⟩
  | .foreign _, _ => ⟨rfl, rfl⟩

theorem Pattern.categoryRefs_assignSlotsFrom :
    (pattern : Pattern) → (next : Nat) →
      Pattern.categoryRefs
            (Pattern.assignSlotsFrom next pattern).1 =
          CategoryRef.numberFrom next
            (Pattern.categoryRefs pattern) ∧
        (Pattern.assignSlotsFrom next pattern).2 =
          next + Pattern.untagged pattern
  | [], _ => ⟨rfl, rfl⟩
  | element :: rest, next => by
      have hFirst :=
        Element.categoryRefs_assignSlotsFrom element next
      have hRest :=
        Pattern.categoryRefs_assignSlotsFrom rest
          (Element.assignSlotsFrom next element).2
      constructor
      · rw [Pattern.assignSlotsFrom, Pattern.categoryRefs_cons,
          Pattern.categoryRefs_cons, hFirst.1, hRest.1,
          hFirst.2, CategoryRef.numberFrom_append]
      · rw [Pattern.assignSlotsFrom, hRest.2, hFirst.2,
          Pattern.untagged, Pattern.untagged,
          Pattern.categoryRefs_cons,
          CategoryRef.untaggedIn_append]
        omega

end

/- The references of a pattern are numbered in order. -/
theorem Pattern.categoryRefs_assignSlots
    (pattern : Pattern) :
    Pattern.categoryRefs (Pattern.assignSlots pattern) =
      CategoryRef.numberFrom 0 (Pattern.categoryRefs pattern) :=
  (Pattern.categoryRefs_assignSlotsFrom pattern 0).1

/-
  An untagged reference of a numbered pattern has the slot
  of the number of untagged references before it.
-/
theorem Pattern.slot_of_untagged
    {pattern before after : Pattern}
    {ref : CategoryRef}
    (hPattern :
      Pattern.assignSlots pattern =
        before ++ .category ref :: after)
    (hUntagged : ref.explicit = false) :
    ref.slot = some (implicitSlot before.untagged) := by
  have hRefs := Pattern.categoryRefs_assignSlots pattern
  rw [hPattern, Pattern.categoryRefs_append,
    Pattern.categoryRefs_cons] at hRefs
  have hSlot :=
    CategoryRef.slot_of_numberFrom hRefs.symm hUntagged
  rw [Nat.zero_add] at hSlot
  exact hSlot

/-
  Every reference of a pattern has a slot, and only tagged
  references share one.
-/
structure Pattern.WellSlotted
    (pattern : Pattern) : Prop where
  slotted :
    ∀ ref ∈ pattern.categoryRefs,
      ∃ slot, ref.slot = some slot ∧ slot ≠ ""
  shared :
    pattern.categoryRefs.Pairwise fun one other =>
      one.slot = other.slot →
        one.explicit = true ∧ other.explicit = true

/- Behind a reference only tagged ones have its slot. -/
theorem Pattern.WellSlotted.behind
    {before after : Pattern}
    {ref : CategoryRef}
    (hSlots :
      Pattern.WellSlotted (before ++ .category ref :: after)) :
    ∃ slot,
      ref.slot = some slot ∧
        slot ≠ "" ∧
        ∀ other ∈ Pattern.categoryRefs after,
          other.slot = some slot →
            ref.explicit = true ∧ other.explicit = true := by
  rcases hSlots.slotted ref
      (Pattern.mem_categoryRefs_split before after ref) with
    ⟨slot, hSlot, hSome⟩
  refine ⟨slot, hSlot, hSome, ?_⟩
  intro other hOther hShared
  have hPairs := hSlots.shared
  rw [Pattern.categoryRefs_split] at hPairs
  have hBehind :=
    (List.pairwise_cons.mp
      (List.pairwise_append.mp hPairs).2.1).1
  exact hBehind other hOther (hSlot.trans hShared.symm)

/- A pattern that is read is well slotted once it is numbered. -/
theorem Pattern.wellSlotted_assignSlots
    {pattern : Pattern}
    (hRead : ∀ ref ∈ pattern.categoryRefs, ref.AsRead) :
    (Pattern.assignSlots pattern).WellSlotted where
  slotted := by
    intro ref hMem
    rw [Pattern.categoryRefs_assignSlots] at hMem
    rcases CategoryRef.numbered_of_mem hRead hMem with
      ⟨_, n, hSlot⟩ | ⟨_, n, _, hSlot⟩
    · exact ⟨_, hSlot, tagSlot_ne_empty n⟩
    · exact ⟨_, hSlot, implicitSlot_ne_empty n⟩
  shared := by
    rw [Pattern.categoryRefs_assignSlots]
    exact CategoryRef.pairwise_numberFrom hRead

end Diachrony
