import Diachrony.Proofs.Pattern.Slots
import Mathlib.Data.List.Forall2

/-
  Traversal of a pattern with a stack.

  A pattern can be visited without recursion: the elements
  that are still to be visited stand on a stack, and the
  parts of a visited element are put on top of it, the last
  part first. The elements are visited in the order in which
  the recursion over the pattern lists them, and this is the
  order in which slots are numbered.

  Key definitions include:
    * `Element.visit`
    * `Pattern.visitedRefs`
    * `Pattern.eraseSlots`
    * `Pattern.NumberedAs`

  Key theorems include:
    * `Element.visit_eq_walk`
    * `Pattern.eraseSlots_assignSlots`
    * `Pattern.assignSlots_eraseSlots`
    * `Pattern.assignSlots_inOrder`
-/

namespace Diachrony

------------------------------------------------------------
-- The stack
------------------------------------------------------------

/- The elements that an element is made of. -/
def Element.parts : Element → List Element
  | .optional body _ => body
  | .repeated body _ _ _ => [body]
  | _ => []

/- An element is walked through before its parts. -/
theorem Element.walk_eq
    (element : Element) :
    element.walk = element :: Pattern.walk element.parts := by
  cases element <;>
    simp [Element.walk, Element.parts, Pattern.walk]

theorem Pattern.walk_append
    (before after : Pattern) :
    Pattern.walk (before ++ after) =
      Pattern.walk before ++ Pattern.walk after := by
  induction before with
  | nil => rfl
  | cons element rest ih =>
      rw [List.cons_append, Pattern.walk, ih, Pattern.walk,
        List.append_assoc]

/-
  The elements of a stack are walked through from its top,
  the parts of the top one before all others.
-/
theorem Pattern.walk_of_back?
    {stack : Array Element}
    {element : Element}
    (hTop : stack.back? = some element) :
    Pattern.walk stack.toList.reverse =
      element ::
        Pattern.walk
          (stack.pop ++
            element.parts.reverse).toList.reverse := by
  obtain ⟨rest, rfl⟩ := Array.back?_eq_some_iff.mp hTop
  simp [Pattern.walk, Element.walk_eq, Pattern.walk_append]

theorem Pattern.length_walk_of_back?
    {stack : Array Element}
    {element : Element}
    (hTop : stack.back? = some element) :
    (Pattern.walk
        (stack.pop ++
          element.parts.reverse).toList.reverse).length <
      (Pattern.walk stack.toList.reverse).length := by
  rw [Pattern.walk_of_back? hTop, List.length_cons]
  exact Nat.lt_succ_self _

/-
  Visit the elements on a stack, of which the last one is on
  top. The parts of a visited element are put on the stack
  in reverse, so that the first of them is visited next.
-/
def Element.visit
    (stack : Array Element) : List Element :=
  match hTop : stack.back? with
  | none => []
  | some element =>
      have := Pattern.length_walk_of_back? hTop
      element ::
        Element.visit (stack.pop ++ element.parts.reverse)
termination_by (Pattern.walk stack.toList.reverse).length
decreasing_by
  assumption

/- The stack is visited as the recursion lists its elements. -/
theorem Element.visit_eq_walk
    (stack : Array Element) :
    Element.visit stack =
      Pattern.walk stack.toList.reverse := by
  fun_induction Element.visit stack with
  | case1 stack hEmpty =>
      obtain rfl := Array.back?_eq_none_iff.mp hEmpty
      rfl
  | case2 stack element hTop _ ih =>
      rw [ih, Pattern.walk_of_back? hTop]

namespace Pattern

/-
  The category references of a pattern in the order in which
  a stack visits them. At first all elements of the pattern
  are on the stack, the first one on top.
-/
def visitedRefs
    (pattern : Pattern) : List CategoryRef :=
  (Element.visit pattern.reverse.toArray).filterMap
    Element.categoryRef?

/- The untagged references in the order of visits. -/
def visitedUntagged
    (pattern : Pattern) : List CategoryRef :=
  pattern.visitedRefs.filter fun ref => !ref.explicit

/- References are visited as the recursion lists them. -/
theorem visitedRefs_eq_categoryRefs
    (pattern : Pattern) :
    pattern.visitedRefs = pattern.categoryRefs := by
  rw [visitedRefs, Element.visit_eq_walk,
    List.toList_toArray, List.reverse_reverse]
  rfl

end Pattern

------------------------------------------------------------
-- Numbers in order
------------------------------------------------------------

namespace CategoryRef

variable {refs : List CategoryRef}

/- The untagged references of a list get one number each. -/
theorem slots_numberFrom
    (next : Nat) :
    ((numberFrom next refs).filter fun ref =>
        !ref.explicit).map slot =
      (List.range' next (untaggedIn refs)).map fun n =>
        some (implicitSlot n) := by
  induction refs generalizing next with
  | nil => rfl
  | cons ref rest ih =>
      cases hTagged : ref.explicit with
      | true =>
          simp [numberFrom, assignSlot, untaggedIn_cons,
            hTagged, ih]
      | false =>
          simp [numberFrom, assignSlot, untaggedIn_cons,
            hTagged, ih, List.range'_succ]

/- Tagged references are numbered as they are. -/
theorem tagged_numberFrom
    (next : Nat) :
    List.Forall₂
      (fun ref numbered =>
        ref.explicit = true → numbered = ref)
      refs (numberFrom next refs) := by
  induction refs generalizing next with
  | nil => exact List.Forall₂.nil
  | cons ref rest ih =>
      refine List.Forall₂.cons ?_ (ih _)
      intro hTagged
      simp [assignSlot, hTagged]

end CategoryRef

------------------------------------------------------------
-- Erasing slots
------------------------------------------------------------

/- A reference without its slot, unless it is tagged. -/
def CategoryRef.eraseSlot
    (ref : CategoryRef) : CategoryRef :=
  if ref.explicit then ref else { ref with slot := none }

mutual

/- An element without the slots of untagged references. -/
def Element.eraseSlots : Element → Element
  | .category ref => .category ref.eraseSlot
  | .optional body isLazy =>
      .optional (Pattern.eraseSlots body) isLazy
  | .repeated body min max isLazy =>
      .repeated (Element.eraseSlots body) min max isLazy
  | element => element

/- A pattern without the slots of untagged references. -/
def Pattern.eraseSlots : Pattern → Pattern
  | [] => []
  | element :: rest =>
      Element.eraseSlots element :: Pattern.eraseSlots rest

end

namespace CategoryRef

/- Only the slot of an untagged reference is assigned. -/
theorem eraseSlot_assignSlot
    (next : Nat)
    (ref : CategoryRef) :
    (ref.assignSlot next).1.eraseSlot = ref.eraseSlot := by
  unfold assignSlot eraseSlot
  cases hTagged : ref.explicit <;> simp [hTagged]

/- What slot an untagged reference had does not matter. -/
theorem assignSlot_eraseSlot
    (next : Nat)
    (ref : CategoryRef) :
    ref.eraseSlot.assignSlot next = ref.assignSlot next := by
  unfold assignSlot eraseSlot
  cases hTagged : ref.explicit <;> simp [hTagged]

end CategoryRef

mutual

theorem Element.eraseSlots_assignSlotsFrom :
    (element : Element) → (next : Nat) →
      (Element.assignSlotsFrom next element).1.eraseSlots =
        element.eraseSlots
  | .category ref, next =>
      congrArg Element.category (ref.eraseSlot_assignSlot next)
  | .optional body isLazy, next =>
      congrArg (Element.optional · isLazy)
        (Pattern.eraseSlots_assignSlotsFrom body next)
  | .repeated body min max isLazy, next =>
      congrArg (Element.repeated · min max isLazy)
        (Element.eraseSlots_assignSlotsFrom body next)
  | .literal _, _ => rfl
  | .wildcard, _ => rfl
  | .gap _, _ => rfl
  | .edge, _ => rfl
  | .null, _ => rfl
  | .target _, _ => rfl
  | .ditto, _ => rfl
  | .foreign _, _ => rfl

theorem Pattern.eraseSlots_assignSlotsFrom :
    (pattern : Pattern) → (next : Nat) →
      Pattern.eraseSlots
          (Pattern.assignSlotsFrom next pattern).1 =
        Pattern.eraseSlots pattern
  | [], _ => rfl
  | element :: rest, next => by
      rw [Pattern.assignSlotsFrom, Pattern.eraseSlots,
        Element.eraseSlots_assignSlotsFrom element,
        Pattern.eraseSlots_assignSlotsFrom rest,
        Pattern.eraseSlots]

end

mutual

theorem Element.assignSlotsFrom_eraseSlots :
    (element : Element) → (next : Nat) →
      Element.assignSlotsFrom next element.eraseSlots =
        Element.assignSlotsFrom next element
  | .category ref, next => by
      simp only [Element.eraseSlots, Element.assignSlotsFrom,
        ref.assignSlot_eraseSlot]
  | .optional body _, next => by
      simp only [Element.eraseSlots, Element.assignSlotsFrom,
        Pattern.assignSlotsFrom_eraseSlots body]
  | .repeated body _ _ _, next => by
      simp only [Element.eraseSlots, Element.assignSlotsFrom,
        Element.assignSlotsFrom_eraseSlots body]
  | .literal _, _ => rfl
  | .wildcard, _ => rfl
  | .gap _, _ => rfl
  | .edge, _ => rfl
  | .null, _ => rfl
  | .target _, _ => rfl
  | .ditto, _ => rfl
  | .foreign _, _ => rfl

theorem Pattern.assignSlotsFrom_eraseSlots :
    (pattern : Pattern) → (next : Nat) →
      Pattern.assignSlotsFrom next
          (Pattern.eraseSlots pattern) =
        Pattern.assignSlotsFrom next pattern
  | [], _ => rfl
  | element :: rest, next => by
      simp only [Pattern.eraseSlots, Pattern.assignSlotsFrom,
        Element.assignSlotsFrom_eraseSlots element,
        Pattern.assignSlotsFrom_eraseSlots rest]

end

namespace Pattern

/- Numbering changes nothing but the slots it assigns. -/
theorem eraseSlots_assignSlots
    (pattern : Pattern) :
    Pattern.eraseSlots (assignSlots pattern) =
      Pattern.eraseSlots pattern :=
  eraseSlots_assignSlotsFrom pattern 0

/- Numbering does not depend on the slots it assigns. -/
theorem assignSlots_eraseSlots
    (pattern : Pattern) :
    assignSlots (Pattern.eraseSlots pattern) =
      assignSlots pattern :=
  congrArg Prod.fst (assignSlotsFrom_eraseSlots pattern 0)

------------------------------------------------------------
-- Numbered patterns
------------------------------------------------------------

/-
  What a pattern becomes when its slots are numbered in the
  order of visits:
    * its references are visited in the order in which they
      are written;
    * the untagged references visited have the slots of the
      numbers from zero on, one after another;
    * each tagged reference is as it was;
    * nothing but slots of untagged references is changed.
-/
structure NumberedAs
    (pattern numbered : Pattern) : Prop where
  written : numbered.visitedRefs = numbered.categoryRefs
  consecutive :
    numbered.visitedUntagged.map CategoryRef.slot =
      (List.range pattern.visitedUntagged.length).map fun n =>
        some (implicitSlot n)
  tagged :
    List.Forall₂
      (fun ref after => ref.explicit = true → after = ref)
      pattern.visitedRefs numbered.visitedRefs
  erased :
    Pattern.eraseSlots numbered = Pattern.eraseSlots pattern

theorem numberedAs_assignSlots
    (pattern : Pattern) :
    pattern.NumberedAs (assignSlots pattern) where
  written := visitedRefs_eq_categoryRefs _
  consecutive := by
    have hCount :
        pattern.visitedUntagged.length =
          CategoryRef.untaggedIn pattern.categoryRefs := by
      rw [visitedUntagged, visitedRefs_eq_categoryRefs,
        CategoryRef.untaggedIn, List.countP_eq_length_filter]
    rw [hCount, visitedUntagged, visitedRefs_eq_categoryRefs,
      categoryRefs_assignSlots, CategoryRef.slots_numberFrom,
      List.range_eq_range']
  tagged := by
    rw [visitedRefs_eq_categoryRefs,
      visitedRefs_eq_categoryRefs, categoryRefs_assignSlots]
    exact CategoryRef.tagged_numberFrom 0
  erased := eraseSlots_assignSlots pattern

/-
  Slots are numbered in the order in which a stack visits
  the references of the numbered pattern, and numbering a
  pattern again changes nothing.
-/
theorem assignSlots_inOrder
    (pattern : Pattern) :
    pattern.NumberedAs (assignSlots pattern) ∧
      assignSlots (assignSlots pattern) =
        assignSlots pattern := by
  refine ⟨numberedAs_assignSlots pattern, ?_⟩
  calc
    assignSlots (assignSlots pattern) =
        assignSlots
          (Pattern.eraseSlots (assignSlots pattern)) :=
      (assignSlots_eraseSlots _).symm
    _ = assignSlots (Pattern.eraseSlots pattern) := by
      rw [eraseSlots_assignSlots]
    _ = assignSlots pattern := assignSlots_eraseSlots pattern

/- References in a group, in a repetition and behind them. -/
def nestedRefs : Pattern :=
  [ .optional
      [ .category { category := none, name := "A" },
        .repeated
          (.optional
            [ .category
                { category := none
                  name := "B"
                  slot := some "^1"
                  explicit := true },
              .category { category := none, name := "C" } ]
            false)
          1 none false,
        .category { category := none, name := "D" } ]
      true,
    .gap false,
    .category { category := none, name := "E" } ]

example :
    ((assignSlots nestedRefs).visitedRefs.map fun ref =>
        (ref.name, ref.slot)) =
      [ ("A", some "~0"), ("B", some "^1"), ("C", some "~1"),
        ("D", some "~2"), ("E", some "~3") ] := by
  rw [visitedRefs_eq_categoryRefs]
  decide

end Pattern

end Diachrony
