import Diachrony.Pattern

/-
  Implicit correlation slots.

  The untagged categories of a pattern are numbered from
  zero, depth first. Targets and replacements are numbered
  separately, so that categories with the same number are
  paired with each other.

  Key definitions include:
    * `implicitSlot`
    * `CategoryRef.assignSlot`
    * `Pattern.assignSlots`
-/

namespace Diachrony

/- The slot of the untagged category with a given number. -/
def implicitSlot
    (n : Nat) : String :=
  "~" ++ toString n

/-
  A reference with its slot, and the next free number. A
  tagged reference keeps its tag and takes no number.
-/
def CategoryRef.assignSlot
    (next : Nat)
    (ref : CategoryRef) : CategoryRef × Nat :=
  if ref.explicit then
    (ref, next)
  else
    ({ ref with slot := some (implicitSlot next) }, next + 1)

mutual

/- Number the untagged categories inside an element. -/
def Element.assignSlotsFrom
    (next : Nat) : Element → Element × Nat
  | .category ref =>
      let numbered := ref.assignSlot next
      (.category numbered.1, numbered.2)
  | .optional body isLazy =>
      let numbered := Pattern.assignSlotsFrom next body
      (.optional numbered.1 isLazy, numbered.2)
  | .repeated body min max isLazy =>
      let numbered := Element.assignSlotsFrom next body
      (.repeated numbered.1 min max isLazy, numbered.2)
  | element => (element, next)

/- Number the untagged categories of a pattern. -/
def Pattern.assignSlotsFrom
    (next : Nat) : Pattern → Pattern × Nat
  | [] => ([], next)
  | element :: rest =>
      let first := Element.assignSlotsFrom next element
      let others := Pattern.assignSlotsFrom first.2 rest
      (first.1 :: others.1, others.2)

end

/- Give the untagged categories of a pattern their slots. -/
def Pattern.assignSlots
    (pattern : Pattern) : Pattern :=
  (Pattern.assignSlotsFrom 0 pattern).1

end Diachrony
