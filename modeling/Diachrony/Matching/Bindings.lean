import Diachrony.Pattern

/-
  Correlation bindings.

  Bindings remember, for each slot, the position of the
  category member that was matched.

  Key definitions include:
    * `Bindings`
    * `Bindings.get?`
    * `Bindings.set`
    * `Bindings.bind`
-/

namespace Diachrony

/- For each bound slot, in order of binding, its position. -/
abbrev Bindings :=
  List (String × Int)

namespace Bindings

/- The position that a slot is bound to. -/
def get?
    (bindings : Bindings)
    (slot : String) : Option Int :=
  bindings.lookup slot

/- Bind a slot, in place of what it was bound to. -/
def set
    (slot : String)
    (position : Int) : Bindings → Bindings
  | [] => [(slot, position)]
  | (other, p) :: rest =>
      if other = slot then
        (slot, position) :: rest
      else
        (other, p) :: set slot position rest

/-
  Bind the slot of a reference to the position of a matched
  member. A reference without a slot binds nothing.
-/
def bind
    (bindings : Bindings)
    (slot : Option String)
    (position : Nat) : Bindings :=
  match slot with
  | none => bindings
  | some slot =>
      if bindings.get? slot = some (position : Int) then
        bindings
      else
        set slot position bindings

/-
  The position that a reference is held to. Only a tagged
  reference is held to an earlier binding.
-/
def required
    (bindings : Bindings)
    (ref : CategoryRef) : Option Int :=
  if ref.explicit then
    ref.slot.bind bindings.get?
  else
    none

end Bindings

end Diachrony
