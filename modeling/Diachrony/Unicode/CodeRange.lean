/-
  Sets of characters given as sorted ranges of code points.

  A character property is a table of ranges. Membership
  reads the table from the left and gives up at the first
  range that starts beyond the character, so common
  characters are decided by the first few entries.

  Key definitions include:
    * `CodeRange`
    * `CodeRange.covers`
    * `Sorted`
-/

namespace Diachrony

namespace Unicode

------------------------------------------------------------
-- Ranges
------------------------------------------------------------

/- A range of code points, both ends included. -/
abbrev CodeRange :=
  Nat × Nat

/-
  Membership of a code point in a table of ranges that is
  sorted by its lower ends.
-/
def CodeRange.covers
    (code : Nat) :
    List CodeRange → Bool
  | [] => false
  | (low, high) :: rest =>
      if code < low then
        false
      else
        code ≤ high || CodeRange.covers code rest

/-
  A table is sorted if its ranges are proper and follow one
  another without touching.
-/
def Sorted : List CodeRange → Bool
  | [] => true
  | [(low, high)] => low ≤ high
  | (low, high) :: (low', high') :: rest =>
      low ≤ high && high + 1 < low' &&
        Sorted ((low', high') :: rest)

end Unicode

end Diachrony
