import Diachrony.Matching.Search
import Diachrony.Value

/-
  Strict checks on the work of the engine.

  A strict run verifies that a replaced span lies inside
  the word, that only symbols are written, and that a
  persistent rule keeps to its bound. A failed check is a
  defect and ends the run.

  Key definitions include:
    * `Violation`
    * `Violation.message`
    * `checkSite`
    * `RunFault`
-/

namespace Diachrony

/- The checks that can fail. -/
inductive Violation where
  | spanOutside (start stop : Int) (length : Nat)
  | notASymbol (value : String)
  | passesBeyond (passes : Nat) (bound : Int)
  deriving Repr, DecidableEq

/- How a failed check is worded. -/
def Violation.message : Violation → String
  | .spanOutside start stop length =>
      "span (" ++ toString start ++ ", " ++ toString stop ++
        ") outside word of length " ++ toString length
  | .notASymbol value =>
      "replacement would write " ++ value ++ " into the word"
  | .passesBeyond passes bound =>
      "pass counter " ++ toString passes ++
        " exceeded bound " ++ toString bound

/- The first value that is not a symbol. -/
def firstForeign : List Value → Option Value
  | [] => none
  | .text _ :: rest => firstForeign rest
  | value :: _ => some value

/-
  Check that a span lies inside a word and that only
  symbols are to be written there.
-/
def checkSite
    (strict : Bool)
    (word : Word)
    (start stop : Int)
    (replacement : List Value) : Except Violation Unit :=
  if !strict then
    .ok ()
  else if ¬(0 ≤ start ∧ start ≤ stop ∧ stop ≤ word.length) then
    .error (.spanOutside start stop word.length)
  else
    match firstForeign replacement with
    | some value => .error (.notASymbol value.describe)
    | none => .ok ()

/- Why a run came to no result. -/
inductive RunFault where
  | foreignElement
  | violation (violation : Violation)
  deriving Repr, DecidableEq

end Diachrony
