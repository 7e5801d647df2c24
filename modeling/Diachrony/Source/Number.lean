import Diachrony.Source.Error
import Diachrony.Text.DigitLimit
import Diachrony.Unicode.Digit

/-
  Numbers in rule source.

  A number is a run of decimal digits of any script, of no
  more digits than the limit on them admits.

  Key definitions include:
    * `isNumeral`
    * `readNumber`
-/

namespace Diachrony

open Unicode

/- Whether a text is a run of decimal digits. -/
def isNumeral
    (text : List Char) : Bool :=
  !text.isEmpty && text.all isDecimal

/- The number that a text of digits spells. -/
def readNumber
    (limit : DigitLimit)
    (text : List Char) : Except ReadError Nat :=
  if !limit.admits text.length then
    .error (.tooManyDigits (String.ofList text))
  else
    match number? text with
    | some n => .ok n
    | none => .error (.notDecimal (String.ofList text))

end Diachrony
