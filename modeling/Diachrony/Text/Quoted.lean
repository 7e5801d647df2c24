import Diachrony.Unicode.Printable

/-
  Quoted texts, as messages show them.

  A text stands between apostrophes, or between quotation
  marks if it contains an apostrophe and no quotation mark.
  Inside, the backslash and the mark in use are written
  with a backslash before them, and a character that cannot
  be shown is written by its code.

  Key definitions include:
    * `Quoted.mark`
    * `Quoted.escape`
    * `quote`
-/

namespace Diachrony

namespace Quoted

------------------------------------------------------------
-- Marks
------------------------------------------------------------

/- The apostrophe. -/
def apostrophe : Char :=
  Char.ofNat 39

/- The quotation mark. -/
def quotationMark : Char :=
  Char.ofNat 34

/- The mark that a quoted text stands between. -/
def mark
    (text : List Char) : Char :=
  if text.contains apostrophe &&
      !text.contains quotationMark then
    quotationMark
  else
    apostrophe

------------------------------------------------------------
-- Codes
------------------------------------------------------------

/- One lower-case hexadecimal digit. -/
def hexDigit
    (n : Nat) : Char :=
  if n < 10 then
    Char.ofNat (48 + n)
  else
    Char.ofNat (87 + n)

/- So many of the last hexadecimal digits of a number. -/
def hexDigits : Nat → Nat → List Char
  | 0, _ => []
  | width + 1, n =>
      hexDigits width (n / 16) ++ [hexDigit (n % 16)]

/- The code of a character in the shortest form that fits. -/
def code
    (c : Char) : List Char :=
  if c.toNat < 0x100 then
    '\\' :: 'x' :: hexDigits 2 c.toNat
  else if c.toNat < 0x10000 then
    '\\' :: 'u' :: hexDigits 4 c.toNat
  else
    '\\' :: 'U' :: hexDigits 8 c.toNat

------------------------------------------------------------
-- Quoting
------------------------------------------------------------

/- How a character is written between two marks. -/
def escape
    (mark : Char)
    (c : Char) : List Char :=
  if c = mark ∨ c = '\\' then
    ['\\', c]
  else if c = '\n' then
    ['\\', 'n']
  else if c = '\r' then
    ['\\', 'r']
  else if c = '\t' then
    ['\\', 't']
  else if Unicode.isPrintable c then
    [c]
  else
    code c

/- A text between two marks. -/
def encode
    (text : List Char) : List Char :=
  mark text ::
    (text.flatMap (escape (mark text)) ++ [mark text])

end Quoted

/- A text as a message quotes it. -/
def quote
    (text : String) : String :=
  String.ofList (Quoted.encode text.toList)

end Diachrony
