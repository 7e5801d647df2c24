import Diachrony.Symbol
import Diachrony.Text.Quoted

/-
  Words as sequences of symbols.

  Word edges are implicit: a pattern can test for them, but
  a word never stores them. Positions count symbols from
  zero; a negative position counts from the end.

  Key definitions include:
    * `Word`
    * `Word.text`
    * `Word.span`
    * `Word.splice`
    * `nth?`
    * `clamp`
    * `Word.slice`
    * `WordArray`
    * `Word.replace`
    * `Spelling`
-/

namespace Diachrony

------------------------------------------------------------
-- Positions
------------------------------------------------------------

/-
  The entry at a position that may count from the end.
-/
def nth?
    {α : Type}
    (entries : List α)
    (i : Int) : Option α :=
  if 0 ≤ i then
    entries[i.toNat]?
  else if 0 ≤ entries.length + i then
    entries[(entries.length + i).toNat]?
  else
    none

theorem nth?_natCast
    {α : Type}
    (entries : List α)
    (i : Nat) :
    nth? entries (i : Int) = entries[i]? := by
  rw [nth?, if_pos (Int.natCast_nonneg i), Int.toNat_natCast]

/-
  The cut position of a sequence that a bound stands for.
  Bounds beyond either end mean that end.
-/
def clamp
    (length : Nat)
    (i : Int) : Nat :=
  if i < 0 then
    (length + i).toNat
  else
    min i.toNat length

------------------------------------------------------------
-- Words
------------------------------------------------------------

/- A word is a sequence of symbols. -/
abbrev Word :=
  List Symbol

namespace Word

/- The symbols of a word written one after another. -/
def text
    (word : Word) : String :=
  String.join word

/- The symbols from `start` up to `stop`. -/
def span
    (word : Word)
    (start stop : Nat) : Word :=
  (word.drop start).take (stop - start)

/- A word with the symbols from `start` up to `stop` replaced. -/
def splice
    (word : Word)
    (start stop : Nat)
    (symbols : Word) : Word :=
  word.take start ++ symbols ++ word.drop stop

/- The symbols between two bounds. -/
def slice
    (word : Word)
    (start stop : Int) : Word :=
  word.span (clamp word.length start) (clamp word.length stop)

/-
  A word with the symbols between two bounds replaced. If
  the bounds are crossed nothing is removed and the symbols
  are inserted at `start`.
-/
def replace
    (word : Word)
    (start stop : Int)
    (symbols : Word) : Word :=
  word.splice
    (clamp word.length start)
    (max (clamp word.length start) (clamp word.length stop))
    symbols

/- A word as shown in a listing. -/
def describe
    (word : Word) : String :=
  "Word(" ++ quote (" ".intercalate word) ++ ")"

end Word

------------------------------------------------------------
-- Words as arrays
------------------------------------------------------------

/- A word as an array, whose symbols are found by position. -/
abbrev WordArray :=
  Array Symbol

namespace WordArray

/- The positions of a word, its end included. -/
def positions
    (word : WordArray) : List Nat :=
  List.range (word.size + 1)

/- The symbols from `start` up to `stop`. -/
def span
    (word : WordArray)
    (start stop : Nat) : Word :=
  (word.extract start stop).toList

/- A word with the symbols from `start` up to `stop` replaced. -/
def splice
    (word : WordArray)
    (start stop : Nat)
    (symbols : Word) : Word :=
  Word.splice word.toList start stop symbols

end WordArray

------------------------------------------------------------
-- Spellings
------------------------------------------------------------

/-
  The forms in which a word can be handed in: raw text that
  has to be segmented, a bare list of symbols, or a word.
-/
inductive Spelling where
  | raw (text : String)
  | symbols (given : List Symbol)
  | word (given : Word)
  deriving Repr, DecidableEq

namespace Spelling

/- The word that a spelling stands for. -/
def toWord
    (graphs : List String)
    (separator : Option String) :
    Spelling → Word
  | .raw text => segment graphs separator text
  | .symbols given => given
  | .word given => given

/- Only a word is equal to a word; other forms never are. -/
def equals
    (other : Spelling)
    (current : Word) : Bool :=
  match other with
  | .raw _ => false
  | .symbols _ => false
  | .word given => current = given

end Spelling

end Diachrony
