import Diachrony.Source.Reader

/-
  Match indices as they are written.

  Matches are counted from one, or from the end with
  negative numbers. Several indices have bars between them.

  Key definitions include:
    * `indexDigits?`
    * `readIndex`
    * `readIndices`
    * `readIndices?`
-/

namespace Diachrony

open Unicode

/-
  The digits of a text that spells an index, and whether it
  is negative.
-/
def indexDigits?
    (text : List Char) : Option (Bool × List Char) :=
  let negative := text.head? = some '-'
  let digits := if negative then text.drop 1 else text
  if isNumeral digits then some (negative, digits) else none

/-
  The index that is written with a number. Matches are
  counted from one, but kept as counted from zero. Zero is
  the first match as well, and negative indices count from
  the end.
-/
def indexOf
    (negative : Bool)
    (n : Nat) : Int :=
  if negative then -(n : Int) else ((n - 1 : Nat) : Int)

/- Read the index that a token spells. -/
def readIndex
    (context : ReadContext)
    (token : Token) : Except ReadError Int :=
  match token.kind, indexDigits? token.text.toList with
  | .text, some (negative, digits) =>
      match readNumber context.digitLimit digits with
      | .error e => .error e
      | .ok n => .ok (indexOf negative n)
  | _, _ => context.failOn token .malformedIndex

/-
  Read match indices with bars between them. The tokens are
  those after the sign that announces them.
-/
def readIndices
    (context : ReadContext) :
    List Token → Except ReadError (List Int × List Token)
  | [] => context.failAt [] .malformedIndex
  | token :: rest =>
      match readIndex context token with
      | .error e => .error e
      | .ok i =>
          match rest with
          | next :: more =>
              if next.kind = .pipe then
                match readIndices context more with
                | .error e => .error e
                | .ok (others, after) => .ok (i :: others, after)
              else
                .ok ([i], next :: more)
          | [] => .ok ([i], [])

/- Read match indices, if there are any. -/
def readIndices?
    (context : ReadContext)
    (tokens : List Token) :
    Except ReadError (Option (List Int) × List Token) :=
  match skipToken? .atSign tokens with
  | none => .ok (none, tokens)
  | some rest =>
      match readIndices context rest with
      | .error e => .error e
      | .ok (indices, after) => .ok (some indices, after)

end Diachrony
