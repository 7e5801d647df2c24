import Diachrony.Source.Error
import Diachrony.Unicode.Blank

/-
  The fields of a line, as brackets divide it.

  A backslash and the character after it are passed over.
  All other characters are read with the depth of brackets
  they stand in; an opening bracket stands inside itself
  and a closing bracket outside.

  Key definitions include:
    * `bracketDepth`
    * `splitTop`
    * `flagsStart?`
    * `checkBalanced`
-/

namespace Diachrony

open Unicode

------------------------------------------------------------
-- Brackets
------------------------------------------------------------

/- The opening brackets. -/
def isOpening
    (c : Char) : Bool :=
  c = '[' || c = '(' || c = '{'

/- The opening bracket that a closing bracket belongs to. -/
def openingOf? : Char → Option Char
  | ']' => some '['
  | ')' => some '('
  | '}' => some '{'
  | _ => none

/- The depth of brackets at a character. -/
def bracketDepth
    (depth : Int)
    (c : Char) : Int :=
  if isOpening c then
    depth + 1
  else if (openingOf? c).isSome then
    depth - 1
  else
    depth

------------------------------------------------------------
-- Splitting
------------------------------------------------------------

/-
  The parts of a text between the separators that stand
  outside brackets. `part` holds the part that is being
  read, last character first.
-/
def splitFrom
    (isSeparator : Char → Bool)
    (depth : Int)
    (part : List Char) :
    List Char → List (List Char)
  | [] => [part.reverse]
  | '\\' :: c :: rest =>
      splitFrom isSeparator depth (c :: '\\' :: part) rest
  | ['\\'] => [('\\' :: part).reverse]
  | c :: rest =>
      let here := bracketDepth depth c
      if isSeparator c && here = 0 then
        part.reverse :: splitFrom isSeparator here [] rest
      else
        splitFrom isSeparator here (c :: part) rest

/- Split a text at the separators outside brackets. -/
def splitTop
    (isSeparator : Char → Bool)
    (text : List Char) : List (List Char) :=
  splitFrom isSeparator 0 [] text

------------------------------------------------------------
-- Flags
------------------------------------------------------------

/-
  Characters after which, and before which, blanks do not
  end the body of a rule.
-/
def isOperator
    (c : Char) : Bool :=
  c = '>' || c = '/' || c = '!' || c = '&' || c = ',' ||
    c = '_' || c = '|' || c = '@'

/-
  Whether the text before a gap may be followed by flags. It
  is given last character first. It must not end in an
  operator, unless a backslash stands before that.
-/
def mayPrecedeFlags : List Char → Bool
  | [] => false
  | [c] => !isOperator c
  | c :: previous :: _ => previous = '\\' || !isOperator c

/-
  Whether flags may start with a character. An exclamation
  mark starts flags only if what it begins is a flag list;
  otherwise it opens an exception.
-/
def mayStartFlags
    {ε : Type}
    (isFlagList : List Char → Except ε Bool)
    (text : List Char) : Except ε Bool :=
  match text with
  | [] => .ok false
  | c :: _ =>
      if c = '!' then isFlagList text else .ok (!isOperator c)

/-
  The position at which the flags of a rule start. They
  start after the first gap outside brackets that neither
  follows nor precedes an operator. `passed` is the text
  before the position, last character first, and `gap` the
  text before the gap that has been seen last.
-/
def flagsStartFrom
    {ε : Type}
    (isFlagList : List Char → Except ε Bool)
    (depth : Int)
    (gap : Option (List Char))
    (passed : List Char) :
    List Char → Except ε (Option Nat)
  | [] => .ok none
  | '\\' :: c :: rest =>
      flagsStartFrom isFlagList depth gap
        (c :: '\\' :: passed) rest
  | ['\\'] => .ok none
  | c :: rest =>
      let here := bracketDepth depth c
      if isBlank c then
        let gap :=
          if gap.isNone && here = 0 then some passed else gap
        flagsStartFrom isFlagList here gap (c :: passed) rest
      else if gap.any mayPrecedeFlags && here = 0 then
        match mayStartFlags isFlagList (c :: rest) with
        | .error e => .error e
        | .ok true => .ok (some passed.length)
        | .ok false =>
            flagsStartFrom isFlagList here none (c :: passed)
              rest
      else
        flagsStartFrom isFlagList here none (c :: passed) rest

/- The position at which the flags of a rule text start. -/
def flagsStart?
    {ε : Type}
    (isFlagList : List Char → Except ε Bool)
    (text : List Char) : Except ε (Option Nat) :=
  flagsStartFrom isFlagList 0 none [] text

------------------------------------------------------------
-- Balance
------------------------------------------------------------

/-
  Check the brackets of a text that begins at a column.
  `opened` holds the brackets that are open, the innermost
  first, with their columns.
-/
def checkBrackets
    (line : Int)
    (column : Int)
    (opened : List (Char × Int)) :
    List Char → Except SourceError Unit
  | [] =>
      match opened with
      | [] => .ok ()
      | (bracket, place) :: _ =>
          .error
            { cause := .unclosed bracket
              line := line
              column := place }
  | '\\' :: _ :: rest =>
      checkBrackets line (column + 2) opened rest
  | c :: rest =>
      if isOpening c then
        checkBrackets line (column + 1)
          ((c, column) :: opened) rest
      else
        match openingOf? c, opened with
        | none, _ =>
            checkBrackets line (column + 1) opened rest
        | some opening, (bracket, _) :: outer =>
            if bracket = opening then
              checkBrackets line (column + 1) outer rest
            else
              .error
                { cause := .unbalanced c
                  line := line
                  column := column }
        | some _, [] =>
            .error
              { cause := .unbalanced c
                line := line
                column := column }

/- Check that the brackets of a text are balanced. -/
def checkBalanced
    (text : List Char)
    (line column : Int) : Except SourceError Unit :=
  checkBrackets line column [] text

end Diachrony
