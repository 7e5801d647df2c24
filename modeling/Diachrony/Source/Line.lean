import Diachrony.Unicode.Blank
import Diachrony.Unicode.NameCharacter

/-
  Lines of rule source.

  A source is split at its line breaks. Of each line the
  comment and the blanks around are removed. What is left
  is blank, or defines a category, or is a metarule, or is
  a rule.

  Key definitions include:
    * `LineKind`
    * `SourceLine`
    * `breakLines`
    * `stripComment`
    * `CategoryLine`
    * `CategoryLine.read?`
    * `SourceLine.ofSource`
-/

namespace Diachrony

open Unicode

------------------------------------------------------------
-- Category lines
------------------------------------------------------------

/- What a category line does to the category it names. -/
inductive TableEdit where
  | define
  | extend
  | reduce
  deriving Repr, DecidableEq

/- The written form of an edit. -/
def TableEdit.text : TableEdit → String
  | define => "="
  | extend => "+="
  | reduce => "-="

/- The edit that a text begins with, and what follows it. -/
def TableEdit.read? :
    List Char → Option (TableEdit × List Char)
  | '+' :: '=' :: rest => some (.extend, rest)
  | '-' :: '=' :: rest => some (.reduce, rest)
  | '=' :: rest => some (.define, rest)
  | _ => none

/-
  The parts of a category line. The offset is that of the
  body in the line.
-/
structure CategoryLine where
  name : List Char
  edit : TableEdit
  body : List Char
  offset : Nat
  deriving Repr, DecidableEq

/-
  Read a category line: a name, an edit and the members,
  with blanks between them.
-/
def CategoryLine.read?
    (text : List Char) : Option CategoryLine :=
  let name := text.takeWhile isNameCharacter
  let afterName := text.dropWhile isNameCharacter
  if name.isEmpty then
    none
  else
    match TableEdit.read? (trimLeft afterName) with
    | none => none
    | some (edit, rest) =>
        let body := trimLeft rest
        some
          { name := name
            edit := edit
            body := body
            offset := text.length - body.length }

------------------------------------------------------------
-- Lines
------------------------------------------------------------

/- The kinds of lines. -/
inductive LineKind where
  | blank
  | category
  | metarule
  | rule
  deriving Repr, DecidableEq

/- The name of a kind of lines. -/
def LineKind.name : LineKind → String
  | blank => "BLANK"
  | category => "CATEGORY"
  | metarule => "METARULE"
  | rule => "RULE"

/-
  A line with its number, counted from one, its text
  without comment and outer blanks, the column at which the
  text begins, and its kind.
-/
structure SourceLine where
  number : Nat
  text : List Char
  column : Nat
  kind : LineKind
  deriving Repr, DecidableEq

/-
  Break a text into lines. A carriage return and the line
  feed after it are one break. What follows the last break
  is a line only if it is not empty.
-/
def breakLines
    (current : List Char) :
    List Char → List (List Char)
  | [] => if current.isEmpty then [] else [current.reverse]
  | '\r' :: '\n' :: rest =>
      current.reverse :: breakLines [] rest
  | c :: rest =>
      if isLineBreak c then
        current.reverse :: breakLines [] rest
      else
        breakLines (c :: current) rest

/-
  A line up to its comment. The comment begins at a double
  slash that is not escaped.
-/
def stripComment : List Char → List Char
  | [] => []
  | '\\' :: c :: rest => '\\' :: c :: stripComment rest
  | '/' :: '/' :: _ => []
  | c :: rest => c :: stripComment rest

/- The kind of a line with a given text. -/
def LineKind.ofText
    (text : List Char) : LineKind :=
  match text with
  | [] => .blank
  | '!' :: _ => .metarule
  | _ =>
      if (CategoryLine.read? text).isSome then
        .category
      else
        .rule

/- The line with a given number and raw text. -/
def SourceLine.ofRaw
    (number : Nat)
    (raw : List Char) : SourceLine :=
  let code := stripComment raw
  let text := trim code
  { number := number
    text := text
    column := code.length - (trimLeft code).length
    kind := LineKind.ofText text }

/- Number the lines of a list. -/
def SourceLine.ofRaws
    (number : Nat) : List (List Char) → List SourceLine
  | [] => []
  | raw :: rest =>
      SourceLine.ofRaw number raw ::
        SourceLine.ofRaws (number + 1) rest

/- The lines of a source. -/
def SourceLine.ofSource
    (source : String) : List SourceLine :=
  SourceLine.ofRaws 1 (breakLines [] source.toList)

end Diachrony
