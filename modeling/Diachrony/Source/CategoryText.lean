import Diachrony.Category.Table
import Diachrony.Diagnostic
import Diachrony.Source.Field
import Diachrony.Source.FlagList
import Diachrony.Source.Line

/-
  The members of a category line.

  A member is the word edge, the members of another
  category, or a text that is split into symbols. Members
  are separated by commas outside brackets.

  Key definitions include:
    * `MemberText`
    * `MemberText.ofText`
    * `readMemberTexts`
    * `readCategoryBody`
-/

namespace Diachrony

open Unicode

/- A comma. -/
def isComma
    (c : Char) : Bool :=
  c = ','

/- What one item of a category line stands for. -/
inductive MemberText where
  | edge
  | nested (name : String)
  | symbols (text : String)
  deriving Repr, DecidableEq

/-
  Read an item without outer blanks. Backslashes are
  dropped. A bracket may only enclose the whole item.
-/
def MemberText.ofText
    (place : Place)
    (text : List Char) : Except SourceError MemberText :=
  if text.isEmpty then
    place.error .emptyMember
  else if text = ['#'] then
    .ok .edge
  else if text.head? = some '[' ∧ text.getLast? = some ']' then
    .ok (.nested
      (String.ofList (trim (text.drop 1).dropLast)))
  else if text.contains '[' ∨ text.contains ']' then
    place.error (.malformedMember (String.ofList text))
  else
    .ok (.symbols (String.ofList (text.filter (· ≠ '\\'))))

/- The members that an item stands for, and what is reported. -/
def MemberText.members
    (table : Table)
    (graphs : List String)
    (place : Place) :
    MemberText → List Member × List Diagnostic
  | .edge => ([[.edge]], [])
  | .symbols text =>
      ([Member.ofSymbols (segment graphs none text)], [])
  | .nested name =>
      match table.resolve? name with
      | some category => (category.members, [])
      | none =>
          ([],
            [ { problem := .undefinedCategory name
                line := some place.line
                column := some place.column } ])

/-
  Read the items of a category line. The column is that of
  the first item, and the items are one comma apart.
-/
def readMemberTexts
    (table : Table)
    (graphs : List String)
    (line : Int)
    (column : Int) :
    List (List Char) →
    Except SourceError (List Member × List Diagnostic)
  | [] => .ok ([], [])
  | part :: rest =>
      let blanks := part.length - (trimLeft part).length
      let place : Place :=
        { line := line, column := column + blanks }
      match MemberText.ofText place (trim part) with
      | .error e => .error e
      | .ok item =>
          let here := item.members table graphs place
          match
            readMemberTexts table graphs line
              (column + part.length + 1) rest
          with
          | .error e => .error e
          | .ok (members, diagnostics) =>
              .ok
                (here.1 ++ members, here.2 ++ diagnostics)

/- Read the members that follow the sign of a category line. -/
def readCategoryBody
    (table : Table)
    (graphs : List String)
    (place : Place)
    (body : List Char) :
    Except SourceError (List Member × List Diagnostic) :=
  if (trim body).isEmpty then
    place.error .noMembers
  else
    readMemberTexts table graphs place.line place.column
      (splitTop isComma body)

/- The graphs that a line of graphs lists. -/
def readGraphs
    (body : List Char) : List String :=
  (((splitTop isComma body).map trim).filter
    (fun graph => !graph.isEmpty)).map String.ofList

/- The graphs in force after a line that lists some. -/
def TableEdit.editGraphs
    (edit : TableEdit)
    (graphs listed : List String) : List String :=
  match edit with
  | .define => listed
  | .extend =>
      graphs ++ listed.filter fun g => !graphs.contains g
  | .reduce => graphs.filter fun g => !listed.contains g

/- The members that a name stands for after an edit. -/
def TableEdit.editMembers
    (edit : TableEdit)
    (table : Table)
    (name : String)
    (members : List Member) : List Member :=
  match edit with
  | .define => members
  | .extend => table.extended name members
  | .reduce => table.reduced name members

/- What is reported about an edit of a name. -/
def TableEdit.diagnostics
    (edit : TableEdit)
    (table : Table)
    (name : String)
    (place : Place) : List Diagnostic :=
  if edit = .define ∨ table.contains name then
    []
  else
    [ { problem := .undefinedBefore name edit.text
        line := some place.line
        column := some place.column } ]

end Diachrony
