import Diachrony.Ruleset
import Diachrony.Source.CategoryText
import Diachrony.Source.Metarule
import Diachrony.Source.RuleText

/-
  Rulesets as they are written.

  The lines of a source are taken one after another. A
  category line edits the categories for the lines after
  it, a metarule stores or runs a rule or opens a block,
  and a rule line adds a rule. In the end the blocks are
  formed, the last one first.

  Key definitions include:
    * `BlockMarker`
    * `BlockMarker.form`
    * `formBlocks`
    * `Reading`
    * `Reading.line`
    * `Ruleset.read`
    * `evolve`
-/

namespace Diachrony

open Unicode

------------------------------------------------------------
-- Blocks
------------------------------------------------------------

/-
  A block that is to be formed: where it begins in the list
  of items, and how many items it takes, or all that follow.
-/
structure BlockMarker where
  position : Nat
  size : Option Nat
  flags : Flags
  line : Int
  source : String
  deriving Repr, DecidableEq

namespace BlockMarker

/- The head of the block that a marker stands for. -/
def head
    (marker : BlockMarker) : BlockHead where
  flags := marker.flags
  source := marker.source
  line := marker.line
  index := marker.position

/- Where the block ends in a list of items. -/
def stop
    (marker : BlockMarker)
    (items : List Item) : Nat :=
  match marker.size with
  | none => items.length
  | some size => marker.position + size

/- Put the items of the block into a block. -/
def form
    (marker : BlockMarker)
    (items : List Item) : Except SourceError (List Item) :=
  let stop := marker.stop items
  if items.length < stop then
    .error
      { cause :=
          .shortBlock (marker.size.getD 0)
            (items.length - marker.position)
        line := marker.line
        column := 0 }
  else
    .ok
      (items.take marker.position ++
        .block marker.head
          ((items.drop marker.position).take
            (stop - marker.position)) ::
        items.drop stop)

end BlockMarker

/-
  Form the blocks of a list of markers. The later ones are
  formed first, because they may stand inside earlier ones.
-/
def formBlocks
    (items : List Item) :
    List BlockMarker → Except SourceError (List Item)
  | [] => .ok items
  | marker :: rest =>
      match formBlocks items rest with
      | .error e => .error e
      | .ok formed => marker.form formed

------------------------------------------------------------
-- State
------------------------------------------------------------

/-
  What has been read of a source: the categories and graphs
  in force, the items and markers so far, what was reported,
  the stored rules, the name under which the next rule is to
  be stored, the number of the next rule, and how many
  digits a number may have.
-/
structure Reading where
  table : Table
  graphs : List String
  items : List Item := []
  markers : List BlockMarker := []
  diagnostics : List Diagnostic := []
  stored : List (String × Rule) := []
  pending : Option String := none
  ruleCount : Nat := 0
  digitLimit : DigitLimit := .standard
  deriving Repr

namespace Reading

------------------------------------------------------------
-- Category lines
------------------------------------------------------------

/- The name whose category lists the graphs as well. -/
def graphsName : String :=
  "graphs"

/- Edit the categories, and the graphs if those are named. -/
def editCategory
    (reading : Reading)
    (place : Place)
    (line : CategoryLine)
    (members : List Member)
    (diagnostics : List Diagnostic) : Reading :=
  let name := String.ofList line.name
  let listed := readGraphs line.body
  let members :=
    if name = graphsName then
      listed.map Member.ofSymbol
    else
      members
  { reading with
    table :=
      reading.table.append name
        (line.edit.editMembers reading.table name members)
    graphs :=
      if name = graphsName then
        line.edit.editGraphs reading.graphs listed
      else
        reading.graphs
    diagnostics :=
      reading.diagnostics ++ diagnostics ++
        line.edit.diagnostics reading.table name place }

/- Take a category line. -/
def categoryLine
    (reading : Reading)
    (place : Place)
    (line : CategoryLine) : Except ReadError Reading :=
  let bodyPlace : Place :=
    { place with column := place.column + line.offset }
  match
    readCategoryBody reading.table reading.graphs bodyPlace
      line.body
  with
  | .error e => .error (.malformed e)
  | .ok (members, diagnostics) =>
      .ok (reading.editCategory place line members diagnostics)

------------------------------------------------------------
-- Metarules
------------------------------------------------------------

/- Run a stored rule, or report that there is none. -/
def runStored
    (reading : Reading)
    (place : Place)
    (name : String) : Reading :=
  match reading.stored.lookup name with
  | some rule =>
      { reading with items := reading.items ++ [.rule rule] }
  | none =>
      { reading with
        diagnostics :=
          reading.diagnostics ++
            [ { problem := .undefinedRule name
                line := some place.line
                column := some place.column } ] }

/- Take a metarule. -/
def metarule
    (reading : Reading)
    (place : Place)
    (text : List Char) : Except ReadError Reading :=
  match Metarule.read reading.digitLimit place text with
  | .error e => .error e
  | .ok (.store name) =>
      .ok { reading with pending := some name }
  | .ok (.run name) => .ok (reading.runStored place name)
  | .ok (.block size flags diagnostics) =>
      .ok
        { reading with
          markers :=
            reading.markers ++
              [ { position := reading.items.length
                  size := size
                  flags := flags
                  line := place.line
                  source := String.ofList text } ]
          diagnostics := reading.diagnostics ++ diagnostics }

------------------------------------------------------------
-- Rules
------------------------------------------------------------

/- The setting of the next rule. -/
def setting
    (reading : Reading)
    (place : Place) : RuleSetting where
  table := reading.table
  graphs := reading.graphs
  line := place.line
  column := place.column
  index := reading.ruleCount
  digitLimit := reading.digitLimit

/- Add a rule to the items, or store it if that is pending. -/
def addRule
    (reading : Reading)
    (rule : Rule) : Reading :=
  let diagnostics := reading.diagnostics ++ rule.diagnostics
  match reading.pending with
  | some name =>
      { reading with
        diagnostics := diagnostics
        stored := (name, rule) :: reading.stored
        pending := none }
  | none =>
      { reading with
        diagnostics := diagnostics
        items := reading.items ++ [.rule rule]
        ruleCount := reading.ruleCount + 1 }

/- Take a rule line. -/
def ruleLine
    (reading : Reading)
    (place : Place)
    (text : List Char) : Except ReadError Reading :=
  match Rule.read (reading.setting place) text with
  | .error e => .error e
  | .ok rule => .ok (reading.addRule rule)

------------------------------------------------------------
-- Lines
------------------------------------------------------------

/- Take a line. -/
def line
    (reading : Reading)
    (source : SourceLine) : Except ReadError Reading :=
  let place : Place :=
    { line := source.number, column := source.column }
  match source.kind with
  | .blank => .ok reading
  | .category =>
      match CategoryLine.read? source.text with
      | none => .ok reading
      | some category => reading.categoryLine place category
  | .metarule => reading.metarule place source.text
  | .rule => reading.ruleLine place source.text

/- Take the lines of a source in order. -/
def lines
    (reading : Reading) :
    List SourceLine → Except ReadError Reading
  | [] => .ok reading
  | source :: rest =>
      match reading.line source with
      | .error e => .error e
      | .ok next => next.lines rest

/- Form the ruleset that has been read. -/
def finish
    (reading : Reading) : Except ReadError Ruleset :=
  match reading.pending with
  | some name => .error (.at (.danglingDefinition name) 0 0)
  | none =>
      match formBlocks reading.items reading.markers with
      | .error e => .error (.malformed e)
      | .ok items =>
          .ok
            { items := items
              categories := reading.table.freeze
              graphs := reading.graphs
              diagnostics := reading.diagnostics }

end Reading

------------------------------------------------------------
-- Rulesets
------------------------------------------------------------

/-
  Read a source. The categories and graphs that are given
  are those in force at its first line.
-/
def Ruleset.read
    (table : Table)
    (graphs : List String)
    (source : String)
    (limit : DigitLimit := .standard) :
    Except ReadError Ruleset :=
  match
    Reading.lines
      { table := table.copy
        graphs := graphs
        digitLimit := limit }
      (SourceLine.ofSource source)
  with
  | .error e => .error e
  | .ok reading => reading.finish

/-
  The graphs that a source is read with: those that are
  given, or else those of the configuration.
-/
def graphsOr
    (graphs : List String)
    (config : Option Config) : List String :=
  match graphs, config with
  | [], some config => config.compiler.graphs
  | graphs, _ => graphs

/- Why words could not be evolved. -/
inductive EvolveError where
  | source (e : ReadError)
  | run (fault : RunFault)
  deriving Repr, DecidableEq

/-
  Read a source and apply it to words. The results are the
  texts of the words.
-/
def evolve
    (table : Table)
    (config : Option Config)
    (source : String)
    (words : List Spelling) :
    Except EvolveError (List (Option String)) :=
  match Ruleset.read table (graphsOr [] config) source with
  | .error e => .error (.source e)
  | .ok ruleset =>
      match
        ruleset.applyLexicon (config.getD {}) none words
      with
      | .error fault => .error (.run fault)
      | .ok lexicon => .ok lexicon.words

end Diachrony
