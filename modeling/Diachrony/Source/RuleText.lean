import Diachrony.Source.Correlation
import Diachrony.Source.Field
import Diachrony.Source.FlagList
import Diachrony.Source.RuleBody

/-
  Rules as they are written.

  A rule is read in a fixed order: its brackets are checked,
  its flags are found and read, the body is split into
  tokens and read, and the correlation of its categories is
  checked.

  Key definitions include:
    * `RuleSetting`
    * `RuleForm.ofText`
    * `RuleFields`
    * `Rule.assemble`
    * `Rule.read`
-/

namespace Diachrony

open Unicode

/-
  What a rule text is read with: categories, graphs, the
  line and column of the text, the number of the rule, and
  how many digits a number may have.
-/
structure RuleSetting where
  table : Table
  graphs : List String := []
  line : Int := 0
  column : Int := 0
  index : Int := 0
  digitLimit : DigitLimit := .standard
  deriving Repr

------------------------------------------------------------
-- Fields
------------------------------------------------------------

/- The form of a rule, and its text after the sign of it. -/
def RuleForm.ofText
    (text : List Char) : RuleForm × List Char :=
  match text with
  | '+' :: rest => (.insertion, rest)
  | '-' :: rest => (.deletion, rest)
  | _ => (.substitution, text)

/- The fields of a rule text, with the columns they begin at. -/
structure RuleFields where
  form : RuleForm
  body : List Char
  bodyColumn : Int
  flags : Option (List Char × Int)
  deriving Repr, DecidableEq

/- The fields of a rule text that begins at a column. -/
def RuleFields.ofText
    (limit : DigitLimit)
    (text : List Char)
    (column : Int) : Except ReadError RuleFields :=
  let (form, afterSign) := RuleForm.ofText text
  let bodyColumn := column + (text.length - afterSign.length)
  match flagsStart? (isFlagList limit) afterSign with
  | .error e => .error e
  | .ok none =>
      .ok
        { form := form
          body := afterSign
          bodyColumn := bodyColumn
          flags := none }
  | .ok (some i) =>
      .ok
        { form := form
          body := afterSign.take i
          bodyColumn := bodyColumn
          flags := some (afterSign.drop i, bodyColumn + i) }

/- Read the flags of a rule, if it has any. -/
def RuleFields.readFlags
    (limit : DigitLimit)
    (fields : RuleFields)
    (line : Int) :
    Except ReadError (Flags × List Diagnostic) :=
  match fields.flags with
  | none => .ok ({}, [])
  | some (text, column) => Flags.read limit text line column

------------------------------------------------------------
-- Assembly
------------------------------------------------------------

/- A branch with its categories numbered. -/
def Branch.assignSlots
    (branch : Branch) : Branch :=
  { branch with target := Pattern.assignSlots branch.target }

/- A predicate with the categories it writes numbered. -/
def Predicate.assignSlots
    (predicate : Predicate) : Predicate :=
  { predicate with
    replacements :=
      predicate.replacements.map Pattern.assignSlots }

/-
  What is reported if a predicate has neither one
  replacement nor as many as there are branches.
-/
def Predicate.countProblem?
    (branches : Nat)
    (predicate : Predicate) : Option Problem :=
  let count := predicate.replacements.length
  if count = 1 ∨ count = branches then
    none
  else
    some (.branchCount branches count)

/- A diagnostic about a rule text as a whole. -/
def RuleSetting.diagnostic
    (setting : RuleSetting)
    (source : String)
    (problem : Problem) : Diagnostic where
  problem := problem
  line := some setting.line
  column := some setting.column
  rule := some source

/-
  The rule that consists of the given parts. Diagnostics
  are those of the text, followed by those on the rule as a
  whole, the latter without repetitions.
-/
def Rule.assemble
    (setting : RuleSetting)
    (source : String)
    (flags : Flags)
    (diagnostics : List Diagnostic)
    (body : RuleBody) : Rule :=
  let branches := body.branches.map Branch.assignSlots
  let predicates := body.predicates.map Predicate.assignSlots
  let counts :=
    predicates.filterMap
      (Predicate.countProblem? branches.length)
  let findings := correlationFindings branches predicates
  { branches := branches
    predicates := predicates
    flags := flags
    source := source
    line := setting.line
    index := setting.index
    diagnostics :=
      (findings.map fun finding =>
        setting.diagnostic source finding.problem).foldl
        Diagnostic.addNew
        (diagnostics ++ counts.map (setting.diagnostic source))
    mismatched :=
      Pairing.sorted (findings.filterMap Finding.pairing) }

------------------------------------------------------------
-- Reading
------------------------------------------------------------

/- The context in which the body of a rule is read. -/
def RuleSetting.context
    (setting : RuleSetting)
    (source : String)
    (finish : Int) : ReadContext where
  table := setting.table
  graphs := setting.graphs
  line := setting.line
  finish := finish
  rule := if source = "" then none else some source
  digitLimit := setting.digitLimit

/- Let the diagnostics on flags name the rule. -/
def nameRule
    (source : String)
    (diagnostic : Diagnostic) : Diagnostic :=
  { diagnostic with rule := some source }

/- Read the parts of a rule text that follow one another. -/
def RuleFields.read
    (setting : RuleSetting)
    (source : String)
    (fields : RuleFields) : Except ReadError Rule :=
  match fields.readFlags setting.digitLimit setting.line with
  | .error e => .error e
  | .ok (flags, flagDiagnostics) =>
      match
        TokenText.read fields.body setting.line
          fields.bodyColumn
      with
      | .error e => .error (.malformed e)
      | .ok tokens =>
          let context := setting.context source tokens.finish
          match readBody context fields.form tokens.tokens with
          | .error e => .error e
          | .ok (body, bodyDiagnostics) =>
              .ok
                (Rule.assemble setting source flags
                  (flagDiagnostics.map (nameRule source) ++
                    bodyDiagnostics)
                  body)

/- Read a rule text without outer blanks. -/
def Rule.readTrimmed
    (setting : RuleSetting)
    (text : List Char) : Except ReadError Rule :=
  match checkBalanced text setting.line setting.column with
  | .error e => .error (.malformed e)
  | .ok () =>
      match
        RuleFields.ofText setting.digitLimit text
          setting.column
      with
      | .error e => .error e
      | .ok fields =>
          fields.read setting (String.ofList text)

/- Read a rule text. -/
def Rule.read
    (setting : RuleSetting)
    (text : List Char) : Except ReadError Rule :=
  let trimmed := trim text
  if trimmed.isEmpty then
    .error (.at .emptyRule setting.line setting.column)
  else
    Rule.readTrimmed setting trimmed

/- The same rule with other flags than those it was read with. -/
def Rule.withFlags
    (rule : Rule)
    (flags : Option Flags) : Rule :=
  { rule with flags := flags.getD rule.flags }

/- The line that a rule is on if it is read by itself. -/
def soleLine : Int :=
  1

/- Read a single rule that is not part of a source. -/
def Rule.readAlone
    (table : Table)
    (graphs : List String)
    (text : String) : Except ReadError Rule :=
  Rule.read
    { table := table, graphs := graphs, line := soleLine }
    text.toList

end Diachrony
