import Diachrony.Text.Quoted

/-
  Errors in rule source.

  An error has a cause and a place. Lines count from one and
  columns from zero. An error that is noticed where the rule
  has ended already says so.

  Key definitions include:
    * `Cause`
    * `Cause.message`
    * `SourceError`
    * `SourceError.detail`
    * `SourceError.message`
    * `ReadError`
-/

namespace Diachrony

------------------------------------------------------------
-- Causes
------------------------------------------------------------

/-
  What is wrong with a source. Flag names, texts and
  characters are those that the source contains.
-/
inductive Cause where
  -- tokens and brackets
  | danglingEscape
  | unbalanced (bracket : Char)
  | unclosed (bracket : Char)
  -- flags
  | emptyFlag
  | unknownFlag (name : String)
  | notNegatable (name : String)
  | missingArgument (name : String)
  | needlessArgument (name : String)
  | notANumber (name argument : String)
  | outOfRange (name : String) (low high value : Nat)
  | badClass (name : String)
  -- patterns
  | nothingToRepeat
  | badRepeatCount
  | expectedRepeatCount
  | expectedRepeatEnd
  | expectedGroupEnd
  | emptyGroup
  | expectedCategoryEnd
  | expectedCategoryName
  | expectedTagNumber
  | nestedNotAlone
  | emptyMember
  | unexpectedInCategory (text : String)
  | unexpected (text : String)
  | malformedIndex
  -- rules
  | emptyRule
  | expectedArrow
  | emptyTarget
  | emptyReplacement
  | indexedReplacement
  | emptyEnvironment
  | secondUnderscore
  | indexedLocalEnvironment
  -- category lines
  | noMembers
  | malformedMember (text : String)
  -- metarules
  | malformedMetarule (text : String)
  | unknownMetarule (name : String)
  | needsOneName (metarule : String)
  | badBlockSize (text : String)
  | shortBlock (size available : Nat)
  | danglingDefinition (name : String)
  deriving Repr, DecidableEq

/- How a cause is worded. -/
def Cause.message : Cause → String
  | danglingEscape => "dangling escape '\\'"
  | unbalanced bracket =>
      "unbalanced '" ++ String.ofList [bracket] ++ "'"
  | unclosed bracket =>
      "unclosed '" ++ String.ofList [bracket] ++ "'"
  | emptyFlag => "empty flag"
  | unknownFlag name => "unknown flag " ++ quote name
  | notNegatable name =>
      "flag " ++ quote name ++ " cannot be negated"
  | missingArgument name =>
      "flag " ++ quote name ++ " is missing its argument"
  | needlessArgument name =>
      "flag " ++ quote name ++ " takes no argument"
  | notANumber name argument =>
      "flag " ++ quote name ++ " needs a whole number, got " ++
        quote argument
  | outOfRange name low high value =>
      "flag " ++ quote name ++ " must be between " ++
        toString low ++ " and " ++ toString high ++
        ", got " ++ toString value
  | badClass name => "bad optional class " ++ quote name
  | nothingToRepeat => "'\x7b' has nothing to repeat"
  | badRepeatCount => "repeat count must be at least 1"
  | expectedRepeatCount =>
      "expected a number, '*', '**' or '+' inside '\x7b\x7d'"
  | expectedRepeatEnd => "expected '\x7d'"
  | expectedGroupEnd => "expected ')'"
  | emptyGroup => "empty optional group"
  | expectedCategoryEnd => "expected ']'"
  | expectedCategoryName => "expected a category name"
  | expectedTagNumber => "expected a number after '^'"
  | nestedNotAlone =>
      "a nested category must be a member on its own"
  | emptyMember => "empty category member"
  | unexpectedInCategory text =>
      "unexpected " ++ quote text ++ " in category"
  | unexpected text => "unexpected " ++ quote text
  | malformedIndex => "malformed match index"
  | emptyRule => "empty rule"
  | expectedArrow => "expected '>'"
  | emptyTarget => "empty target; write [] to insert"
  | emptyReplacement => "empty replacement; write [] to delete"
  | indexedReplacement =>
      "a replacement cannot have match indices"
  | emptyEnvironment => "empty environment"
  | secondUnderscore => "an environment can only have one '_'"
  | indexedLocalEnvironment =>
      "a local environment cannot have match indices"
  | noMembers => "category has no members"
  | malformedMember text =>
      "malformed category member " ++ quote text
  | malformedMetarule text =>
      "malformed metarule " ++ quote text
  | unknownMetarule name =>
      "unknown metarule '!" ++ name ++ "'"
  | needsOneName metarule =>
      "'!" ++ metarule ++ "' needs exactly one rule name"
  | badBlockSize text =>
      "block size must be a positive number, got " ++ quote text
  | shortBlock size available =>
      "block of " ++ toString size ++ " rules but only " ++
        toString available ++ " follow"
  | danglingDefinition name =>
      "'!def: " ++ name ++ "' is not followed by a rule"

------------------------------------------------------------
-- Errors
------------------------------------------------------------

/- A cause and its place. -/
structure SourceError where
  cause : Cause
  atEnd : Bool := false
  line : Int
  column : Int
  deriving Repr, DecidableEq

namespace SourceError

/- The wording of an error without its place. -/
def detail
    (e : SourceError) : String :=
  e.cause.message ++ if e.atEnd then " at end of rule" else ""

/- The wording of an error with its place. -/
def message
    (e : SourceError) : String :=
  "Line " ++ toString e.line ++ ", Col " ++ toString e.column ++
    ": " ++ e.detail

end SourceError

/-
  Why a source cannot be read: it is malformed, or a number
  is written with digits that have no decimal value, or
  with more digits than a number may have.
-/
inductive ReadError where
  | malformed (e : SourceError)
  | notDecimal (text : String)
  | tooManyDigits (text : String)
  deriving Repr, DecidableEq

/- A malformed source with the cause and its place. -/
def ReadError.at
    (cause : Cause)
    (line column : Int) : ReadError :=
  .malformed { cause := cause, line := line, column := column }

end Diachrony
