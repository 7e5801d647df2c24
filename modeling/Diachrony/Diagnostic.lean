import Diachrony.Category.Table
import Diachrony.Matching.Search

/-
  Diagnostics: conditions that are reported and do not stop
  the work.

  A rule that is questionable but readable is kept and
  carries diagnostics. When it is applied, the site in
  question is skipped and the run goes on.

  Key definitions include:
    * `DiagnosticKind`
    * `Problem`
    * `Problem.kind`
    * `Problem.message`
    * `Diagnostic`
    * `Diagnostic.text`
    * `Diagnostic.addNew`
-/

namespace Diachrony

------------------------------------------------------------
-- Kinds
------------------------------------------------------------

/- The kinds of conditions that are reported. -/
inductive DiagnosticKind where
  | undefinedCategory
  | correlationMismatch
  | uncorrelatedCategory
  | branchMismatch
  | invalidReplacement
  | undefinedRule
  | nondeterministicFlag
  | matchBudget
  | truncated
  | cycle
  deriving Repr, DecidableEq

namespace DiagnosticKind

/- The name under which a kind is reported. -/
def name : DiagnosticKind → String
  | undefinedCategory => "undefined_category"
  | correlationMismatch => "correlation_mismatch"
  | uncorrelatedCategory => "uncorrelated_category"
  | branchMismatch => "branch_mismatch"
  | invalidReplacement => "invalid_replacement"
  | undefinedRule => "undefined_rule"
  | nondeterministicFlag => "nondeterministic_flag"
  | matchBudget => "match_budget"
  | truncated => "truncated"
  | cycle => "cycle"

/-
  The kinds that say that a persistent run ended before the
  word had settled.
-/
def isUnsettled
    (kind : DiagnosticKind) : Bool :=
  kind = truncated || kind = cycle

end DiagnosticKind

------------------------------------------------------------
-- Problems
------------------------------------------------------------

/-
  What has been noticed. References and elements are given
  in their written form.
-/
inductive Problem where
  | undefinedCategory (name : String)
  | undefinedBefore (name edit : String)
  | unequalLengths
      (source : String)
      (sourceSize : Nat)
      (ref : String)
      (size : Nat)
  | memberMissing (ref : String)
  | nothingToCorrelate (ref : String)
  | noMemberChosen (ref : String)
  | branchCount (targets replacements : Nat)
  | unwritable (element : String)
  | undefinedRule (name : String)
  | chanceFlag
  | outOfSteps (steps : Nat)
  | rulePassBound (bound : Int)
  | blockPassBound (bound : Int)
  | ruleCycle (form : String) (passes : Nat)
  | blockCycle (form : String)
  deriving Repr, DecidableEq

namespace Problem

/- The kind that a problem is reported as. -/
def kind : Problem → DiagnosticKind
  | undefinedCategory _ => .undefinedCategory
  | undefinedBefore _ _ => .undefinedCategory
  | unequalLengths _ _ _ _ => .correlationMismatch
  | memberMissing _ => .correlationMismatch
  | nothingToCorrelate _ => .uncorrelatedCategory
  | noMemberChosen _ => .uncorrelatedCategory
  | branchCount _ _ => .branchMismatch
  | unwritable _ => .invalidReplacement
  | undefinedRule _ => .undefinedRule
  | chanceFlag => .nondeterministicFlag
  | outOfSteps _ => .matchBudget
  | rulePassBound _ => .truncated
  | blockPassBound _ => .truncated
  | ruleCycle _ _ => .cycle
  | blockCycle _ => .cycle

/- How a problem is worded. -/
def message : Problem → String
  | undefinedCategory name =>
      (TableError.undefinedCategory name).message
  | undefinedBefore name edit =>
      (TableError.undefinedCategory name).message ++
        " before '" ++ edit ++ "'"
  | unequalLengths source sourceSize ref size =>
      source ++ " has " ++ toString sourceSize ++
        " members but " ++ ref ++ " has " ++ toString size
  | memberMissing ref =>
      ref ++ " does not have as many members as the " ++
        "category it is paired with"
  | nothingToCorrelate ref =>
      ref ++ " in the replacement has nothing to " ++
        "correlate with"
  | noMemberChosen ref =>
      ref ++ " has no category to take its member from"
  | branchCount targets replacements =>
      toString targets ++ " targets but " ++
        toString replacements ++ " replacements; " ++
        "replacements are reused in turn"
  | unwritable element =>
      element ++ " cannot be written into a word"
  | undefinedRule name =>
      "no rule named " ++ quote name
  | chanceFlag =>
      "'chance' is applied deterministically as " ++
        "optional class 'chance'"
  | outOfSteps steps => outOfStepsMessage steps
  | rulePassBound bound =>
      "stopped after " ++ toString bound ++
        " passes with sites still applicable"
  | blockPassBound bound =>
      "stopped after " ++ toString bound ++
        " passes with rules still applicable"
  | ruleCycle form passes =>
      "word returned to an earlier form " ++ quote form ++
        " after " ++ toString passes ++ " passes"
  | blockCycle form =>
      "word returned to an earlier form " ++ quote form

end Problem

------------------------------------------------------------
-- Diagnostics
------------------------------------------------------------

/- A problem with the place and the rule it belongs to. -/
structure Diagnostic where
  problem : Problem
  line : Option Int := none
  column : Option Int := none
  rule : Option String := none
  deriving Repr, DecidableEq

namespace Diagnostic

/- The kind of a diagnostic. -/
def kind
    (diagnostic : Diagnostic) : DiagnosticKind :=
  diagnostic.problem.kind

/- The wording of a diagnostic. -/
def message
    (diagnostic : Diagnostic) : String :=
  diagnostic.problem.message

/- A diagnostic in one line. -/
def text
    (diagnostic : Diagnostic) : String :=
  (match diagnostic.line with
    | some line => "line " ++ toString line ++ ": "
    | none => "") ++
    diagnostic.kind.name ++ ": " ++ diagnostic.message

/- Whether two diagnostics report the same to a reader. -/
def sameReport
    (one other : Diagnostic) : Bool :=
  one.kind = other.kind &&
    one.message = other.message &&
    one.line = other.line &&
    one.column = other.column &&
    one.rule = other.rule

/- Whether a diagnostic has been reported already. -/
def isReported
    (diagnostic : Diagnostic)
    (reported : List Diagnostic) : Bool :=
  reported.any diagnostic.sameReport

/- Report a diagnostic unless it has been reported. -/
def addNew
    (reported : List Diagnostic)
    (diagnostic : Diagnostic) : List Diagnostic :=
  if diagnostic.isReported reported then
    reported
  else
    reported ++ [diagnostic]

end Diagnostic

end Diachrony
