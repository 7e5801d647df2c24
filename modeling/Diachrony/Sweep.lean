import Diachrony.Site

/-
  One scan of a rule over a word.

  The scan goes from left to right or from right to left
  and looks at each position at most once. After a site it
  moves past the matched symbols, so no scan changes what
  it has written itself.

  From left to right the symbols that have not been passed
  are as they were, and their number decreases. From right
  to left the part up to the limit is as it was.

  Key definitions include:
    * `Edit`
    * `Sweep`
    * `Rule.sweepRight`
    * `Rule.sweepLeft`
    * `Rule.sweep`
-/

namespace Diachrony

------------------------------------------------------------
-- Results
------------------------------------------------------------

/- One change of a word: the replaced span, before and after. -/
structure Edit where
  start : Nat
  stop : Nat
  before : Word
  after : Word
  deriving Repr, DecidableEq

/-
  The result of a scan: the word, the changes and the
  reported problems in the order of the scan, and the
  numbers of positions examined and of sites vetoed.
-/
structure Sweep where
  word : Word
  edits : List Edit := []
  problems : List Problem := []
  examined : Nat := 0
  vetoed : Nat := 0
  deriving Repr, DecidableEq

namespace Sweep

/- Whether the scan changed anything. -/
def changed
    (sweep : Sweep) : Bool :=
  !sweep.edits.isEmpty

/- The number of sites that were skipped for a problem. -/
def skipped
    (sweep : Sweep) : Nat :=
  sweep.problems.length

end Sweep

------------------------------------------------------------
-- What a verdict does
------------------------------------------------------------

/- The change that a site makes, if it changes anything. -/
def Site.edit?
    (site : Site)
    (word : WordArray)
    (symbols : List Symbol) : Option Edit :=
  if symbols = site.span word then
    none
  else
    some
      { start := site.found.start
        stop := site.found.stop
        before := word.toList
        after :=
          word.splice site.found.start site.found.stop symbols }

namespace Verdict

/- The change that a verdict makes. -/
def edit?
    (verdict : Verdict)
    (word : WordArray) : Option Edit :=
  match verdict with
  | replaced site symbols => site.edit? word symbols
  | _ => none

/- A scan that begins with a verdict and goes on as another. -/
def followedBy
    (verdict : Verdict)
    (word : WordArray)
    (later : Sweep) : Sweep where
  word := later.word
  edits := (verdict.edit? word).toList ++ later.edits
  problems := verdict.problem?.toList ++ later.problems
  examined := later.examined + 1
  vetoed := later.vetoed + if verdict.isVeto then 1 else 0

/-
  How many symbols a scan to the right moves past: those
  that were matched, and at least one.
-/
def consumed
    (verdict : Verdict) : Nat :=
  match verdict.site? with
  | none => 1
  | some site => max site.found.length 1

/-
  How far the position of a scan to the right moves: past
  what was written, and past the next symbol if nothing was
  matched.
-/
def advance
    (verdict : Verdict) : Nat :=
  match verdict with
  | replaced site symbols =>
      symbols.length + if site.found.length = 0 then 1 else 0
  | _ => verdict.consumed

/- The word that a scan goes on with. -/
def applyTo
    (verdict : Verdict)
    (word : WordArray) : WordArray :=
  match verdict with
  | replaced site symbols =>
      (word.splice site.found.start site.found.stop
        symbols).toArray
  | _ => word

/- The limit that a scan to the left goes on with. -/
def nextLimit
    (verdict : Verdict)
    (limit : Nat) : Nat :=
  match verdict.site? with
  | none => limit
  | some site => site.found.start

end Verdict

------------------------------------------------------------
-- Scans
------------------------------------------------------------

namespace Rule

variable (rule : Rule)
variable (options : EngineOptions)
variable (allowed : List (Option (List Nat)))

/-
  The verdict of a scan to the right on a position. The
  origin is the number of symbols that have been passed.
-/
def judgeRight
    (word : WordArray)
    (pos origin : Nat) : Except RunFault Verdict :=
  rule.judge options allowed
    { word := word
      pos := pos
      limit := word.size
      origin := origin }

/-
  Scan to the right from a position, with a number of
  symbols that have been passed and a number of symbols
  that have not.
-/
def sweepRight
    (word : WordArray)
    (pos origin : Nat)
    (left : Nat) : Except RunFault Sweep :=
  match rule.judgeRight options allowed word pos origin with
  | .error fault => .error fault
  | .ok verdict =>
      match left with
      | 0 =>
          .ok (verdict.followedBy word
            { word := (verdict.applyTo word).toList })
      | next + 1 =>
          match
            sweepRight (verdict.applyTo word)
              (pos + verdict.advance)
              (origin + verdict.consumed)
              (next - (verdict.consumed - 1))
          with
          | .error fault => .error fault
          | .ok later => .ok (verdict.followedBy word later)
termination_by left
decreasing_by
  omega

/- The verdict of a scan to the left on a position. -/
def judgeLeft
    (word : WordArray)
    (limit : Nat)
    (pos : Nat) : Except RunFault Verdict :=
  rule.judge options allowed
    { word := word, pos := pos, limit := limit, origin := pos }

/- Scan to the left from a position. -/
def sweepLeft
    (word : WordArray)
    (limit : Nat) : Nat → Except RunFault Sweep
  | 0 =>
      match rule.judgeLeft options allowed word limit 0 with
      | .error fault => .error fault
      | .ok verdict =>
          .ok (verdict.followedBy word
            { word := (verdict.applyTo word).toList })
  | next + 1 =>
      match
        rule.judgeLeft options allowed word limit (next + 1)
      with
      | .error fault => .error fault
      | .ok verdict =>
          match
            sweepLeft (verdict.applyTo word)
              (verdict.nextLimit limit) next
          with
          | .error fault => .error fault
          | .ok later => .ok (verdict.followedBy word later)

end Rule

/- One scan of a rule over a word. -/
def Rule.sweep
    (rule : Rule)
    (options : EngineOptions)
    (word : Word) : Except RunFault Sweep :=
  let symbols := word.toArray
  match rule.allowedStarts options.maxMatchSteps symbols with
  | .error fault => .error fault
  | .ok allowed =>
      if rule.flags.rightToLeft then
        rule.sweepLeft options allowed symbols symbols.size
          symbols.size
      else
        rule.sweepRight options allowed symbols 0 0
          symbols.size

end Diachrony
