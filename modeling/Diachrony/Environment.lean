import Diachrony.Matching.Search

/-
  Environments: the conditions on the surroundings of a
  span.

  An environment either describes what stands to the left
  and to the right of the span, or asks for a pattern
  anywhere in the word. The environments of a group must
  all hold, and bindings flow through a group from left to
  right. Of several groups the first that holds decides.

  Key definitions include:
    * `Environment`
    * `Surroundings`
    * `Environment.holds`
    * `EnvironmentGroup.holds`
    * `anyHolds`
-/

namespace Diachrony

------------------------------------------------------------
-- Environments
------------------------------------------------------------

/- The written form of match indices. -/
def indicesText : Option (List Int) → String
  | none => ""
  | some indices =>
      "@" ++ "|".intercalate (indices.map toString)

/-
  A condition on the surroundings of a span: patterns that
  stand around it, or a pattern that occurs in the word, if
  indices are given at one of the selected matches.
-/
inductive Environment where
  | around (left right : Pattern)
  | anywhere (pattern : Pattern) (indices : Option (List Int))
  deriving Repr

/- The written form of an environment. -/
def Environment.text : Environment → String
  | .around left right =>
      Pattern.text left ++ "_" ++ Pattern.text right
  | .anywhere pattern indices =>
      Pattern.text pattern ++ indicesText indices

/- Environments that must all hold. -/
abbrev EnvironmentGroup :=
  List Environment

------------------------------------------------------------
-- Surroundings
------------------------------------------------------------

/- A span of a word whose surroundings are in question. -/
structure Surroundings where
  word : WordArray
  start : Int
  stop : Int
  target : Word
  budget : Int := defaultBudget
  deriving Repr, DecidableEq

namespace Surroundings

/-
  The positions from which a left context may start, the
  nearest first.
-/
def leftStarts
    (site : Surroundings) : List Nat :=
  (List.range (site.start + 1).toNat).reverse

/- What is asked of a left context. -/
def leftRequest
    (site : Surroundings)
    (bindings : Bindings) : MatchRequest where
  stop := some site.start
  limit := some site.start
  bindings := bindings
  target := site.target
  longest := false
  budget := site.budget
  side := .start

/- What is asked of a right context. -/
def rightRequest
    (site : Surroundings)
    (bindings : Bindings) : MatchRequest where
  bindings := bindings
  target := site.target
  longest := false
  budget := site.budget
  side := .finish

/- What is asked of a pattern anywhere in the word. -/
def anywhereRequest
    (site : Surroundings)
    (bindings : Bindings)
    (longest : Bool) : MatchRequest where
  bindings := bindings
  target := site.target
  longest := longest
  budget := site.budget

/- The bindings after each way to match a left context. -/
def leftBindings
    (site : Surroundings)
    (left : Pattern)
    (bindings : Bindings) :
    Except MatchFault (List Bindings) :=
  if left.isEmpty then
    .ok [bindings]
  else
    match
      collect
        (fun start : Nat =>
          Pattern.matchAt left site.word start
            (site.leftRequest bindings))
        site.leftStarts
    with
    | .error fault => .error fault
    | .ok found => .ok (found.map Match.bindings)

/- The bindings after a right context is matched. -/
def rightBindings
    (site : Surroundings)
    (right : Pattern)
    (bindings : Bindings) :
    Except MatchFault (Option Bindings) :=
  if right.isEmpty then
    .ok (some bindings)
  else
    match
      Pattern.matchAt right site.word site.stop
        (site.rightRequest bindings)
    with
    | .error fault => .error fault
    | .ok found => .ok (found.map Match.bindings)

/-
  The bindings after the contexts on both sides are
  matched. Every way to match the left one is tried until
  the right one can be matched along with it.
-/
def aroundBindings
    (site : Surroundings)
    (left right : Pattern)
    (bindings : Bindings) :
    Except MatchFault (Option Bindings) :=
  match site.leftBindings left bindings with
  | .error fault => .error fault
  | .ok candidates =>
      firstSome (site.rightBindings right) candidates

/- The bindings after a pattern is matched somewhere. -/
def anywhereBindings
    (site : Surroundings)
    (pattern : Pattern)
    (indices : Option (List Int))
    (bindings : Bindings) :
    Except MatchFault (Option Bindings) :=
  if pattern.isEmpty then
    .ok (some bindings)
  else
    let attempt (longest : Bool) (pos : Nat) :=
      Pattern.matchAt pattern site.word pos
        (site.anywhereRequest bindings longest)
    match indices with
    | none =>
        match firstSome (attempt false) site.word.positions with
        | .error fault => .error fault
        | .ok found => .ok (found.map Match.bindings)
    | some indices =>
        match collect (attempt true) site.word.positions with
        | .error fault => .error fault
        | .ok found =>
            .ok ((select found indices).head?.map
              Match.bindings)

end Surroundings

------------------------------------------------------------
-- Conditions
------------------------------------------------------------

/- The bindings under which an environment holds, if it does. -/
def Environment.holds
    (site : Surroundings)
    (environment : Environment)
    (bindings : Bindings) :
    Except MatchFault (Option Bindings) :=
  match environment with
  | .around left right =>
      site.aroundBindings left right bindings
  | .anywhere pattern indices =>
      site.anywhereBindings pattern indices bindings

/- The bindings under which a whole group holds. -/
def EnvironmentGroup.holds
    (site : Surroundings)
    (bindings : Bindings) :
    EnvironmentGroup → Except MatchFault (Option Bindings)
  | [] => .ok (some bindings)
  | environment :: rest =>
      match environment.holds site bindings with
      | .error fault => .error fault
      | .ok none => .ok none
      | .ok (some next) => EnvironmentGroup.holds site next rest

/- The bindings under which the first possible group holds. -/
def anyHolds
    (site : Surroundings)
    (bindings : Bindings)
    (groups : List EnvironmentGroup) :
    Except MatchFault (Option Bindings) :=
  firstSome (EnvironmentGroup.holds site bindings) groups

end Diachrony
