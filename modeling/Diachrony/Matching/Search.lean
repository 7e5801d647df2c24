import Diachrony.Matching.Machine

/-
  Matching a pattern at a position and finding its matches
  in a word.

  Key definitions include:
    * `MatchFault`
    * `collect`
    * `firstSome`
    * `MatchRequest`
    * `Pattern.matchAt`
    * `Pattern.findAll`
    * `select`
-/

namespace Diachrony

------------------------------------------------------------
-- Faults
------------------------------------------------------------

/- Why a match could not be decided. -/
inductive MatchFault where
  | outOfSteps (steps : Nat)
  | foreignElement
  deriving Repr, DecidableEq

/- The message of a match that used up its budget. -/
def outOfStepsMessage
    (steps : Nat) : String :=
  "match abandoned after " ++ toString steps ++ " steps"

------------------------------------------------------------
-- Trying a list of candidates
------------------------------------------------------------

/- The results of all candidates that have one, in order. -/
def collect
    {α β ε : Type}
    (attempt : α → Except ε (Option β)) :
    List α → Except ε (List β)
  | [] => .ok []
  | candidate :: rest =>
      match attempt candidate with
      | .error e => .error e
      | .ok result =>
          match collect attempt rest with
          | .error e => .error e
          | .ok results => .ok (result.toList ++ results)

/- The result of the first candidate that has one. -/
def firstSome
    {α β ε : Type}
    (attempt : α → Except ε (Option β)) :
    List α → Except ε (Option β)
  | [] => .ok none
  | candidate :: rest =>
      match attempt candidate with
      | .error e => .error e
      | .ok (some result) => .ok (some result)
      | .ok none => firstSome attempt rest

------------------------------------------------------------
-- Matching at a position
------------------------------------------------------------

/- The number of steps a match may take unless it is said. -/
def defaultBudget : Int :=
  100000

/-
  What is asked of a match besides its start:
    * `stop` is the position it has to end at, if any;
    * `limit` is the position from which on no symbol may
      be consumed, which is the word end if not given;
    * `bindings` are in force already;
    * `target` is the span the rule is changing;
    * `longest` asks for the longest match, otherwise the
      first one will do;
    * `budget` bounds the steps;
    * `side` is the word edge that edge tests accept.
-/
structure MatchRequest where
  stop : Option Int := none
  limit : Option Int := none
  bindings : Bindings := []
  target : Word := []
  longest : Bool := true
  budget : Int := defaultBudget
  side : EdgeSide := .either
  deriving Repr, DecidableEq

namespace MatchRequest

/- The limit in force in a word. -/
def limitIn
    (request : MatchRequest)
    (word : WordArray) : Int :=
  match request.limit with
  | none => word.size
  | some limit => min limit word.size

/- What a match can see of a word. -/
def window
    (request : MatchRequest)
    (word : WordArray) : Window where
  symbols := word
  limit := (request.limitIn word).toNat
  target := request.target
  side := request.side

/- The machine that decides a request at a start. -/
def machine
    (request : MatchRequest)
    (pattern : Pattern)
    (word : WordArray)
    (start : Nat) : Machine where
  code := pattern.program.toArray
  window := request.window word
  start := start
  stop := request.stop
  longest := request.longest

/- The thread that a match begins with. -/
def thread
    (request : MatchRequest)
    (start : Nat) : Thread where
  address := 0
  pos := start
  bindings := request.bindings

end MatchRequest

/-
  The match of a pattern that begins exactly at a position.
  There is none at a position outside the word or beyond
  the limit.
-/
def Pattern.matchAt
    (pattern : Pattern)
    (word : WordArray)
    (start : Int)
    (request : MatchRequest) :
    Except MatchFault (Option Match) :=
  if !pattern.matchable then
    .error .foreignElement
  else if start < 0 ∨ request.limitIn word < start then
    .ok none
  else
    let machine := request.machine pattern word start.toNat
    match
      machine.run
        request.budget.toNat
        request.budget.toNat
        [request.thread start.toNat]
        none
    with
    | .error exceeded => .error (.outOfSteps exceeded.steps)
    | .ok found => .ok found

------------------------------------------------------------
-- Matching everywhere
------------------------------------------------------------

/-
  The longest match at every position, from left to right.
-/
def Pattern.findAll
    (pattern : Pattern)
    (word : WordArray)
    (budget : Int) :
    Except MatchFault (List Match) :=
  collect
    (fun pos : Nat =>
      Pattern.matchAt pattern word pos { budget := budget })
    word.positions

/-
  The matches at the given indices, which may count from
  the end. Indices outside the list are dropped.
-/
def select
    {α : Type}
    (found : List α)
    (indices : List Int) : List α :=
  indices.filterMap (nth? found)

end Diachrony
