import Diachrony.Pattern.Program
import Diachrony.Matching.Bindings

/-
  The matching machine.

  The machine runs a program against a word. It keeps the
  alternatives that are still to be tried on a stack, and
  counts the instructions it runs, so that a budget can
  abandon a match. Among all ways to match it keeps the
  longest, and among equally long ones the first.

  Key definitions include:
    * `Window`
    * `Thread`
    * `Window.step`
    * `Match`
    * `Machine.run`
-/

namespace Diachrony

------------------------------------------------------------
-- Windows
------------------------------------------------------------

/- Which word edges an edge test accepts. -/
inductive EdgeSide where
  | start
  | finish
  | either
  deriving Repr, DecidableEq

/-
  What a match can see: the word, the position at and after
  which no symbol may be consumed, the target span, and the
  word edges it may test for.
-/
structure Window where
  symbols : Array Symbol
  limit : Nat
  target : Word
  side : EdgeSide
  deriving Repr, DecidableEq

namespace Window

/- Whether an edge test succeeds at a position. -/
def atEdge
    (window : Window)
    (pos : Nat) : Bool :=
  match window.side with
  | .start => pos = 0
  | .finish => pos = window.symbols.size
  | .either => pos = 0 || pos = window.symbols.size

/- Whether a symbol can be consumed at a position. -/
def reads
    (window : Window)
    (pos : Nat)
    (symbol : Symbol) : Bool :=
  pos < window.limit && window.symbols[pos]? = some symbol

/- The position after a sequence of symbols is consumed. -/
def readAll?
    (window : Window)
    (pos : Nat) : List Symbol → Option Nat
  | [] => some pos
  | symbol :: rest =>
      if window.reads pos symbol then
        window.readAll? (pos + 1) rest
      else
        none

/- The position after a member is matched. -/
def memberEnd?
    (window : Window)
    (pos : Nat) : Member → Option Nat
  | [] => some pos
  | .edge :: rest =>
      if window.atEdge pos then
        window.memberEnd? pos rest
      else
        none
  | .symbol s :: rest =>
      if window.reads pos s then
        window.memberEnd? (pos + 1) rest
      else
        none

/- Whether a symbol repeats the one before it. -/
def repeatsPrevious
    (window : Window)
    (pos : Nat) : Bool :=
  0 < pos && pos < window.limit &&
    window.symbols[pos]? = window.symbols[pos - 1]?

end Window

------------------------------------------------------------
-- Threads
------------------------------------------------------------

/- A way of matching that is under way. -/
structure Thread where
  address : Nat
  pos : Nat
  bindings : Bindings
  deriving Repr, DecidableEq

namespace Thread

/- Go on at the next address from a position. -/
def advance
    (thread : Thread)
    (pos : Nat) : Thread :=
  { thread with address := thread.address + 1, pos := pos }

end Thread

/-
  The ways in which a category reference matches, in the
  order of trial.
-/
def Window.options
    (window : Window)
    (thread : Thread)
    (ref : CategoryRef)
    (trials : List (Nat × Member)) : List Thread :=
  let required := thread.bindings.required ref
  trials.filterMap fun trial =>
    if required.all fun position => (trial.1 : Int) = position
    then
      (window.memberEnd? thread.pos trial.2).map fun stop =>
        { address := thread.address + 1
          pos := stop
          bindings := thread.bindings.bind ref.slot trial.1 }
    else
      none

/-
  What one instruction does to a thread: it ends at an
  acceptance, or it is replaced by the threads it splits
  into, the preferred one first. A thread that fails is
  replaced by none.
-/
inductive Move where
  | accept
  | split (threads : List Thread)
  deriving Repr, DecidableEq

/- Go on in one way if a condition holds. -/
def Move.goIf
    (condition : Bool)
    (thread : Thread) : Move :=
  .split (if condition then [thread] else [])

/- Run one instruction. -/
def Window.step
    (window : Window)
    (thread : Thread) :
    Instruction → Move
  | .literal symbol =>
      .goIf (window.reads thread.pos symbol)
        (thread.advance (thread.pos + 1))
  | .any =>
      .goIf (thread.pos < window.limit)
        (thread.advance (thread.pos + 1))
  | .category ref trials =>
      .split (window.options thread ref trials)
  | .choice first second =>
      .split
        [ { thread with address := first },
          { thread with address := second } ]
  | .jump address =>
      .split [{ thread with address := address }]
  | .edge =>
      .goIf (window.atEdge thread.pos)
        (thread.advance thread.pos)
  | .target reversed =>
      let sought :=
        if reversed then window.target.reverse
        else window.target
      match window.readAll? thread.pos sought with
      | some stop => .split [thread.advance stop]
      | none => .split []
  | .ditto =>
      .goIf (window.repeatsPrevious thread.pos)
        (thread.advance (thread.pos + 1))
  | .fail => .split []
  | .accept => .accept

------------------------------------------------------------
-- Runs
------------------------------------------------------------

/- A matched span and the bindings made on the way. -/
structure Match where
  start : Nat
  stop : Nat
  bindings : Bindings
  deriving Repr, DecidableEq

/- The number of matched symbols. -/
def Match.length
    (found : Match) : Nat :=
  found.stop - found.start

/-
  How a run is to be conducted: the program, what it sees,
  where it starts, where it has to end if that matters, and
  whether it looks for the longest match or for any.
-/
structure Machine where
  code : Array Instruction
  window : Window
  start : Nat
  stop : Option Int
  longest : Bool

/- The step budget of a match was used up. -/
structure OutOfSteps where
  steps : Nat
  deriving Repr, DecidableEq

namespace Machine

/- Whether an accepting thread ends where it has to. -/
def accepts
    (machine : Machine)
    (thread : Thread) : Bool :=
  machine.stop.all fun stop => (thread.pos : Int) = stop

/- The match that an accepting thread has found. -/
def found
    (machine : Machine)
    (thread : Thread) : Match where
  start := machine.start
  stop := thread.pos
  bindings := thread.bindings

/- Whether a thread is longer than the best match so far. -/
def improves
    (thread : Thread)
    (best : Option Match) : Bool :=
  best.all fun found => found.stop < thread.pos

/-
  Run the threads of a stack, the first one first, until
  none is left, or until nothing better can be found. One
  unit of fuel is spent for each instruction.
-/
def run
    (machine : Machine)
    (budget : Nat) :
    Nat →
    List Thread →
    Option Match →
    Except OutOfSteps (Option Match)
  | _, [], best => .ok best
  | 0, _ :: _, _ => .error ⟨budget + 1⟩
  | fuel + 1, thread :: stack, best =>
      match machine.code[thread.address]? with
      | none => machine.run budget fuel stack best
      | some instruction =>
          match machine.window.step thread instruction with
          | .split threads =>
              machine.run budget fuel (threads ++ stack) best
          | .accept =>
              if !machine.accepts thread then
                machine.run budget fuel stack best
              else if !machine.longest then
                .ok (some (machine.found thread))
              else if !improves thread best then
                machine.run budget fuel stack best
              else if thread.pos = machine.window.limit then
                .ok (some (machine.found thread))
              else
                machine.run budget fuel stack
                  (some (machine.found thread))

end Machine

end Diachrony
