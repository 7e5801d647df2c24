import Diachrony.Run

/-
  The derivation of a word: the run of a list of rules and
  blocks, each on the result of the one before, with a
  record of every change.

  Each item is first turned into a step on the state of a
  run. A list of steps is then carried out as the flags of
  the items demand: steps are left out, repeated later, or
  end the run.

  Key definitions include:
    * `Stats`
    * `RunState`
    * `Step`
    * `sequence`
    * `repeatRounds`
    * `Item.step`
    * `derive`
-/

namespace Diachrony

------------------------------------------------------------
-- State
------------------------------------------------------------

/- What a run counts. -/
structure Stats where
  rulesRun : Nat := 0
  rulesSkipped : Nat := 0
  changes : Nat := 0
  changesByRule : List (String × Nat) := []
  deriving Repr, DecidableEq

namespace Stats

/- Add to the count of a name, keeping its place. -/
def addTo
    (name : String)
    (n : Nat) :
    List (String × Nat) → List (String × Nat)
  | [] => [(name, n)]
  | (other, count) :: rest =>
      if other = name then
        (name, count + n) :: rest
      else
        (other, count) :: addTo name n rest

/- Count the run of a rule. -/
def countRun
    (stats : Stats)
    (rule : String)
    (changes : Nat) : Stats :=
  { stats with
    rulesRun := stats.rulesRun + 1
    changes := stats.changes + changes
    changesByRule :=
      if changes = 0 then
        stats.changesByRule
      else
        addTo rule changes stats.changesByRule }

/- Count an item that was left out. -/
def countSkipped
    (stats : Stats) : Stats :=
  { stats with rulesSkipped := stats.rulesSkipped + 1 }

end Stats

/-
  The state of a run: the word as it is now, the changes so
  far, what was reported, the counts, and whether the run
  is to end.
-/
structure RunState where
  word : Word
  trace : List Record := []
  diagnostics : List Diagnostic := []
  stats : Stats := {}
  stopped : Bool := false
  deriving Repr, DecidableEq

namespace RunState

/- Add the outcome of a rule. -/
def addOutcome
    (state : RunState)
    (rule : String)
    (outcome : RuleOutcome) : RunState :=
  { state with
    word := outcome.word
    trace := state.trace ++ outcome.changes
    diagnostics := state.diagnostics ++ outcome.diagnostics
    stats := state.stats.countRun rule outcome.changes.length }

/- Count an item that was left out. -/
def skipItem
    (state : RunState) : RunState :=
  { state with stats := state.stats.countSkipped }

/- Attach a diagnostic to a record that does not have it. -/
def attachNew
    (diagnostic : Diagnostic)
    (record : Record) : Record :=
  if diagnostic.isReported record.diagnostics then
    record
  else
    record.attach diagnostic

/-
  Report a diagnostic and attach it to the records from a
  position on.
-/
def mark
    (state : RunState)
    (first : Nat)
    (diagnostic : Diagnostic) : RunState :=
  { state with
    diagnostics := state.diagnostics ++ [diagnostic]
    trace :=
      state.trace.take first ++
        (state.trace.drop first).map (attachNew diagnostic) }

end RunState

------------------------------------------------------------
-- Steps
------------------------------------------------------------

/-
  A step of a run: the next state, and whether the word was
  changed on the way.
-/
abbrev Step :=
  RunState → Except RunFault (RunState × Bool)

/- The step that runs a rule. -/
def Rule.step
    (rule : Rule)
    (options : EngineOptions) : Step :=
  fun state =>
    match rule.run options state.word with
    | .error fault => .error fault
    | .ok outcome =>
        .ok (state.addOutcome rule.name outcome, outcome.changed)

/- Which optional rules are run. -/
structure OptionalChoice where
  enabled : Bool := true
  disabledClasses : List String := []
  deriving Repr, DecidableEq

namespace OptionalChoice

/- Whether the rules of an optional class are run. -/
def allows
    (choice : OptionalChoice)
    (name : String) : Bool :=
  choice.enabled && !choice.disabledClasses.contains name

/- Whether an item with given flags is run at all. -/
def admits
    (choice : OptionalChoice)
    (flags : Flags) : Bool :=
  !flags.ignored &&
    (!flags.isOptional || choice.allows flags.optionalClass)

end OptionalChoice

/- A step with the flags of the item it comes from. -/
structure FlaggedStep where
  flags : Flags
  step : Step

------------------------------------------------------------
-- Persisting steps
------------------------------------------------------------

/- A step that is run again after each of the next items. -/
structure Persisting where
  step : Step
  left : Int

namespace Persisting

/- Run the persisting steps once each. -/
def runAll :
    List Persisting → Step
  | [], state => .ok (state, false)
  | entry :: rest, state =>
      match entry.step state with
      | .error fault => .error fault
      | .ok (next, changed) =>
          match runAll rest next with
          | .error fault => .error fault
          | .ok (last, later) => .ok (last, changed || later)

/- The steps that still persist after one more run. -/
def remaining
    (entries : List Persisting) : List Persisting :=
  (entries.map fun entry =>
    { entry with left := entry.left - 1 }).filter
      fun entry => 0 < entry.left

/- Let a step persist as long as its flags demand. -/
def add
    (entries : List Persisting)
    (item : FlaggedStep) : List Persisting :=
  if 1 < item.flags.persist then
    entries ++
      [{ step := item.step, left := item.flags.persist - 1 }]
  else
    entries

end Persisting

------------------------------------------------------------
-- Sequences
------------------------------------------------------------

/-
  Carry out a list of steps in order. `previous` tells
  whether the previous item changed the word, and `changed`
  whether any did. An item that is left out counts as one
  that changed nothing.
-/
def sequence
    (choice : OptionalChoice) :
    List FlaggedStep →
    Bool →
    List Persisting →
    Bool →
    Step
  | [], _, _, changed, state => .ok (state, changed)
  | item :: rest, previous, persisting, changed, state =>
      if !choice.admits item.flags ||
          item.flags.dittoForbids previous then
        sequence choice rest false persisting changed
          state.skipItem
      else
        match item.step state with
        | .error fault => .error fault
        | .ok (next, itemChanged) =>
            match Persisting.runAll persisting next with
            | .error fault => .error fault
            | .ok (last, laterChanged) =>
                let anyChanged :=
                  changed || itemChanged || laterChanged
                let last :=
                  if item.flags.stopsAfter itemChanged then
                    { last with stopped := true }
                  else
                    last
                if last.stopped then
                  .ok (last, anyChanged)
                else
                  sequence choice rest itemChanged
                    (Persisting.add
                      (Persisting.remaining persisting) item)
                    anyChanged last

/- Carry out a list of steps from the start. -/
def sequenceAll
    (choice : OptionalChoice)
    (items : List FlaggedStep) : Step :=
  sequence choice items false [] false

------------------------------------------------------------
-- Persistent blocks
------------------------------------------------------------

/- A run that knows nothing of the past but the word. -/
def RunState.fresh
    (state : RunState) : RunState :=
  { word := state.word }

/-
  End the rounds of a block at its bound. A probe tells
  whether the word has settled.
-/
def endRounds
    (head : BlockHead)
    (bound : Int)
    (body : Step)
    (first : Nat)
    (changed : Bool) : Step :=
  fun state =>
    match body state.fresh with
    | .error fault => .error fault
    | .ok (_, true) =>
        .ok
          (state.mark first
            (head.diagnostic (.blockPassBound bound)),
          changed)
    | .ok (_, false) => .ok (state, changed)

/-
  Carry out the rounds of a persistent block. `first` is
  the number of records before the block, and `seen` holds
  the earlier forms of the word.
-/
def repeatRounds
    (options : EngineOptions)
    (head : BlockHead)
    (bound : Int)
    (body : Step)
    (first : Nat) :
    Nat →
    List Form →
    Bool →
    Step
  | 0, _, changed, state =>
      endRounds head bound body first changed state
  | left + 1, seen, changed, state =>
      match body state with
      | .error fault => .error fault
      | .ok (next, roundChanged) =>
          if !roundChanged || next.stopped then
            .ok (next, changed || first < next.trace.length)
          else if options.detectCycles ∧
              Form.ofWord next.word ∈ seen then
            .ok
              (next.mark first
                (head.diagnostic (.blockCycle next.word.text)),
              true)
          else
            repeatRounds options head bound body first left
              (Form.ofWord next.word :: seen) true next

/- The step that runs a block with a given body. -/
def BlockHead.step
    (head : BlockHead)
    (options : EngineOptions)
    (body : Step) : Step :=
  if head.flags.persistent then
    fun state =>
      let bound := head.flags.passBound options.maxPasses
      repeatRounds options head bound body state.trace.length
        bound.toNat [Form.ofWord state.word] false state
  else
    body

------------------------------------------------------------
-- Items
------------------------------------------------------------

mutual

/- The step that runs an item. -/
def Item.step
    (options : EngineOptions)
    (choice : OptionalChoice) : Item → Step
  | .rule rule => rule.step options
  | .block head items =>
      head.step options
        (sequenceAll choice (Items.steps options choice items))

/- The steps that run a list of items, with their flags. -/
def Items.steps
    (options : EngineOptions)
    (choice : OptionalChoice) : List Item → List FlaggedStep
  | [] => []
  | item :: rest =>
      { flags := item.flags
        step := Item.step options choice item } ::
        Items.steps options choice rest

end

/- Run a list of items on a word. -/
def derive
    (options : EngineOptions)
    (choice : OptionalChoice)
    (items : List Item)
    (word : Word) : Except RunFault RunState :=
  match
    sequenceAll choice (Items.steps options choice items)
      { word := word }
  with
  | .error fault => .error fault
  | .ok (state, _) => .ok state

end Diachrony
