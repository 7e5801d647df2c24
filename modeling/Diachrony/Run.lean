import Diachrony.Sweep

/-
  Running a rule on a word.

  An ordinary rule scans the word once. A persistent rule
  scans it again and again until a scan changes nothing, a
  form of the word comes back, or the pass bound is
  reached. How it ended is reported, and a run that ended
  before the word had settled is marked on all its records.

  Key definitions include:
    * `Record`
    * `StopReason`
    * `RuleOutcome`
    * `Form`
    * `Rule.run`
-/

namespace Diachrony

------------------------------------------------------------
-- Records
------------------------------------------------------------

/- One change of a word by a rule, with its circumstances. -/
structure Record where
  rule : String
  start : Nat
  stop : Nat
  before : Word
  after : Word
  pass : Nat
  diagnostics : List Diagnostic := []
  deriving Repr, DecidableEq

namespace Record

/- The record of a change made in a pass of a rule. -/
def ofEdit
    (rule : Rule)
    (pass : Nat)
    (edit : Edit) : Record where
  rule := rule.name
  start := edit.start
  stop := edit.stop
  before := edit.before
  after := edit.after
  pass := pass

/- Whether the run of the record reached its pass bound. -/
def truncated
    (record : Record) : Bool :=
  record.diagnostics.any fun d => d.kind = .truncated

/- Whether the run of the record ended unsettled. -/
def unsettled
    (record : Record) : Bool :=
  record.diagnostics.any fun d => d.kind.isUnsettled

/- Attach a diagnostic to a record. -/
def attach
    (diagnostic : Diagnostic)
    (record : Record) : Record :=
  { record with
    diagnostics := record.diagnostics ++ [diagnostic] }

/- A record in one line. -/
def text
    (record : Record) : String :=
  record.before.text ++ " → " ++ record.after.text ++ "  (" ++
    record.rule ++ ")"

end Record

------------------------------------------------------------
-- Outcomes
------------------------------------------------------------

/- How a run ended. -/
inductive StopReason where
  | done
  | stable
  | cycle
  | truncated
  deriving Repr, DecidableEq

/- The name of a way to end. -/
def StopReason.name : StopReason → String
  | done => "done"
  | stable => "stable"
  | cycle => "cycle"
  | truncated => "truncated"

/- The result of running a rule on a word. -/
structure RuleOutcome where
  word : Word
  changes : List Record := []
  diagnostics : List Diagnostic := []
  passes : Nat := 0
  stopReason : StopReason := .done
  examined : Nat := 0
  vetoed : Nat := 0
  skipped : Nat := 0
  deriving Repr, DecidableEq

namespace RuleOutcome

/- Whether the rule changed the word. -/
def changed
    (outcome : RuleOutcome) : Bool :=
  !outcome.changes.isEmpty

/- Whether the run reached its pass bound. -/
def truncated
    (outcome : RuleOutcome) : Bool :=
  outcome.stopReason = .truncated

/- Add the results of a scan, as the next pass. -/
def addSweep
    (outcome : RuleOutcome)
    (rule : Rule)
    (sweep : Sweep) : RuleOutcome :=
  { outcome with
    word := sweep.word
    changes :=
      outcome.changes ++
        sweep.edits.map (Record.ofEdit rule (outcome.passes + 1))
    diagnostics :=
      (sweep.problems.map rule.diagnostic).foldl
        Diagnostic.addNew outcome.diagnostics
    passes := outcome.passes + 1
    examined := outcome.examined + sweep.examined
    vetoed := outcome.vetoed + sweep.vetoed
    skipped := outcome.skipped + sweep.skipped }

/- End a run for a reason. -/
def finish
    (outcome : RuleOutcome)
    (reason : StopReason) : RuleOutcome :=
  { outcome with stopReason := reason }

/- Report a diagnostic of the run and attach it to the records. -/
def mark
    (outcome : RuleOutcome)
    (diagnostic : Diagnostic) : RuleOutcome :=
  { outcome with
    diagnostics := outcome.diagnostics ++ [diagnostic]
    changes := outcome.changes.map (Record.attach diagnostic) }

end RuleOutcome

------------------------------------------------------------
-- Earlier forms
------------------------------------------------------------

/-
  A form that a word has had. Forms of different lengths are
  told apart without a look at their symbols.
-/
structure Form where
  length : Nat
  word : Word
  deriving Repr, DecidableEq

/- The form that a word has now. -/
def Form.ofWord
    (word : Word) : Form where
  length := word.length
  word := word

/- A form determines its word. -/
theorem Form.ofWord_inj
    {word other : Word} :
    Form.ofWord word = Form.ofWord other ↔ word = other := by
  constructor
  · intro h
    exact congrArg Form.word h
  · intro h
    rw [h]

------------------------------------------------------------
-- Persistent runs
------------------------------------------------------------

namespace Rule

/- Make one pass after those that were made. -/
def pass
    (rule : Rule)
    (options : EngineOptions)
    (outcome : RuleOutcome) :
    Except RunFault (RuleOutcome × Bool) :=
  match rule.sweep options outcome.word with
  | .error fault => .error fault
  | .ok sweep => .ok (outcome.addSweep rule sweep, sweep.changed)

/-
  End a run at the pass bound. A probe tells whether the
  word has settled.
-/
def endAtBound
    (rule : Rule)
    (options : EngineOptions)
    (bound : Int)
    (outcome : RuleOutcome) : Except RunFault RuleOutcome :=
  match rule.sweep options outcome.word with
  | .error fault => .error fault
  | .ok probe =>
      if probe.changed then
        .ok ((outcome.finish .truncated).mark
          (rule.diagnostic (.rulePassBound bound)))
      else
        .ok (outcome.finish .stable)

/- End a run because a form of the word came back. -/
def endInCycle
    (rule : Rule)
    (outcome : RuleOutcome) : RuleOutcome :=
  (outcome.finish .cycle).mark
    (rule.diagnostic
      (.ruleCycle outcome.word.text outcome.passes))

/-
  Make passes until the run ends. `left` is the number of
  passes that may follow the next one, and `seen` holds the
  earlier forms of the word.
-/
def runPasses
    (rule : Rule)
    (options : EngineOptions)
    (bound : Int) :
    Nat →
    List Form →
    RuleOutcome →
    Except RunFault RuleOutcome
  | left, seen, outcome =>
      if options.strict ∧ bound < (outcome.passes + 1 : Nat) then
        .error (.violation
          (.passesBeyond (outcome.passes + 1) bound))
      else
        match rule.pass options outcome with
        | .error fault => .error fault
        | .ok (next, false) => .ok (next.finish .stable)
        | .ok (next, true) =>
            if options.detectCycles ∧
                Form.ofWord next.word ∈ seen then
              .ok (rule.endInCycle next)
            else
              match left with
              | 0 => rule.endAtBound options bound next
              | left + 1 =>
                  rule.runPasses options bound left
                    (Form.ofWord next.word :: seen) next

/- Run a rule on a word. -/
def run
    (rule : Rule)
    (options : EngineOptions)
    (word : Word) : Except RunFault RuleOutcome :=
  if rule.flags.persistent then
    let bound := rule.flags.passBound options.maxPasses
    rule.runPasses options bound (bound.toNat - 1)
      [Form.ofWord word] { word := word }
  else
    match rule.pass options { word := word } with
    | .error fault => .error fault
    | .ok (outcome, _) => .ok outcome

end Rule

end Diachrony
