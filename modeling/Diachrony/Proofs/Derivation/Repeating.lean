import Diachrony.Proofs.Derivation.Steps
import Diachrony.Proofs.Derivation.Trace
import Diachrony.Proofs.Run.Cycles

/-
  Repeated rules and repeated blocks.

  A rule that is repeated makes its passes by itself; a
  block that is repeated runs its items again. For a block
  of one rule both come to the same: the same changes lead
  to the same word, and they end for the same reason.

  Key definitions include:
    * `Account`
    * `Flags.Unsequenced`
    * `Flags.repeating`
    * `RunState.Parallels`

  Key theorems include:
    * `sequenceAll_single`
    * `RunState.Parallels.next`
    * `Rule.rounds_parallel_passes`
    * `Rule.block_repeats_rule`
-/

namespace Diachrony

------------------------------------------------------------
-- Accounts of a run
------------------------------------------------------------

/-
  What a run comes to: the word, the changes that led to it,
  and whether it was cut off by a bound or by a cycle.
-/
structure Account where
  word : Word
  edits : List Edit
  truncated : Bool
  cycle : Bool
  deriving Repr, DecidableEq

/- The account of a run that has reported some diagnostics. -/
def Account.of
    (word : Word)
    (edits : List Edit)
    (diagnostics : List Diagnostic) : Account where
  word := word
  edits := edits
  truncated := diagnostics.any fun d => d.kind = .truncated
  cycle := diagnostics.any fun d => d.kind = .cycle

/- The account of the state of a run. -/
def RunState.account
    (state : RunState) : Account :=
  Account.of state.word (state.trace.map Record.edit)
    state.diagnostics

/- The account of the outcome of a rule. -/
def RuleOutcome.account
    (outcome : RuleOutcome) : Account :=
  Account.of outcome.word outcome.edits outcome.diagnostics

/- Nothing is said about a run that was cut off. -/
def Diagnostic.AllSettled
    (diagnostics : List Diagnostic) : Prop :=
  ∀ d ∈ diagnostics, d.kind.isUnsettled = false

theorem Diagnostic.allSettled_nil :
    Diagnostic.AllSettled [] := by
  intro d hMem
  cases hMem

section Reports

variable {diagnostics others : List Diagnostic}

theorem Diagnostic.AllSettled.any_eq_false
    (hSettled : Diagnostic.AllSettled diagnostics)
    (kind : DiagnosticKind)
    (hKind : kind.isUnsettled = true) :
    (diagnostics.any fun d => d.kind = kind) = false := by
  rw [List.any_eq_false]
  intro d hMem hSame
  have hOther := hSettled d hMem
  rw [of_decide_eq_true hSame, hKind] at hOther
  cases hOther

variable (hSettled : Diagnostic.AllSettled diagnostics)
variable (hOthers : Diagnostic.AllSettled others)

include hSettled hOthers

theorem Account.of_settled
    (word : Word)
    (edits : List Edit) :
    Account.of word edits diagnostics =
      Account.of word edits others := by
  rw [Account.of, Account.of,
    hSettled.any_eq_false .truncated rfl,
    hSettled.any_eq_false .cycle rfl,
    hOthers.any_eq_false .truncated rfl,
    hOthers.any_eq_false .cycle rfl]

/- How a run ended is told by the kind of its last report. -/
theorem Account.of_reported
    {diagnostic other : Diagnostic}
    (hKind : diagnostic.kind = other.kind)
    (word : Word)
    (edits : List Edit) :
    Account.of word edits (diagnostics ++ [diagnostic]) =
      Account.of word edits (others ++ [other]) := by
  simp only [Account.of, List.any_append,
    hSettled.any_eq_false .truncated rfl,
    hSettled.any_eq_false .cycle rfl,
    hOthers.any_eq_false .truncated rfl,
    hOthers.any_eq_false .cycle rfl,
    List.any_cons, List.any_nil, hKind]

end Reports

------------------------------------------------------------
-- Sequences of one item
------------------------------------------------------------

/- The flags say nothing about the order of the run. -/
structure Flags.Unsequenced
    (flags : Flags) : Prop where
  isOptional : flags.isOptional = false
  ignored : flags.ignored = false
  ditto : flags.ditto = 0
  stop : flags.stop = 0
  persist : flags.persist = 1

/- The same flags, but repeated up to a number of times. -/
def Flags.repeating
    (flags : Flags)
    (n : Int) : Flags :=
  { flags with
    persistent := true
    maxPasses := some n }

theorem Flags.passBound_repeating
    {n : Int}
    (hBound : 1 ≤ n)
    (flags : Flags)
    (general : Int) :
    (flags.repeating n).passBound general = n := by
  have hSome : n ≠ 0 := by
    omega
  simp [Flags.passBound, Flags.repeating, hSome]

theorem Flags.Unsequenced.repeating
    {flags : Flags}
    (hFlags : flags.Unsequenced)
    (n : Int) :
    (flags.repeating n).Unsequenced where
  isOptional := hFlags.isOptional
  ignored := hFlags.ignored
  ditto := hFlags.ditto
  stop := hFlags.stop
  persist := hFlags.persist

variable {options : EngineOptions}
variable {choice : OptionalChoice}

/- A sequence of one item is that item. -/
theorem sequenceAll_single
    {item : FlaggedStep}
    (hFlags : item.flags.Unsequenced) :
    sequenceAll choice [item] = item.step := by
  funext state
  have hRun : item.isSkipped choice false = false := by
    simp [FlaggedStep.isSkipped, OptionalChoice.admits,
      Flags.dittoForbids, hFlags.isOptional, hFlags.ignored,
      hFlags.ditto]
  cases hStep : item.step state with
  | error fault =>
      rw [sequenceAll, sequence, ← FlaggedStep.isSkipped,
        hRun, hStep]
      rfl
  | ok result =>
      rcases result with ⟨next, changed⟩
      have hGoing : item.flags.stopsAfter changed = false := by
        simp [Flags.stopsAfter, hFlags.stop]
      have hNone :
          Persisting.runAll [] next = .ok (next, false) := rfl
      rw [sequenceAll, sequence_of_run hRun hStep hNone, hGoing]
      simp [RunState.stopIf, sequence]

/- A derivation by a single item comes to what a step does. -/
theorem derive_single
    {item : Item}
    (hFlags : item.flags.Unsequenced)
    (word : Word) :
    (derive options choice [item] word).map
        RunState.account =
      (Item.step options choice item { word := word }).map
        (fun result => result.1.account) := by
  rw [derive, Items.steps, Items.steps,
    sequenceAll_single hFlags]
  dsimp only
  cases Item.step options choice item { word := word } with
  | error fault => rfl
  | ok result => rfl

------------------------------------------------------------
-- Rounds and passes
------------------------------------------------------------

/-
  The rounds of a block have brought a run to where the
  passes of a rule have brought another one.
-/
structure RunState.Parallels
    (state : RunState)
    (outcome : RuleOutcome) : Prop where
  word_eq : outcome.word = state.word
  edits_eq : outcome.edits = state.trace.map Record.edit
  going : state.stopped = false
  state_settled : Diagnostic.AllSettled state.diagnostics
  outcome_settled : Diagnostic.AllSettled outcome.diagnostics

namespace RunState.Parallels

variable {rule other : Rule}
variable {state : RunState}
variable {outcome : RuleOutcome}

theorem initial
    (word : Word) :
    RunState.Parallels { word := word } { word := word } where
  word_eq := rfl
  edits_eq := rfl
  going := rfl
  state_settled := Diagnostic.allSettled_nil
  outcome_settled := Diagnostic.allSettled_nil

theorem next
    (hSame : state.Parallels outcome)
    {sweep : Sweep}
    (hSweep : rule.sweep options state.word = .ok sweep) :
    (state.addOutcome rule.name
        (RuleOutcome.addSweep { word := state.word } rule
          sweep)).Parallels
      (outcome.addSweep other sweep) := by
  have hNew : ∀ (reporter : Rule) (reported : List Diagnostic),
      Diagnostic.AllSettled reported →
        Diagnostic.AllSettled
          ((sweep.problems.map reporter.diagnostic).foldl
            Diagnostic.addNew reported) := by
    intro reporter reported hReported d hMem
    rcases Diagnostic.mem_foldl_addNew hMem with hOld | hAdded
    · exact hReported d hOld
    · rcases List.mem_map.mp hAdded with
        ⟨problem, hProblem, rfl⟩
      exact Rule.sweep_settled hSweep problem hProblem
  constructor
  case word_eq => rfl
  case edits_eq =>
    rw [RuleOutcome.edits_addSweep, hSame.edits_eq]
    simp [RunState.addOutcome, RuleOutcome.addSweep,
      Function.comp_def]
  case going => exact hSame.going
  case state_settled =>
    intro d hMem
    rcases List.mem_append.mp hMem with hOld | hAdded
    · exact hSame.state_settled d hOld
    · exact hNew rule [] Diagnostic.allSettled_nil d hAdded
  case outcome_settled =>
    exact hNew other _ hSame.outcome_settled

/- Two runs that end settled come to the same. -/
theorem account_finish
    (hSame : state.Parallels outcome)
    (reason : StopReason) :
    state.account = (outcome.finish reason).account := by
  rw [RunState.account, RuleOutcome.account,
    RuleOutcome.edits_finish, hSame.edits_eq]
  change
    _ = Account.of outcome.word _ outcome.diagnostics
  rw [hSame.word_eq]
  exact
    Account.of_settled hSame.state_settled
      hSame.outcome_settled _ _

/- Two runs that are cut off for one reason come to the same. -/
theorem account_mark
    (hSame : state.Parallels outcome)
    {diagnostic report : Diagnostic}
    (hKind : diagnostic.kind = report.kind)
    (first : Nat)
    (reason : StopReason) :
    (state.mark first diagnostic).account =
      ((outcome.finish reason).mark report).account := by
  rw [RunState.account, RuleOutcome.account,
    RuleOutcome.edits_mark, RuleOutcome.edits_finish,
    RunState.edits_mark, hSame.edits_eq]
  change
    Account.of state.word _ (state.diagnostics ++ [_]) =
      Account.of outcome.word _ (outcome.diagnostics ++ [_])
  rw [hSame.word_eq]
  exact
    Account.of_reported hSame.state_settled
      hSame.outcome_settled hKind _ _

end RunState.Parallels

namespace Rule

variable {rule : Rule}

/- A rule that is not repeated makes one pass. -/
theorem step_of_plain
    (hPlain : rule.flags.persistent = false)
    {state : RunState}
    {sweep : Sweep}
    (hSweep : rule.sweep options state.word = .ok sweep) :
    rule.step options state =
      .ok
        (state.addOutcome rule.name
          (RuleOutcome.addSweep { word := state.word } rule
            sweep),
        sweep.changed) := by
  rw [step, run, hPlain, pass_of_sweep hSweep]
  simp [RuleOutcome.changed, RuleOutcome.addSweep,
    Sweep.changed]

theorem step_of_fault
    (hPlain : rule.flags.persistent = false)
    {state : RunState}
    {fault : RunFault}
    (hSweep : rule.sweep options state.word = .error fault) :
    rule.step options state = .error fault := by
  rw [step, run, hPlain, pass, hSweep]
  rfl

section Repeated

variable {flags : Flags}
variable {head : BlockHead}
variable {bound : Int}
variable {first : Nat}
variable {state : RunState}
variable {outcome : RuleOutcome}

variable (hPlain : rule.flags.persistent = false)
variable
  (hDirection : flags.rightToLeft = rule.flags.rightToLeft)
variable (hSame : state.Parallels outcome)

include hPlain hDirection hSame

/- The two probes at the bound see the same. -/
theorem endRounds_parallels
    (changed : Bool) :
    (endRounds head bound (rule.step options) first changed
          state).map
        (fun result => result.1.account) =
      ((rule.flagged flags).endAtBound options bound
          outcome).map
        RuleOutcome.account := by
  have hSweeps :
      (rule.flagged flags).sweep options outcome.word =
        rule.sweep options state.word := by
    rw [hSame.word_eq]
    exact
      sweep_flagged flags hDirection options.maxPasses _
  rw [endRounds, endAtBound, hSweeps]
  cases hProbe : rule.sweep options state.word with
  | error fault =>
      have hFresh :
          rule.step options state.fresh = .error fault :=
        step_of_fault hPlain hProbe
      rw [hFresh]
      rfl
  | ok probe =>
      have hFresh := step_of_plain hPlain
        (show rule.sweep options state.fresh.word = .ok probe
          from hProbe)
      rw [hFresh]
      dsimp only
      cases probe.changed with
      | false =>
          exact congrArg Except.ok (hSame.account_finish _)
      | true =>
          refine
            congrArg Except.ok (hSame.account_mark ?_ first _)
          rfl

/-
  Each round of the block is a pass of the rule, and both
  end after the same one.
-/
theorem rounds_parallel_passes
    {left : Nat}
    (hLeft : (outcome.passes + 1 + left : Nat) = bound)
    (seen : List Form)
    (changed : Bool) :
    (repeatRounds options head bound (rule.step options) first
          (left + 1) seen changed state).map
        (fun result => result.1.account) =
      ((rule.flagged flags).runPasses options bound left
          seen outcome).map
        RuleOutcome.account := by
  have hSweeps :
      ∀ word,
        (rule.flagged flags).sweep options word =
          rule.sweep options word :=
    sweep_flagged flags hDirection options.maxPasses
  induction left using Nat.strongRecOn
    generalizing seen changed state outcome with
  | _ left ih =>
  rw [repeatRounds, runPasses, if_neg (passes_within hLeft)]
  cases hSweep : rule.sweep options state.word with
  | error fault =>
      rw [step_of_fault hPlain hSweep, pass, hSweeps,
        hSame.word_eq, hSweep]
      rfl
  | ok sweep =>
  have hNext :
      (state.addOutcome rule.name
          (RuleOutcome.addSweep { word := state.word } rule
            sweep)).Parallels
        (outcome.addSweep (rule.flagged flags) sweep) :=
    hSame.next hSweep
  have hOther :
      (rule.flagged flags).sweep options outcome.word =
        .ok sweep := by
    rw [hSweeps, hSame.word_eq, hSweep]
  rw [step_of_plain hPlain hSweep, pass_of_sweep hOther]
  dsimp only
  rw [hNext.going]
  cases sweep.changed with
  | false => exact congrArg Except.ok (hNext.account_finish _)
  | true =>
  dsimp only
  rw [if_neg (by simp), hNext.word_eq]
  split
  · refine
      congrArg Except.ok (hNext.account_mark ?_ first .cycle)
    rfl
  cases left with
  | zero =>
      exact endRounds_parallels hPlain hDirection hNext true
  | succ fewer =>
      apply ih fewer (Nat.lt_succ_self _) hNext
      rw [← hLeft]
      exact congrArg Nat.cast (by
        simp only [RuleOutcome.addSweep]
        omega)

end Repeated

/- A step from the start comes to what the run comes to. -/
theorem step_account
    (rule : Rule)
    (word : Word) :
    (rule.step options { word := word }).map
        (fun result => result.1.account) =
      (rule.run options word).map RuleOutcome.account := by
  rw [step]
  cases rule.run options word with
  | error fault => rfl
  | ok outcome => rfl

/-
  To repeat a rule and to repeat a block that holds nothing
  but the rule come to the same: the same word by the same
  changes, or the same fault, and a run that is cut off is
  cut off for the same reason.
-/
theorem block_repeats_rule
    {head : BlockHead}
    {n : Int}
    (hPlain : rule.flags.persistent = false)
    (hFlags : rule.flags.Unsequenced)
    (hHead : head.flags = ({} : Flags).repeating n)
    (hBound : 1 ≤ n)
    (options : EngineOptions)
    (choice : OptionalChoice)
    (word : Word) :
    (derive options choice [.block head [.rule rule]]
          word).map
        RunState.account =
      (derive options choice
          [.rule (rule.flagged (rule.flags.repeating n))]
          word).map
        RunState.account := by
  have hNone : ({} : Flags).Unsequenced :=
    { isOptional := rfl
      ignored := rfl
      ditto := rfl
      stop := rfl
      persist := rfl }
  have hBlock :
      (Item.block head [.rule rule]).flags.Unsequenced := by
    rw [Item.flags, hHead]
    exact hNone.repeating n
  have hRule :
      (Item.rule
        (rule.flagged
          (rule.flags.repeating n))).flags.Unsequenced :=
    hFlags.repeating n
  have hPersistent : head.flags.persistent = true := by
    rw [hHead]
    rfl
  have hBody :
      sequenceAll choice
          (Items.steps options choice [.rule rule]) =
        rule.step options := by
    rw [Items.steps, Items.steps, sequenceAll_single hFlags,
      Item.step]
  have hDirection :
      (rule.flags.repeating n).rightToLeft =
        rule.flags.rightToLeft :=
    rfl
  have hHeadBound :
      head.flags.passBound options.maxPasses = n := by
    rw [hHead]
    exact Flags.passBound_repeating hBound _ _
  have hRuleBound :
      (rule.flagged
          (rule.flags.repeating n)).flags.passBound
        options.maxPasses = n :=
    Flags.passBound_repeating hBound _ _
  rw [derive_single hBlock, derive_single hRule, Item.step,
    Item.step, hBody,
    BlockHead.step_of_persistent hPersistent, step_account,
    run_of_persistent rfl, hHeadBound, hRuleBound]
  -- The first pass of a rule is not among those it has left.
  cases hRounds : n.toNat with
  | zero => omega
  | succ fewer =>
      apply rounds_parallel_passes hPlain hDirection
        (RunState.Parallels.initial word)
      change ((0 + 1 + fewer : Nat) : Int) = n
      omega

end Rule

/- Turn one symbol into another and back, from the word end. -/
def swappingRule : Rule where
  branches :=
    [ { target := [.literal "a"] },
      { target := [.literal "b"] } ]
  predicates :=
    [ { replacements := [[.literal "b"], [.literal "a"]] } ]
  flags := { rightToLeft := true }
  source := "a, b > b, a"

/- The head of a block that is run three times. -/
def threefoldHead : BlockHead where
  flags := ({} : Flags).repeating 3
  source := "!three"

/- The word has come back after two passes. -/
def swappedAccount : Account where
  word := ["a"]
  edits :=
    [ { start := 0
        stop := 1
        before := ["a"]
        after := ["b"] },
      { start := 0
        stop := 1
        before := ["b"]
        after := ["a"] } ]
  truncated := false
  cycle := true

theorem threefoldBlock_repeats_rule :
    swappingRule.flags.persistent = false ∧
      swappingRule.flags.Unsequenced ∧
      threefoldHead.flags = ({} : Flags).repeating 3 ∧
      (derive {} {}
            [.block threefoldHead [.rule swappingRule]]
            ["a"]).map
          RunState.account =
        .ok swappedAccount ∧
      (derive {} {}
            [.rule
              (swappingRule.flagged
                (swappingRule.flags.repeating 3))]
            ["a"]).map
          RunState.account =
        .ok swappedAccount := by
  have hPlain : swappingRule.flags.persistent = false := rfl
  have hFlags : swappingRule.flags.Unsequenced :=
    { isOptional := rfl
      ignored := rfl
      ditto := rfl
      stop := rfl
      persist := rfl }
  have hBlock :
      (derive {} {}
            [.block threefoldHead [.rule swappingRule]]
            ["a"]).map
          RunState.account =
        .ok swappedAccount := by
    decide +kernel
  have hSame :=
    Rule.block_repeats_rule hPlain hFlags
      (rfl : threefoldHead.flags = ({} : Flags).repeating 3)
      (by decide) {} {} ["a"]
  exact
    ⟨hPlain, hFlags, rfl, hBlock, hSame.symm.trans hBlock⟩

end Diachrony
