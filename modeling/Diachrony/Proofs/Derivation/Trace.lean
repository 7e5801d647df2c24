import Diachrony.Proofs.Derivation.Chain
import Diachrony.Proofs.Derivation.Invariant
import Diachrony.Ruleset

/-
  The trace of a derivation.

  The records of a derivation lead from the word that was
  handed in to the word that comes out, and the counts are
  those of the records.

  Key definitions include:
    * `RunState.Accounts`

  Key theorems include:
    * `RunState.accounts_invariant`
    * `Ruleset.apply_traces`
-/

namespace Diachrony

------------------------------------------------------------
-- Counts
------------------------------------------------------------

/- All counts of a list taken together. -/
def Stats.total : List (String × Nat) → Nat
  | [] => 0
  | (_, count) :: rest => count + Stats.total rest

theorem Stats.total_addTo
    (name : String)
    (n : Nat)
    (counts : List (String × Nat)) :
    Stats.total (Stats.addTo name n counts) =
      Stats.total counts + n := by
  induction counts with
  | nil => exact Nat.add_comm n 0
  | cons entry rest ih =>
      rcases entry with ⟨other, count⟩
      rw [Stats.addTo]
      split
      · rw [Stats.total, Stats.total]
        omega
      · rw [Stats.total, Stats.total, ih]
        omega

/- The changes of a rule are added to the count of its name. -/
theorem Stats.total_countRun
    (stats : Stats)
    (rule : String)
    (changes : Nat) :
    Stats.total (stats.countRun rule changes).changesByRule =
      Stats.total stats.changesByRule + changes := by
  rw [Stats.countRun]
  by_cases hNone : changes = 0
  · simp [hNone]
  · simp only [if_neg hNone]
    exact Stats.total_addTo rule changes stats.changesByRule

------------------------------------------------------------
-- Accounts
------------------------------------------------------------

/-
  The records of a state account for all that has happened
  to a word so far.
-/
structure RunState.Accounts
    (input : Word)
    (state : RunState) : Prop where
  leads :
    Edit.Leads input (state.trace.map Record.edit) state.word
  changes_eq : state.stats.changes = state.trace.length
  byRule_eq :
    Stats.total state.stats.changesByRule =
      state.trace.length

namespace RunState

@[simp] theorem edit_attachNew
    (diagnostic : Diagnostic)
    (record : Record) :
    (attachNew diagnostic record).edit = record.edit := by
  rw [attachNew]
  split
  · rfl
  · rfl

/- A record loses nothing when it is marked. -/
theorem subset_attachNew
    (diagnostic : Diagnostic)
    (record : Record) :
    record.diagnostics ⊆
      (attachNew diagnostic record).diagnostics := by
  rw [attachNew]
  split
  · exact List.Subset.refl _
  · exact List.subset_append_left _ _

/- A mark does not touch the changes of the records. -/
theorem edits_mark
    (state : RunState)
    (first : Nat)
    (diagnostic : Diagnostic) :
    (state.mark first diagnostic).trace.map Record.edit =
      state.trace.map Record.edit := by
  have hSame :
      Record.edit ∘ attachNew diagnostic = Record.edit :=
    funext (edit_attachNew diagnostic)
  rw [mark, List.map_append, List.map_map, hSame,
    ← List.map_append, List.take_append_drop]

theorem length_trace_mark
    (state : RunState)
    (first : Nat)
    (diagnostic : Diagnostic) :
    (state.mark first diagnostic).trace.length =
      state.trace.length := by
  have hEdits := edits_mark state first diagnostic
  simpa using congrArg List.length hEdits

variable {options : EngineOptions}
variable {input : Word}

/- The records of a rule are added to those before it. -/
theorem Accounts.rule_step
    {rule : Rule}
    {state next : RunState}
    {changed : Bool}
    (hState : state.Accounts input)
    (hStep :
      rule.step options state = .ok (next, changed)) :
    next.Accounts input := by
  rcases Rule.step_cases hStep with ⟨outcome, hRun, rfl, _⟩
  constructor
  case leads =>
    have hMore := Rule.run_leads hRun
    rw [addOutcome, List.map_append]
    exact hState.leads.append hMore
  case changes_eq =>
    rw [addOutcome, List.length_append]
    exact congrArg (· + outcome.changes.length)
      hState.changes_eq
  case byRule_eq =>
    rw [addOutcome, List.length_append,
      Stats.total_countRun, hState.byRule_eq]

theorem accounts_invariant :
    Invariant options (Accounts input) where
  rule := by
    intro rule state next changed hState hStep
    exact hState.rule_step hStep
  skipItem := by
    intro state hState
    exact
      { leads := hState.leads
        changes_eq := hState.changes_eq
        byRule_eq := hState.byRule_eq }
  stop := by
    intro state hState
    exact
      { leads := hState.leads
        changes_eq := hState.changes_eq
        byRule_eq := hState.byRule_eq }
  mark := by
    intro state first diagnostic hState
    have hLength := length_trace_mark state first diagnostic
    constructor
    case leads =>
      rw [edits_mark]
      exact hState.leads
    case changes_eq =>
      rw [hLength]
      exact hState.changes_eq
    case byRule_eq =>
      rw [hLength]
      exact hState.byRule_eq

end RunState

------------------------------------------------------------
-- Applying a ruleset
------------------------------------------------------------

/-
  The trace of a result leads from the word that was handed
  in to the word that comes out, every change is counted
  once, and the probes at the pass bounds of rules and
  blocks leave nothing but a report that the bound was
  reached.
-/
theorem Ruleset.apply_traces
    {ruleset : Ruleset}
    {config : Config}
    {spelling : Spelling}
    {result : ApplyResult}
    (hApply :
      ruleset.apply config spelling = .ok result) :
    result.input =
        spelling.toWord ruleset.graphs
          config.compiler.separator ∧
      Edit.Leads result.input
        (result.final.trace.map Record.edit) result.word ∧
      result.final.stats.changes =
        result.final.trace.length ∧
      Stats.total result.final.stats.changesByRule =
        result.final.trace.length ∧
      (∀ (rule : Rule) (options : EngineOptions) (bound : Int)
          (outcome next : RuleOutcome),
        rule.endAtBound options bound outcome = .ok next →
          outcome.AddsOnly
            (rule.diagnostic (.rulePassBound bound)) next) ∧
      (∀ (head : BlockHead) (bound : Int) (body : Step)
          (first : Nat) (changed anyChanged : Bool)
          (state next : RunState),
        endRounds head bound body first changed state =
            .ok (next, anyChanged) →
          anyChanged = changed ∧
            state.AddsOnly first
              (head.diagnostic (.blockPassBound bound))
              next) := by
  rw [Ruleset.apply] at hApply
  split at hApply
  · cases hApply
  · rename_i state hDerive
    cases hApply
    have hStart :
        RunState.Accounts
          (spelling.toWord ruleset.graphs
            config.compiler.separator)
          { word := spelling.toWord ruleset.graphs
              config.compiler.separator } :=
    { leads := Edit.Leads.done _
      changes_eq := rfl
      byRule_eq := rfl }
    have hAccounts :=
      derive_keeps RunState.accounts_invariant hStart hDerive
    exact ⟨rfl, hAccounts.leads, hAccounts.changes_eq,
      hAccounts.byRule_eq,
      fun _ _ _ _ _ => Rule.endAtBound_addsOnly,
      fun _ _ _ _ _ _ _ _ => endRounds_addsOnly⟩

/-
  A rule that persists over a block, which is cut off by its
  bound with a rule inside that is cut off by its own.
-/
def unsettledRuleset : Ruleset where
  items :=
    [ .rule
        { branches := [{ target := [.literal "b"] }]
          predicates := [{ replacements := [[.literal "c"]] }]
          flags := { persist := 2 }
          source := "b > c" },
      .block
        { flags := { persistent := true, maxPasses := some 1 }
          source := "!block" }
        [ .rule
            { branches := [{ target := [.literal "a"] }]
              predicates :=
                [ { replacements :=
                      [[.literal "a", .literal "a"]] } ]
              flags :=
                { persistent := true, maxPasses := some 1 }
              source := "a > aa" } ] ]

/- The state in which the ruleset leaves a word. -/
def unsettledState : RunState :=
  let ruleMark : Diagnostic :=
    { problem := .rulePassBound 1
      line := some 0
      rule := some "a > aa" }
  let blockMark : Diagnostic :=
    { problem := .blockPassBound 1
      line := some 0
      rule := some "!block" }
  { word := ["c", "a", "a"]
    trace :=
      [ { rule := "b > c"
          start := 0
          stop := 1
          before := ["b", "a"]
          after := ["c", "a"]
          pass := 1 },
        { rule := "a > aa"
          start := 1
          stop := 2
          before := ["c", "a"]
          after := ["c", "a", "a"]
          pass := 1
          diagnostics := [ruleMark, blockMark] } ]
    diagnostics := [ruleMark, blockMark]
    stats :=
      { rulesRun := 3
        changes := 2
        changesByRule := [("b > c", 1), ("a > aa", 1)] } }

theorem unsettledRuleset_traces :
    unsettledRuleset.apply {} (.word ["b", "a"]) =
        .ok { input := ["b", "a"], final := unsettledState } ∧
      Edit.Leads ["b", "a"]
        (unsettledState.trace.map Record.edit)
        ["c", "a", "a"] ∧
      unsettledState.stats.changes =
        unsettledState.trace.length := by
  have hApply :
      unsettledRuleset.apply {} (.word ["b", "a"]) =
        .ok
          { input := ["b", "a"], final := unsettledState } := by
    decide +kernel
  have hTraces := Ruleset.apply_traces hApply
  exact ⟨hApply, hTraces.2.1, hTraces.2.2.1⟩

end Diachrony
