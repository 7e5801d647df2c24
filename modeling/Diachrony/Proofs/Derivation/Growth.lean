import Diachrony.Proofs.Derivation.Steps
import Diachrony.Proofs.Derivation.Trace

/-
  What a step adds.

  A step of a derivation leaves the records and the reports
  before it as they are and adds its own behind them. The
  records that it adds lead from the word before the step to
  the word after it, and the step reports a change if there
  are any.

  Key definitions include:
    * `RunState.Adds`
    * `RunState.Grows`

  Key theorems include:
    * `RunState.Grows.mark`
    * `repeatRounds_grows`
    * `Item.step_grows`
-/

namespace Diachrony

namespace RunState

------------------------------------------------------------
-- Additions to a state
------------------------------------------------------------

/- A step adds records and reports to a state. -/
structure Adds
    (state : RunState)
    (changed : Bool)
    (records : List Record)
    (reports : List Diagnostic)
    (next : RunState) : Prop where
  trace_eq : next.trace = state.trace ++ records
  diagnostics_eq :
    next.diagnostics = state.diagnostics ++ reports
  leads :
    Edit.Leads state.word (records.map Record.edit) next.word
  changed_eq : changed = !records.isEmpty
  stopped : state.stopped = true → next.stopped = true

/- All that a step does to a state is to add to it. -/
def Grows
    (state : RunState)
    (changed : Bool)
    (next : RunState) : Prop :=
  ∃ records reports, state.Adds changed records reports next

variable {state next last : RunState}
variable {changed later : Bool}
variable {records others : List Record}
variable {reports more : List Diagnostic}

theorem Adds.same
    (state : RunState) :
    state.Adds false [] [] state where
  trace_eq := (List.append_nil _).symm
  diagnostics_eq := (List.append_nil _).symm
  leads := Edit.Leads.done _
  changed_eq := rfl
  stopped := id

theorem Adds.trans
    (hNext : state.Adds changed records reports next)
    (hLast : next.Adds later others more last) :
    state.Adds (changed || later) (records ++ others)
      (reports ++ more) last where
  trace_eq := by
    rw [hLast.trace_eq, hNext.trace_eq, List.append_assoc]
  diagnostics_eq := by
    rw [hLast.diagnostics_eq, hNext.diagnostics_eq,
      List.append_assoc]
  leads := by
    rw [List.map_append]
    exact hNext.leads.append hLast.leads
  changed_eq := by
    rw [hNext.changed_eq, hLast.changed_eq, ← Bool.not_and]
    cases records with
    | nil => rfl
    | cons record rest => rfl
  stopped := fun hStopped =>
    hLast.stopped (hNext.stopped hStopped)

/- A mark from where a step began changes what it added. -/
theorem Adds.mark
    (hNext : state.Adds changed records reports next)
    (diagnostic : Diagnostic) :
    state.Adds changed (records.map (attachNew diagnostic))
      (reports ++ [diagnostic])
      (next.mark state.trace.length diagnostic) where
  trace_eq := by
    rw [RunState.mark, hNext.trace_eq, List.take_left,
      List.drop_left]
  diagnostics_eq := by
    rw [RunState.mark, hNext.diagnostics_eq, List.append_assoc]
  leads := by
    have hSame :
        Record.edit ∘ attachNew diagnostic = Record.edit :=
      funext (edit_attachNew diagnostic)
    rw [List.map_map, hSame]
    exact hNext.leads
  changed_eq := by
    rw [List.isEmpty_map]
    exact hNext.changed_eq
  stopped := hNext.stopped

------------------------------------------------------------
-- Growth
------------------------------------------------------------

/- To count or to stop adds nothing. -/
theorem grows_composes : Composes Grows where
  stay := fun state => ⟨[], [], Adds.same state⟩
  andThen := by
    rintro _ _ _ _ _ ⟨_, _, hNext⟩ ⟨_, _, hLast⟩
    exact ⟨_, _, hNext.trans hLast⟩
  skipItem := fun state =>
    ⟨[], [], { Adds.same state with }⟩
  stop := fun state =>
    ⟨[], [], { Adds.same state with stopped := fun _ => rfl }⟩

theorem Grows.mark
    (hNext : state.Grows changed next)
    (diagnostic : Diagnostic) :
    state.Grows changed
      (next.mark state.trace.length diagnostic) := by
  rcases hNext with ⟨_, _, hNext⟩
  exact ⟨_, _, hNext.mark diagnostic⟩

theorem Grows.stopped
    (hNext : state.Grows changed next) :
    state.stopped = true → next.stopped = true := by
  rcases hNext with ⟨_, _, hNext⟩
  exact hNext.stopped

theorem Grows.length_le
    (hNext : state.Grows changed next) :
    state.trace.length ≤ next.trace.length := by
  rcases hNext with ⟨records, _, hNext⟩
  rw [hNext.trace_eq, List.length_append]
  exact Nat.le_add_right _ _

/- A step reports a change if the trace is longer than before. -/
theorem Grows.changed_eq
    (hNext : state.Grows changed next) :
    changed = decide (state.trace.length < next.trace.length) := by
  rcases hNext with ⟨records, _, hNext⟩
  rw [hNext.changed_eq, hNext.trace_eq, List.length_append]
  cases records with
  | nil => simp
  | cons record rest => simp

/-
  After a change in an earlier step it makes no difference
  whether the later step counts its own records or all.
-/
theorem Grows.changed_or
    (hNext : state.Grows changed next)
    (hLast : next.Grows later last) :
    (changed || state.trace.length < last.trace.length) =
      (changed || later) := by
  have hAll := grows_composes.andThen hNext hLast
  rw [← hAll.changed_eq, ← Bool.or_assoc, Bool.or_self]

/- A step that reports no change leaves word and trace alone. -/
theorem Grows.unchanged
    (hNext : state.Grows false next) :
    next.word = state.word ∧ next.trace = state.trace := by
  rcases hNext with ⟨records, _, hNext⟩
  have hNone : records = [] := by
    simpa using hNext.changed_eq
  have hLeads := hNext.leads
  rw [hNone] at hLeads
  refine ⟨hLeads.eq_of_nil, ?_⟩
  rw [hNext.trace_eq, hNone, List.append_nil]

end RunState

------------------------------------------------------------
-- Rules
------------------------------------------------------------

variable {options : EngineOptions}
variable {choice : OptionalChoice}

/- A rule adds the records and the reports of its run. -/
theorem Rule.step_adds
    {rule : Rule}
    {state : RunState}
    {outcome : RuleOutcome}
    (hRun : rule.run options state.word = .ok outcome) :
    state.Adds outcome.changed outcome.changes
      outcome.diagnostics
      (state.addOutcome rule.name outcome) where
  trace_eq := rfl
  diagnostics_eq := rfl
  leads := Rule.run_leads hRun
  changed_eq := rfl
  stopped := id

theorem Rule.step_grows
    (rule : Rule) :
    (rule.step options).Obeys RunState.Grows := by
  intro state next changed hStep
  rcases Rule.step_cases hStep with
    ⟨outcome, hRun, rfl, rfl⟩
  exact ⟨_, _, Rule.step_adds hRun⟩

------------------------------------------------------------
-- Persistent blocks
------------------------------------------------------------

section Rounds

variable {head : BlockHead}
variable {bound : Int}
variable {body : Step}
variable {start state last : RunState}
variable {changed anyChanged : Bool}

theorem endRounds_grows
    (hState : start.Grows changed state)
    (hEnd :
      endRounds head bound body start.trace.length changed
          state =
        .ok (last, anyChanged)) :
    start.Grows anyChanged last := by
  rcases endRounds_cases hEnd with
    ⟨rfl, _, _, _, ⟨_, rfl⟩ | ⟨_, rfl⟩⟩
  · exact hState.mark _
  · exact hState

variable (hBody : body.Obeys RunState.Grows)

include hBody

/-
  The rounds of a block add to the state in which the first
  one began.
-/
theorem repeatRounds_grows
    {left : Nat}
    {seen : List Form}
    (hState : start.Grows changed state)
    (hStep :
      repeatRounds options head bound body start.trace.length
          left seen changed state =
        .ok (last, anyChanged)) :
    start.Grows anyChanged last := by
  induction left generalizing seen changed state with
  | zero => exact endRounds_grows hState hStep
  | succ left ih =>
      rcases repeatRounds_cases hStep with
        ⟨next, roundChanged, hNext, hEnd⟩
      have hAll :=
        RunState.grows_composes.andThen hState (hBody hNext)
      rcases hEnd with ⟨_, rfl, rfl⟩ |
        ⟨rfl, _, _, _, rfl, rfl⟩ | ⟨rfl, _, _, hMore⟩
      · rw [hState.changed_or (hBody hNext)]
        exact hAll
      · rw [Bool.or_true] at hAll
        exact hAll.mark _
      · rw [Bool.or_true] at hAll
        exact ih hAll hMore

theorem BlockHead.step_grows
    (head : BlockHead) :
    (head.step options body).Obeys RunState.Grows := by
  intro state next changed hStep
  cases hPersistent : head.flags.persistent with
  | true =>
      rw [BlockHead.step_of_persistent hPersistent] at hStep
      exact
        repeatRounds_grows hBody
          (RunState.grows_composes.stay state) hStep
  | false =>
      rw [BlockHead.step_of_plain hPersistent] at hStep
      exact hBody hStep

end Rounds

------------------------------------------------------------
-- Items
------------------------------------------------------------

/- Every item does no more to a state than to add to it. -/
theorem Item.step_grows
    (item : Item) :
    (Item.step options choice item).Obeys RunState.Grows := by
  apply Item.step_obeys RunState.grows_composes
  · intro rule _
    exact rule.step_grows
  · intro head _ _ _ hBody
    exact head.step_grows hBody

theorem Items.steps_grow
    (items : List Item) :
    ∀ item ∈ Items.steps options choice items,
      item.step.Obeys RunState.Grows := by
  apply Items.steps_obey RunState.grows_composes
  · intro rule _
    exact rule.step_grows
  · intro head _ _ _ hBody
    exact head.step_grows hBody

theorem Items.sequenceAll_grows
    (items : List Item) :
    Step.Obeys RunState.Grows
      (sequenceAll choice
        (Items.steps options choice items)) :=
  Step.Obeys.sequenceAll RunState.grows_composes
    (Items.steps_grow items)

end Diachrony
