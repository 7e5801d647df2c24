import Diachrony.Proofs.Derivation.Steps

/-
  Invariants of derivations.

  Whatever the items are and however they nest, a derivation
  changes its state in four ways only: it adds the outcome
  of a rule, counts an item that is left out, marks the
  records of a block, or decides to stop. What these keep is
  kept by every derivation.

  Key definitions include:
    * `Step.Keeps`
    * `RunState.Invariant`
    * `RunState.Preserves`
    * `RunState.AddsOnly`

  Key theorems include:
    * `RunState.Invariant.composes`
    * `endRounds_addsOnly`
    * `repeatRounds_keeps`
    * `Items.steps_keep`
    * `derive_keeps`
-/

namespace Diachrony

/- A property of states that a step does not destroy. -/
def Step.Keeps
    (property : RunState → Prop)
    (step : Step) : Prop :=
  ∀ ⦃state next : RunState⦄ ⦃changed : Bool⦄,
    property state →
    step state = .ok (next, changed) →
      property next

/-
  A property of states that is not destroyed by any of the
  ways in which a derivation changes its state.
-/
structure RunState.Invariant
    (options : EngineOptions)
    (property : RunState → Prop) : Prop where
  rule : ∀ rule : Rule,
    Step.Keeps property (rule.step options)
  skipItem : ∀ state : RunState,
    property state → property state.skipItem
  stop : ∀ state : RunState,
    property state → property { state with stopped := true }
  mark : ∀ (state : RunState) (first : Nat)
      (diagnostic : Diagnostic),
    property state → property (state.mark first diagnostic)

variable {options : EngineOptions}
variable {choice : OptionalChoice}
variable {property : RunState → Prop}

------------------------------------------------------------
-- Invariants as laws
------------------------------------------------------------

/- The law that a step does not destroy a property. -/
def RunState.Preserves
    (property : RunState → Prop)
    (state : RunState)
    (_ : Bool)
    (next : RunState) : Prop :=
  property state → property next

theorem Step.Obeys.keeps
    {step : Step}
    (hStep : step.Obeys (RunState.Preserves property)) :
    Step.Keeps property step :=
  fun _ _ _ hState hNext => hStep hNext hState

theorem Step.Keeps.obeys
    {step : Step}
    (hStep : Step.Keeps property step) :
    step.Obeys (RunState.Preserves property) :=
  fun _ _ _ hNext hState => hStep hState hNext

theorem RunState.Invariant.composes
    (hInvariant : RunState.Invariant options property) :
    RunState.Composes (RunState.Preserves property) where
  stay := fun _ hState => hState
  andThen := fun _ _ _ _ _ hFirst hSecond hState =>
    hSecond (hFirst hState)
  skipItem := hInvariant.skipItem
  stop := hInvariant.stop

------------------------------------------------------------
-- Persistent blocks
------------------------------------------------------------

/-
  A later state has the word, the changes and the counts of
  an earlier one. All that may have been added is one
  diagnostic, to the state and to records that did not have
  it.
-/
structure RunState.AddsOnly
    (earlier : RunState)
    (first : Nat)
    (diagnostic : Diagnostic)
    (later : RunState) : Prop where
  word_eq : later.word = earlier.word
  stats_eq : later.stats = earlier.stats
  stopped_eq : later.stopped = earlier.stopped
  marks :
    (later.trace = earlier.trace ∧
      later.diagnostics = earlier.diagnostics) ∨
    (later.trace =
        earlier.trace.take first ++
          (earlier.trace.drop first).map
            (RunState.attachNew diagnostic) ∧
      later.diagnostics =
        earlier.diagnostics ++ [diagnostic])

variable {head : BlockHead}
variable {bound : Int}
variable {body : Step}
variable {first : Nat}

/-
  The probe at the bound leaves nothing behind, but it
  decides whether the bound is reported.
-/
theorem endRounds_addsOnly
    {changed anyChanged : Bool}
    {state next : RunState}
    (hEnd :
      endRounds head bound body first changed state =
        .ok (next, anyChanged)) :
    anyChanged = changed ∧
      state.AddsOnly first
        (head.diagnostic (.blockPassBound bound)) next := by
  rcases endRounds_cases hEnd with
    ⟨rfl, _, _, _, ⟨_, rfl⟩ | ⟨_, rfl⟩⟩
  · exact ⟨rfl,
      { word_eq := rfl
        stats_eq := rfl
        stopped_eq := rfl
        marks := Or.inr ⟨rfl, rfl⟩ }⟩
  · exact ⟨rfl,
      { word_eq := rfl
        stats_eq := rfl
        stopped_eq := rfl
        marks := Or.inl ⟨rfl, rfl⟩ }⟩

theorem endRounds_keeps
    (hInvariant : RunState.Invariant options property)
    (changed : Bool) :
    Step.Keeps property
      (endRounds head bound body first changed) := by
  intro state next anyChanged hState hEnd
  rcases endRounds_cases hEnd with
    ⟨_, _, _, _, ⟨_, rfl⟩ | ⟨_, rfl⟩⟩
  · exact hInvariant.mark state first _ hState
  · exact hState

theorem repeatRounds_keeps
    (hInvariant : RunState.Invariant options property)
    (hBody : Step.Keeps property body)
    (left : Nat)
    (seen : List Form)
    (changed : Bool) :
    Step.Keeps property
      (repeatRounds options head bound body first left seen
        changed) := by
  induction left generalizing seen changed with
  | zero => exact endRounds_keeps hInvariant changed
  | succ left ih =>
      intro state last anyChanged hState hStep
      rcases repeatRounds_cases hStep with
        ⟨next, roundChanged, hNext, hEnd⟩
      have hKept := hBody hState hNext
      rcases hEnd with ⟨_, rfl, _⟩ | ⟨_, _, _, _, rfl, _⟩ |
        ⟨_, _, _, hMore⟩
      · exact hKept
      · exact hInvariant.mark next first _ hKept
      · exact ih _ true hKept hMore

theorem BlockHead.step_keeps
    (hInvariant : RunState.Invariant options property)
    (hBody : Step.Keeps property body) :
    Step.Keeps property (head.step options body) := by
  rw [BlockHead.step]
  split
  · intro state next changed hState hStep
    exact repeatRounds_keeps hInvariant hBody _ _ false hState
      hStep
  · exact hBody

------------------------------------------------------------
-- Items
------------------------------------------------------------

theorem Items.steps_keep
    (hInvariant : RunState.Invariant options property)
    (items : List Item) :
    ∀ item ∈ Items.steps options choice items,
      item.step.Obeys (RunState.Preserves property) := by
  apply Items.steps_obey hInvariant.composes
  · intro rule _
    exact (hInvariant.rule rule).obeys
  · intro head inside _ _ hBody
    exact (BlockHead.step_keeps hInvariant hBody.keeps).obeys

/- A derivation keeps what each of its changes keeps. -/
theorem derive_keeps
    (hInvariant : RunState.Invariant options property)
    {items : List Item}
    {word : Word}
    (hStart : property { word := word })
    {state : RunState}
    (hDerive :
      derive options choice items word = .ok state) :
    property state := by
  unfold derive at hDerive
  split at hDerive
  · cases hDerive
  · rename_i hState
    cases hDerive
    exact
      Step.Obeys.sequenceAll hInvariant.composes
        (Items.steps_keep hInvariant items) hState hStart

end Diachrony
