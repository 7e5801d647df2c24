import Diachrony.Proofs.Derivation.Growth

/-
  What a step depends on.

  A step looks at the word and at whether the run has been
  stopped, and at nothing else: neither at the records and
  the reports before it nor at the counts. So what a step
  has done to a word it does again whenever the word is the
  same.

  Key definitions include:
    * `RunState.Alike`
    * `Step.Replays`

  Key theorems include:
    * `sequence_replays`
    * `repeatRounds_replays`
    * `Item.step_replays`
-/

namespace Diachrony

/- All that a step can see is the same in two states. -/
structure RunState.Alike
    (state other : RunState) : Prop where
  word_eq : other.word = state.word
  stopped_eq : other.stopped = state.stopped

/- A step that succeeds does the same to states alike. -/
def Step.Replays
    (step : Step) : Prop :=
  ∀ ⦃state next other : RunState⦄ ⦃changed : Bool⦄,
    state.Alike other →
    step state = .ok (next, changed) →
      ∃ last,
        step other = .ok (last, changed) ∧ next.Alike last

variable {options : EngineOptions}
variable {choice : OptionalChoice}
variable {state other last : RunState}

namespace RunState.Alike

variable (hAlike : state.Alike other)

include hAlike

theorem skipItem :
    state.skipItem.Alike other.skipItem where
  word_eq := hAlike.word_eq
  stopped_eq := hAlike.stopped_eq

theorem stopIf
    (condition : Bool) :
    (state.stopIf condition).Alike
      (other.stopIf condition) := by
  cases condition with
  | false => exact hAlike
  | true =>
      exact
        { word_eq := hAlike.word_eq
          stopped_eq := rfl }

theorem mark
    (first start : Nat)
    (diagnostic : Diagnostic) :
    (state.mark first diagnostic).Alike
      (other.mark start diagnostic) where
  word_eq := hAlike.word_eq
  stopped_eq := hAlike.stopped_eq

/- A probe knows nothing that could differ. -/
theorem fresh_eq : other.fresh = state.fresh := by
  rw [fresh, fresh, hAlike.word_eq]

end RunState.Alike

------------------------------------------------------------
-- Rules
------------------------------------------------------------

theorem Rule.step_replays
    (rule : Rule) :
    Step.Replays (rule.step options) := by
  intro state next other changed hAlike hStep
  rcases Rule.step_cases hStep with
    ⟨outcome, hRun, rfl, rfl⟩
  refine ⟨other.addOutcome rule.name outcome, ?_, ?_⟩
  · rw [Rule.step, hAlike.word_eq, hRun]
  · exact
      { word_eq := rfl
        stopped_eq := hAlike.stopped_eq }

------------------------------------------------------------
-- Sequences
------------------------------------------------------------

theorem Persisting.runAll_replays
    {entries : List Persisting}
    (hEntries : ∀ entry ∈ entries, Step.Replays entry.step) :
    Step.Replays (Persisting.runAll entries) := by
  induction entries with
  | nil =>
      intro state next other changed hAlike hStep
      cases hStep
      exact ⟨other, rfl, hAlike⟩
  | cons entry rest ih =>
      intro state last other changed hAlike hStep
      rcases List.forall_mem_cons.mp hEntries with
        ⟨hEntry, hRest⟩
      rcases Persisting.runAll_cases hStep with
        ⟨next, _, _, hNext, hLast, rfl⟩
      rcases hEntry hAlike hNext with
        ⟨otherNext, hOther, hAlike⟩
      rcases ih hRest hAlike hLast with
        ⟨otherLast, hOtherLast, hAlike⟩
      refine ⟨otherLast, ?_, hAlike⟩
      rw [Persisting.runAll, hOther]
      dsimp only
      rw [hOtherLast]

theorem sequence_replays
    {items : List FlaggedStep}
    (hItems : ∀ item ∈ items, Step.Replays item.step)
    (previous : Bool)
    {persisting : List Persisting}
    (hPersisting :
      ∀ entry ∈ persisting, Step.Replays entry.step)
    (changed : Bool) :
    Step.Replays
      (sequence choice items previous persisting changed) := by
  induction items generalizing previous persisting changed with
  | nil =>
      intro state next other anyChanged hAlike hStep
      cases hStep
      exact ⟨other, rfl, hAlike⟩
  | cons item rest ih =>
      intro state last other anyChanged hAlike hStep
      rcases List.forall_mem_cons.mp hItems with
        ⟨hItem, hRest⟩
      rcases sequence_cases hStep with ⟨hSkipped, hMore⟩ |
        ⟨hRun, next, itemChanged, after, laterChanged, hNext,
          hAfter, hEnd⟩
      · rw [sequence_of_skipped hSkipped]
        exact ih hRest false hPersisting changed
          hAlike.skipItem hMore
      rcases hItem hAlike hNext with
        ⟨otherNext, hOtherNext, hAlike⟩
      rcases Persisting.runAll_replays hPersisting hAlike
          hAfter with
        ⟨otherAfter, hOtherAfter, hAlike⟩
      have hStopAlike :=
        hAlike.stopIf (item.flags.stopsAfter itemChanged)
      rw [sequence_of_run hRun hOtherNext hOtherAfter,
        hStopAlike.stopped_eq]
      rcases hEnd with ⟨hStopped, rfl, rfl⟩ | ⟨hGoing, hMore⟩
      · rw [if_pos hStopped]
        exact ⟨_, rfl, hStopAlike⟩
      · rw [if_neg (Bool.eq_false_iff.mp hGoing)]
        exact ih hRest itemChanged
          (Persisting.forall_next hPersisting hItem) _
          hStopAlike hMore

------------------------------------------------------------
-- Persistent blocks
------------------------------------------------------------

section Rounds

variable {head : BlockHead}
variable {bound : Int}
variable {body : Step}
variable {start otherStart : RunState}
variable {changed anyChanged : Bool}

theorem endRounds_replays
    {first otherFirst : Nat}
    (hAlike : state.Alike other)
    (hEnd :
      endRounds head bound body first changed state =
        .ok (last, anyChanged)) :
    ∃ otherLast,
      endRounds head bound body otherFirst changed other =
          .ok (otherLast, anyChanged) ∧
        last.Alike otherLast := by
  rcases endRounds_cases hEnd with
    ⟨rfl, probe, moved, hProbe, hLast⟩
  rw [endRounds, hAlike.fresh_eq, hProbe]
  rcases hLast with ⟨rfl, rfl⟩ | ⟨rfl, rfl⟩
  · exact ⟨_, rfl, hAlike.mark _ _ _⟩
  · exact ⟨_, rfl, hAlike⟩

variable (hGrows : body.Obeys RunState.Grows)
variable (hReplays : body.Replays)

include hGrows hReplays

/-
  Rounds see the records that earlier ones have made, but
  only whether there are any, and this is the same in both
  runs.
-/
theorem repeatRounds_replays
    {left : Nat}
    {seen : List Form}
    (hAlike : state.Alike other)
    (hState : start.Grows changed state)
    (hOther : otherStart.Grows changed other)
    (hStep :
      repeatRounds options head bound body start.trace.length
          left seen changed state =
        .ok (last, anyChanged)) :
    ∃ otherLast,
      repeatRounds options head bound body
            otherStart.trace.length left seen changed other =
          .ok (otherLast, anyChanged) ∧
        last.Alike otherLast := by
  induction left generalizing seen changed state other with
  | zero => exact endRounds_replays hAlike hStep
  | succ left ih =>
      rcases repeatRounds_cases hStep with
        ⟨next, roundChanged, hNext, hEnd⟩
      rcases hReplays hAlike hNext with
        ⟨otherNext, hOtherNext, hAlike⟩
      rw [repeatRounds, hOtherNext]
      dsimp only
      rw [hAlike.stopped_eq, hAlike.word_eq]
      rcases hEnd with ⟨hLast, rfl, rfl⟩ |
        ⟨rfl, hGoing, hDetect, hSeen, rfl, rfl⟩ |
        ⟨rfl, hGoing, hNew, hMore⟩
      · rw [if_pos (by simpa using hLast)]
        refine ⟨otherNext, ?_, hAlike⟩
        rw [hState.changed_or (hGrows hNext),
          hOther.changed_or (hGrows hOtherNext)]
      · rw [if_neg (by simp [hGoing]),
          if_pos ⟨hDetect, hSeen⟩]
        exact ⟨_, rfl, hAlike.mark _ _ _⟩
      · rw [if_neg (by simp [hGoing]), if_neg hNew]
        have hStateNext :=
          RunState.grows_composes.andThen hState (hGrows hNext)
        have hOtherGrown :=
          RunState.grows_composes.andThen hOther
            (hGrows hOtherNext)
        rw [Bool.or_true] at hStateNext hOtherGrown
        exact ih hAlike hStateNext hOtherGrown hMore

theorem BlockHead.step_replays
    (head : BlockHead) :
    Step.Replays (head.step options body) := by
  intro state next other changed hAlike hStep
  cases hPersistent : head.flags.persistent with
  | true =>
      rw [BlockHead.step_of_persistent hPersistent] at hStep ⊢
      rw [hAlike.word_eq]
      exact
        repeatRounds_replays hGrows hReplays hAlike
          (RunState.grows_composes.stay _)
          (RunState.grows_composes.stay _) hStep
  | false =>
      rw [BlockHead.step_of_plain hPersistent] at hStep ⊢
      exact hReplays hAlike hStep

end Rounds

------------------------------------------------------------
-- Items
------------------------------------------------------------

mutual

/- Every item does the same to states alike. -/
theorem Item.step_replays :
    ∀ item : Item,
      Step.Replays (Item.step options choice item)
  | .rule rule => by
      rw [Item.step]
      exact rule.step_replays
  | .block head items => by
      rw [Item.step]
      exact
        head.step_replays (Items.sequenceAll_grows items)
          (sequence_replays (Items.steps_replay items) false
            (by simp) false)

theorem Items.steps_replay :
    ∀ items : List Item,
      ∀ item ∈ Items.steps options choice items,
        Step.Replays item.step
  | [] => by simp [Items.steps]
  | first :: rest => by
      intro item hItem
      rw [Items.steps] at hItem
      rcases List.mem_cons.mp hItem with rfl | hRest
      · exact Item.step_replays first
      · exact Items.steps_replay rest item hRest

end

theorem Items.sequenceAll_replays
    (items : List Item) :
    Step.Replays
      (sequenceAll choice
        (Items.steps options choice items)) :=
  sequence_replays (Items.steps_replay items) false (by simp)
    false

end Diachrony
