import Diachrony.Proofs.Derivation.Steps
import Diachrony.Proofs.Run.Checks

/-
  Derivations come to a result.

  A derivation fails only if the run of a rule does: rules
  come to an end one by one, persisting steps and the rounds
  of blocks are counted, and nothing else can go wrong. In
  the same way a derivation looks at its options only where
  it runs rules and where it ends the rounds of a block.

  Key definitions include:
    * `Step.Total`

  Key theorems include:
    * `sequence_total`
    * `repeatRounds_total`
    * `Items.steps_total`
    * `Items.steps_congr`
-/

namespace Diachrony

/- A step that comes to a result from every state. -/
def Step.Total
    (step : Step) : Prop :=
  ∀ state, ∃ result, step state = .ok result

variable {options : EngineOptions}
variable {choice : OptionalChoice}

------------------------------------------------------------
-- Sequences
------------------------------------------------------------

theorem Rule.step_total
    {rule : Rule}
    (hBound :
      rule.flags.persistent = true →
        1 ≤ rule.flags.passBound options.maxPasses)
    (hMatchable : rule.matchable = true) :
    (rule.step options).Total := by
  intro state
  rcases rule.exists_outcome hBound hMatchable state.word with
    ⟨outcome, hRun⟩
  rw [Rule.step, hRun]
  exact ⟨_, rfl⟩

theorem Persisting.runAll_total
    {entries : List Persisting}
    (hEntries : ∀ entry ∈ entries, entry.step.Total) :
    Step.Total (Persisting.runAll entries) := by
  intro state
  induction entries generalizing state with
  | nil => exact ⟨_, rfl⟩
  | cons entry rest ih =>
      rcases List.forall_mem_cons.mp hEntries with
        ⟨hEntry, hRest⟩
      rcases hEntry state with ⟨⟨next, changed⟩, hNext⟩
      rcases ih hRest next with ⟨last, hLast⟩
      rw [Persisting.runAll, hNext]
      dsimp only
      rw [hLast]
      exact ⟨_, rfl⟩

/- What persists after an item are that item and earlier ones. -/
theorem Persisting.next_total
    {entries : List Persisting}
    {item : FlaggedStep}
    (hEntries : ∀ entry ∈ entries, entry.step.Total)
    (hItem : item.step.Total) :
    ∀ entry ∈ Persisting.add (Persisting.remaining entries) item,
      entry.step.Total := by
  have hRemaining :
      ∀ entry ∈ Persisting.remaining entries,
        entry.step.Total := by
    intro entry hEntry
    rcases List.mem_map.mp (List.mem_of_mem_filter hEntry) with
      ⟨earlier, hEarlier, rfl⟩
    exact hEntries earlier hEarlier
  unfold Persisting.add
  split
  · refine List.forall_mem_append.mpr ⟨hRemaining, ?_⟩
    intro entry hEntry
    obtain rfl := List.mem_singleton.mp hEntry
    exact hItem
  · exact hRemaining

theorem sequence_total
    {items : List FlaggedStep}
    (hItems : ∀ item ∈ items, item.step.Total)
    {persisting : List Persisting}
    (hPersisting : ∀ entry ∈ persisting, entry.step.Total)
    (previous changed : Bool) :
    Step.Total
      (sequence choice items previous persisting changed) := by
  intro state
  induction items generalizing previous persisting changed
      state with
  | nil => exact ⟨_, rfl⟩
  | cons item rest ih =>
  rcases List.forall_mem_cons.mp hItems with ⟨hItem, hRest⟩
  cases hSkipped : item.isSkipped choice previous with
  | true =>
      rw [sequence_of_skipped hSkipped]
      exact ih hRest hPersisting _ _ _
  | false =>
      rcases hItem state with ⟨⟨next, itemChanged⟩, hNext⟩
      rcases Persisting.runAll_total hPersisting next with
        ⟨⟨after, laterChanged⟩, hAfter⟩
      rw [sequence_of_run hSkipped hNext hAfter]
      split
      · exact ⟨_, rfl⟩
      · exact
          ih hRest (Persisting.next_total hPersisting hItem)
            _ _ _

theorem sequenceAll_total
    {items : List FlaggedStep}
    (hItems : ∀ item ∈ items, item.step.Total) :
    Step.Total (sequenceAll choice items) :=
  sequence_total hItems (by simp) false false

------------------------------------------------------------
-- Blocks
------------------------------------------------------------

section Rounds

variable {head : BlockHead}
variable {bound : Int}
variable {body : Step}
variable {first : Nat}

theorem endRounds_total
    (hBody : body.Total)
    (changed : Bool) :
    Step.Total (endRounds head bound body first changed) := by
  intro state
  rcases hBody state.fresh with ⟨⟨probe, moved⟩, hProbe⟩
  rw [endRounds, hProbe]
  cases moved with
  | false => exact ⟨_, rfl⟩
  | true => exact ⟨_, rfl⟩

/- The rounds of a block are counted, so they come to an end. -/
theorem repeatRounds_total
    (hBody : body.Total)
    (left : Nat)
    (seen : List Form)
    (changed : Bool) :
    Step.Total
      (repeatRounds options head bound body first left seen
        changed) := by
  intro state
  induction left generalizing seen changed state with
  | zero => exact endRounds_total hBody changed state
  | succ left ih =>
      rcases hBody state with ⟨⟨next, roundChanged⟩, hNext⟩
      rw [repeatRounds, hNext]
      dsimp only
      split
      · exact ⟨_, rfl⟩
      split
      · exact ⟨_, rfl⟩
      · exact ih _ _ _

theorem BlockHead.step_total
    (hBody : body.Total) :
    Step.Total (head.step options body) := by
  intro state
  cases hPersistent : head.flags.persistent with
  | true =>
      rw [BlockHead.step_of_persistent hPersistent]
      exact repeatRounds_total hBody _ _ _ _
  | false =>
      rw [BlockHead.step_of_plain hPersistent]
      exact hBody state

end Rounds

mutual

/- An item comes to a result if the rules inside it do. -/
theorem Item.step_total :
    ∀ item : Item,
      (∀ rule, .rule rule ∈ item.walk →
        (rule.step options).Total) →
      (Item.step options choice item).Total
  | .rule rule, hRules => hRules rule (Item.mem_walk_self _)
  | .block _ items, hRules =>
      BlockHead.step_total
        (sequenceAll_total
          (Items.steps_total items fun rule hMem =>
            hRules rule (List.mem_cons_of_mem _ hMem)))

theorem Items.steps_total :
    ∀ items : List Item,
      (∀ rule, .rule rule ∈ Items.walk items →
        (rule.step options).Total) →
      ∀ step ∈ Items.steps options choice items,
        step.step.Total
  | [], _ => by simp [Items.steps]
  | item :: rest, hRules => by
      rw [Items.steps, List.forall_mem_cons]
      constructor
      · exact Item.step_total item fun rule hMem =>
          hRules rule (List.mem_append_left _ hMem)
      · exact Items.steps_total rest fun rule hMem =>
          hRules rule (List.mem_append_right _ hMem)

end

------------------------------------------------------------
-- Options
------------------------------------------------------------

section Options

variable {others : EngineOptions}

theorem repeatRounds_congr
    (hDetect : others.detectCycles = options.detectCycles)
    {head : BlockHead}
    {bound : Int}
    {body : Step}
    {first : Nat}
    (left : Nat)
    (seen : List Form)
    (changed : Bool)
    (state : RunState) :
    repeatRounds others head bound body first left seen changed
        state =
      repeatRounds options head bound body first left seen
        changed state := by
  induction left generalizing seen changed state with
  | zero => rfl
  | succ left ih =>
      rw [repeatRounds, repeatRounds, hDetect]
      simp only [ih]

theorem BlockHead.step_congr
    (hDetect : others.detectCycles = options.detectCycles)
    (hPasses : others.maxPasses = options.maxPasses)
    (head : BlockHead)
    (body : Step) :
    head.step others body = head.step options body := by
  funext state
  cases hPersistent : head.flags.persistent with
  | true =>
      rw [BlockHead.step_of_persistent hPersistent,
        BlockHead.step_of_persistent hPersistent, hPasses,
        repeatRounds_congr hDetect]
  | false =>
      rw [BlockHead.step_of_plain hPersistent,
        BlockHead.step_of_plain hPersistent]

mutual

/- An item does the same if the rules inside it do. -/
theorem Item.step_congr
    (hDetect : others.detectCycles = options.detectCycles)
    (hPasses : others.maxPasses = options.maxPasses) :
    ∀ item : Item,
      (∀ rule, .rule rule ∈ item.walk →
        rule.step others = rule.step options) →
      Item.step others choice item =
        Item.step options choice item
  | .rule rule, hRules => hRules rule (Item.mem_walk_self _)
  | .block head items, hRules => by
      have hSteps :=
        Items.steps_congr hDetect hPasses items fun rule hMem =>
          hRules rule (List.mem_cons_of_mem _ hMem)
      rw [Item.step, Item.step, hSteps,
        BlockHead.step_congr hDetect hPasses]

theorem Items.steps_congr
    (hDetect : others.detectCycles = options.detectCycles)
    (hPasses : others.maxPasses = options.maxPasses) :
    ∀ items : List Item,
      (∀ rule, .rule rule ∈ Items.walk items →
        rule.step others = rule.step options) →
      Items.steps others choice items =
        Items.steps options choice items
  | [], _ => rfl
  | item :: rest, hRules => by
      have hItem :=
        Item.step_congr hDetect hPasses item fun rule hMem =>
          hRules rule (List.mem_append_left _ hMem)
      have hRest :=
        Items.steps_congr hDetect hPasses rest fun rule hMem =>
          hRules rule (List.mem_append_right _ hMem)
      rw [Items.steps, Items.steps, hItem, hRest]

end

end Options

end Diachrony
