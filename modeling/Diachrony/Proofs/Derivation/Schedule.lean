import Diachrony.Proofs.Derivation.Calls
import Mathlib.Algebra.BigOperators.Group.Finset.Basic
import Mathlib.Algebra.GroupWithZero.Nat
import Mathlib.Data.Fintype.Basic
import Mathlib.Data.List.FinRange

/-
  The schedule of items that persist.

  While a sequence is run, the items that are to be run again
  are kept in a list with a number each, which is counted
  down. What comes of it is a schedule that can be told from
  the numbers alone: each item is run in its turn, and then
  those of the items before it that persist so long, the
  first one first.

  Key definitions include:
    * `Step.inOrder`
    * `rerunAfter`
    * `schedule`
    * `Flags.TakeTurn`

  Key theorems include:
    * `count_schedule`
    * `sequence_eq_inOrder`
    * `Items.rules_scheduled`
-/

namespace Diachrony

------------------------------------------------------------
-- Schedules
------------------------------------------------------------

section Schedules

variable {n : Nat}

/-
  The items that are run again after an item: those before
  it whose number is not used up yet, in their order.
-/
def rerunAfter
    (persist : Fin n → Int)
    (j : Fin n) : List (Fin n) :=
  (List.finRange n).filter fun i =>
    i < j ∧ (j : Int) - i < persist i

/-
  Which item is run when: each one in its turn, and after it
  those that are run again.
-/
def schedule
    (persist : Fin n → Int) : List (Fin n) :=
  (List.finRange n).flatMap fun j => j :: rerunAfter persist j

/- Of the items in their order only those in front come before. -/
theorem rerunAfter_eq
    {persist : Fin n → Int}
    {front rest : List (Fin n)}
    {j : Fin n}
    (hAll : front ++ j :: rest = List.finRange n) :
    rerunAfter persist j =
      front.filter fun i => (j : Int) - i < persist i := by
  have hSorted := List.pairwise_lt_finRange n
  rw [← hAll, List.pairwise_append, List.pairwise_cons]
    at hSorted
  rcases hSorted with ⟨_, ⟨hBehind, _⟩, hBefore⟩
  rw [rerunAfter, ← hAll, List.filter_append]
  have hFront : ∀ i ∈ front, i < j :=
    fun i hMem => hBefore i hMem j List.mem_cons_self
  have hBack : ∀ i ∈ j :: rest, ¬i < j :=
    List.forall_mem_cons.mpr
      ⟨lt_irrefl j, fun i hMem => (hBehind i hMem).not_gt⟩
  have hNone :
      (j :: rest).filter
          (fun i => i < j ∧ (j : Int) - i < persist i) = [] :=
    List.filter_eq_nil_iff.mpr fun i hMem => by
      simp [hBack i hMem]
  rw [hNone, List.append_nil]
  exact List.filter_congr fun i hMem => by simp [hFront i hMem]

theorem length_front
    {front rest : List (Fin n)}
    {j : Fin n}
    (hAll : front ++ j :: rest = List.finRange n) :
    front.length = j := by
  have hHere : (List.finRange n)[front.length]? = some j := by
    rw [← hAll]
    simp
  rcases List.getElem?_eq_some_iff.mp hHere with ⟨_, rfl⟩
  simp

/-
  How often an item is run: once in its turn, and again as
  long as it persists and items follow.
-/
def timesRun
    (persist : Fin n → Int)
    (i : Fin n) : Nat :=
  1 + min (persist i - 1).toNat (n - 1 - i)

theorem count_round
    (persist : Fin n → Int)
    (i j : Fin n) :
    (j :: rerunAfter persist j).count i =
      (if (i : Nat) = j then 1 else 0) +
        if (i : Nat) < j ∧ (j : Int) - i < persist i then 1
        else 0 := by
  have hOnce : (List.finRange n).count i = 1 :=
    List.count_eq_one_of_mem (List.nodup_finRange n)
      (List.mem_finRange i)
  have hAgain :
      (rerunAfter persist j).count i =
        if (i : Nat) < j ∧ (j : Int) - i < persist i then 1
        else 0 := by
    split
    · rename_i hLasts
      rw [rerunAfter, List.count_filter (by simpa using hLasts),
        hOnce]
    · rename_i hEnded
      rw [List.count_eq_zero, rerunAfter, List.mem_filter]
      simpa using hEnded
  have hTurn : (j == i) = decide ((i : Nat) = j) := by
    rw [Bool.eq_iff_iff, beq_iff_eq, decide_eq_true_iff,
      Fin.ext_iff, eq_comm]
  rw [List.count_cons, hAgain, hTurn, Nat.add_comm]
  simp only [decide_eq_true_eq]

/- The rounds that an item with a number is run in. -/
theorem sum_rounds
    (i n : Nat)
    (left : Int) :
    ((List.range n).map fun j =>
        (if i = j then 1 else 0) +
          if i < j ∧ (j : Int) - i < left then 1 else 0).sum =
      if i < n then 1 + min (left - 1).toNat (n - 1 - i)
      else 0 := by
  induction n with
  | zero => simp
  | succ n ih =>
      rw [List.range_succ, List.map_append, List.sum_append, ih,
        List.map_singleton, List.sum_singleton]
      split_ifs <;> omega

theorem count_schedule
    (persist : Fin n → Int)
    (i : Fin n) :
    (schedule persist).count i = timesRun persist i := by
  have hRounds :
      (schedule persist).count i =
        ((List.range n).map fun j =>
          (if (i : Nat) = j then 1 else 0) +
            if (i : Nat) < j ∧ (j : Int) - i < persist i then 1
            else 0).sum := by
    rw [schedule, List.count_flatMap,
      ← List.map_coe_finRange_eq_range, List.map_map]
    congr 1
    exact
      List.map_congr_left fun j _ => count_round persist i j
  rw [hRounds, sum_rounds, if_pos i.isLt, timesRun]

theorem length_schedule
    (persist : Fin n → Int) :
    (schedule persist).length = ∑ i, timesRun persist i := by
  have hCount :
      ∑ i, Multiset.count i (schedule persist : Multiset (Fin n)) =
        Multiset.card (schedule persist : Multiset (Fin n)) :=
    Multiset.sum_count_eq_card fun _ _ => Finset.mem_univ _
  simpa [count_schedule] using hCount.symm

end Schedules

------------------------------------------------------------
-- Steps in order
------------------------------------------------------------

variable {options : EngineOptions}
variable {choice : OptionalChoice}

/- Carry out steps one after another. -/
def Step.inOrder : List Step → Step
  | [], state => .ok (state, false)
  | step :: rest, state =>
      match step state with
      | .error fault => .error fault
      | .ok (next, changed) =>
          match inOrder rest next with
          | .error fault => .error fault
          | .ok (last, later) => .ok (last, changed || later)

theorem Step.inOrder_append
    (first second : List Step)
    (state : RunState) :
    inOrder (first ++ second) state =
      match inOrder first state with
      | .error fault => .error fault
      | .ok (next, changed) =>
          (inOrder second next).map fun result =>
            (result.1, changed || result.2) := by
  induction first generalizing state with
  | nil =>
      simp only [List.nil_append, inOrder, Bool.false_or]
      cases inOrder second state <;> rfl
  | cons step rest ih =>
      rw [List.cons_append, inOrder, inOrder]
      cases step state with
      | error fault => rfl
      | ok result =>
          rcases result with ⟨next, changed⟩
          dsimp only
          rw [ih]
          cases inOrder rest next with
          | error fault => rfl
          | ok result =>
              rcases result with ⟨middle, later⟩
              dsimp only
              cases inOrder second middle with
              | error fault => rfl
              | ok result =>
                  simp only [Except.map, Bool.or_assoc]

/- What persists is run again in order. -/
theorem Persisting.runAll_eq_inOrder
    (entries : List Persisting) :
    Persisting.runAll entries =
      Step.inOrder (entries.map Persisting.step) := by
  funext state
  induction entries generalizing state with
  | nil => rfl
  | cons entry rest ih =>
      rw [Persisting.runAll, List.map_cons, Step.inOrder]
      cases entry.step state with
      | error fault => rfl
      | ok result =>
          have hRest := ih result.1
          cases hLater :
              Step.inOrder (rest.map Persisting.step)
                result.1 <;>
            simp only [hRest, hLater]

/- A step after which a run goes on. -/
def Step.GoesOn
    (step : Step) : Prop :=
  step.Obeys fun state _ next =>
    state.stopped = false → next.stopped = false

theorem Step.GoesOn.inOrder
    {steps : List Step}
    (hSteps : ∀ step ∈ steps, step.GoesOn) :
    (Step.inOrder steps).GoesOn := by
  induction steps with
  | nil =>
      intro state next changed hStep hState
      cases hStep
      exact hState
  | cons step rest ih =>
      rcases List.forall_mem_cons.mp hSteps with ⟨hHere, hRest⟩
      intro state last changed hStep hState
      unfold Step.inOrder at hStep
      split at hStep
      · cases hStep
      rename_i hNext
      split at hStep
      · cases hStep
      rename_i hLast
      cases hStep
      exact ih hRest hLast (hHere hNext hState)

------------------------------------------------------------
-- What persists
------------------------------------------------------------

/-
  The flags of an item that is run in its turn whatever was
  before it, and with which the run goes on.
-/
structure Flags.TakeTurn
    (choice : OptionalChoice)
    (flags : Flags) : Prop where
  admitted : choice.admits flags = true
  ditto : flags.ditto = 0
  stop : flags.stop = 0

instance
    (flags : Flags) :
    Decidable (flags.TakeTurn choice) :=
  decidable_of_iff
    (choice.admits flags = true ∧ flags.ditto = 0 ∧
      flags.stop = 0)
    ⟨fun h => ⟨h.1, h.2.1, h.2.2⟩,
      fun h => ⟨h.admitted, h.ditto, h.stop⟩⟩

namespace Flags.TakeTurn

variable {item : FlaggedStep}
variable (hFlags : item.flags.TakeTurn choice)

include hFlags

theorem isSkipped_eq
    (previous : Bool) :
    item.isSkipped choice previous = false := by
  simp [FlaggedStep.isSkipped, Flags.dittoForbids,
    hFlags.admitted, hFlags.ditto]

theorem stopIf_eq
    (state : RunState)
    (changed : Bool) :
    state.stopIf (item.flags.stopsAfter changed) = state := by
  simp [Flags.stopsAfter, hFlags.stop, RunState.stopIf]

end Flags.TakeTurn

section Sequences

variable {n : Nat}
variable {item : Fin n → FlaggedStep}

/-
  What persists of the items that have been run, when the
  item at a position is next. The number that is left tells
  how many more items it is run again after.
-/
def persistingAt
    (item : Fin n → FlaggedStep)
    (front : List (Fin n))
    (next : Nat) : List Persisting :=
  (front.filter fun i =>
      (next : Int) - i < (item i).flags.persist).map fun i =>
    { step := (item i).step
      left := (item i).flags.persist - ((next : Int) - i) }

/- After its turn an item persists as its flags demand. -/
theorem persistingAt_next
    (item : Fin n → FlaggedStep)
    (front : List (Fin n))
    (j : Fin n) :
    Persisting.add
        (Persisting.remaining (persistingAt item front j))
        (item j) =
      persistingAt item (front ++ [j]) (j + 1) := by
  have hRemaining :
      Persisting.remaining (persistingAt item front j) =
        persistingAt item front (j + 1) := by
    rw [Persisting.remaining, persistingAt, persistingAt,
      List.map_map, List.filter_map, List.filter_filter]
    have hLasts : ∀ i ∈ front,
        ((decide (0 < (item i).flags.persist - (j - i) - 1) &&
            decide ((j : Int) - i < (item i).flags.persist)) =
          decide (((j + 1 : Nat) : Int) - i <
            (item i).flags.persist)) := by
      intro i _
      rw [← Bool.decide_and]
      exact decide_eq_decide.mpr (by omega)
    refine
      (congrArg (List.map _) (List.filter_congr hLasts)).trans ?_
    refine List.map_congr_left fun i _ => ?_
    simp only [Function.comp_apply, Persisting.mk.injEq, true_and]
    omega
  have hPassed : ((j + 1 : Nat) : Int) - j = 1 := by omega
  rw [hRemaining, Persisting.add]
  simp only [persistingAt, List.filter_append, List.map_append,
    List.filter_singleton, hPassed]
  split_ifs with hLasts
  · rw [decide_eq_true hLasts]
    simp
  · rw [decide_eq_false hLasts]
    simp

theorem sequence_eq_inOrder
    (hFlags : ∀ i, (item i).flags.TakeTurn choice)
    (hSteps : ∀ i, (item i).step.GoesOn)
    {front back : List (Fin n)}
    (hAll : front ++ back = List.finRange n)
    (previous changed : Bool)
    {state : RunState}
    (hState : state.stopped = false) :
    sequence choice (back.map item) previous
        (persistingAt item front front.length) changed state =
      (Step.inOrder
          ((back.flatMap fun j =>
            j :: rerunAfter
              (fun i => (item i).flags.persist) j).map
            fun i => (item i).step)
          state).map fun result =>
        (result.1, changed || result.2) := by
  induction back generalizing front previous changed state with
  | nil => simp [sequence, Step.inOrder, Except.map]
  | cons j rest ih =>
    have hPosition := length_front hAll
    have hRerun :
        (persistingAt item front j).map Persisting.step =
          (rerunAfter (fun i => (item i).flags.persist) j).map
            fun i => (item i).step := by
      rw [rerunAfter_eq hAll, persistingAt, List.map_map]
      rfl
    rw [hPosition, List.map_cons, List.flatMap_cons,
      List.map_append, List.map_cons, List.cons_append,
      Step.inOrder]
    cases hNext : (item j).step state with
    | error fault =>
        rw [sequence, ← FlaggedStep.isSkipped,
          (hFlags j).isSkipped_eq, hNext]
        rfl
    | ok result =>
    rcases result with ⟨next, itemChanged⟩
    dsimp only
    rw [Step.inOrder_append, ← hRerun,
      ← Persisting.runAll_eq_inOrder]
    cases hAfter :
        Persisting.runAll (persistingAt item front j) next with
    | error fault =>
        rw [sequence, ← FlaggedStep.isSkipped,
          (hFlags j).isSkipped_eq, hNext]
        simp [hAfter, Except.map]
    | ok result =>
    rcases result with ⟨after, laterChanged⟩
    have hEntries : ∀ step ∈
        (persistingAt item front j).map Persisting.step,
        step.GoesOn := by
      rw [hRerun]
      exact List.forall_mem_map.mpr fun i _ => hSteps i
    have hAfterState : after.stopped = false := by
      rw [Persisting.runAll_eq_inOrder] at hAfter
      exact
        Step.GoesOn.inOrder hEntries hAfter
          (hSteps j hNext hState)
    rw [sequence_of_run ((hFlags j).isSkipped_eq _) hNext hAfter,
      (hFlags j).stopIf_eq, hAfterState, persistingAt_next]
    have hSplit : (front ++ [j]) ++ rest = List.finRange n := by
      rw [List.append_assoc, List.singleton_append, hAll]
    have hRest :=
      ih hSplit itemChanged
        (changed || itemChanged || laterChanged) hAfterState
    rw [List.length_append, hPosition, List.length_singleton]
      at hRest
    simp only [Bool.false_eq_true, if_false]
    rw [hRest]
    cases Step.inOrder _ after with
    | error fault => rfl
    | ok result => simp [Except.map, Bool.or_assoc]

end Sequences

------------------------------------------------------------
-- Rules
------------------------------------------------------------

theorem Rule.step_goesOn
    (rule : Rule) :
    (rule.step options).GoesOn := by
  intro state next changed hStep hState
  rcases Rule.step_cases hStep with ⟨_, _, rfl, _⟩
  exact hState

/- Each rule that is run is counted. -/
theorem Step.rulesRun_inOrder
    {rules : List Rule}
    {state last : RunState}
    {changed : Bool}
    (hRun :
      inOrder (rules.map fun rule => rule.step options) state =
        .ok (last, changed)) :
    last.stats.rulesRun = state.stats.rulesRun + rules.length := by
  induction rules generalizing state changed with
  | nil =>
      cases hRun
      rfl
  | cons rule rest ih =>
      rw [List.map_cons, inOrder] at hRun
      split at hRun
      · cases hRun
      rename_i hNext
      split at hRun
      · cases hRun
      rename_i hLast
      cases hRun
      rcases Rule.step_cases hNext with ⟨outcome, _, rfl, _⟩
      rw [ih hLast, List.length_cons]
      simp only [RunState.addOutcome, Stats.countRun]
      omega

theorem Items.steps_eq_map
    (items : List Item) :
    Items.steps options choice items =
      items.map (Item.flaggedStep options choice) := by
  induction items with
  | nil => rfl
  | cons item rest ih => rw [Items.steps_cons, ih, List.map_cons]

/- The numbers of rules after which the rules of a list persist. -/
def persistOf
    (rules : List Rule) : Fin rules.length → Int :=
  fun i => rules[i].flags.persist

/-
  Rules that are neither left out nor stop the run are run
  as the schedule of their numbers says, whatever comes of
  it. So each is run as often as it has a place there, which
  is once and then as long as it persists and rules follow.
  The runs are counted, and a change is reported if and only
  if there is a record.
-/
theorem Items.rules_scheduled
    {rules : List Rule}
    (hRules : ∀ rule ∈ rules, rule.flags.TakeTurn choice)
    (word : Word) :
    sequenceAll choice
          (Items.steps options choice (rules.map Item.rule))
          { word := word } =
        Step.inOrder
          ((schedule (persistOf rules)).map fun i =>
            rules[i].step options)
          { word := word } ∧
      (∀ i : Fin rules.length,
        (schedule (persistOf rules)).count i =
          1 +
            min (rules[i].flags.persist - 1).toNat
              (rules.length - 1 - i)) ∧
      ∀ last changed,
        sequenceAll choice
              (Items.steps options choice (rules.map Item.rule))
              { word := word } =
            .ok (last, changed) →
          last.stats.rulesRun =
              ∑ i : Fin rules.length,
                (1 +
                  min (rules[i].flags.persist - 1).toNat
                    (rules.length - 1 - i)) ∧
            (changed = true ↔ last.trace ≠ []) := by
  have hItems :
      Items.steps options choice (rules.map Item.rule) =
        (List.finRange rules.length).map fun i =>
          (Item.rule rules[i]).flaggedStep options choice := by
    conv_lhs => rw [← List.map_getElem_finRange rules]
    rw [Items.steps_eq_map, List.map_map, List.map_map]
    rfl
  have hFlags : ∀ i : Fin rules.length,
      ((Item.rule rules[i]).flaggedStep options
        choice).flags.TakeTurn choice :=
    fun i => hRules rules[i] (List.getElem_mem i.isLt)
  have hSequence :
      sequenceAll choice
          (Items.steps options choice (rules.map Item.rule))
          { word := word } =
        Step.inOrder
          ((schedule (persistOf rules)).map fun i =>
            rules[i].step options)
          { word := word } := by
    have hGoesOn : ∀ i : Fin rules.length,
        (rules[i].step options).GoesOn :=
      fun i => rules[i].step_goesOn
    have hStart : RunState.stopped { word := word } = false :=
      rfl
    have hAll :=
      sequence_eq_inOrder hFlags hGoesOn
        (List.nil_append (List.finRange rules.length)) false
        false hStart
    rw [hItems]
    refine hAll.trans ?_
    simp only [Bool.false_or]
    exact id_map (f := Except RunFault) _
  refine ⟨hSequence, fun i => count_schedule _ i, ?_⟩
  intro last changed hLast
  constructor
  · rw [hSequence] at hLast
    have hRuns :
        ((schedule (persistOf rules)).map fun i =>
            rules[i].step options) =
          ((schedule (persistOf rules)).map fun i =>
              rules[i]).map
            fun rule => rule.step options := by
      rw [List.map_map]
      rfl
    rw [hRuns] at hLast
    rw [Step.rulesRun_inOrder hLast, List.length_map,
      length_schedule]
    exact Nat.zero_add _
  · rw [(Items.sequenceAll_grows _ hLast).changed_eq,
      decide_eq_true_iff, ← List.length_pos_iff]
    rfl

/- Three rules that feed each other and persist. -/
def feedingRules : List Rule :=
  [ { branches := [{ target := [.literal "a"] }]
      predicates := [{ replacements := [[.literal "b"]] }]
      flags := { persist := 3 }
      source := "a > b persist:3" },
    { branches := [{ target := [.literal "c"] }]
      predicates := [{ replacements := [[.literal "a"]] }]
      flags := { persist := 2 }
      source := "c > a persist:2" },
    { branches := [{ target := [.literal "b"] }]
      predicates := [{ replacements := [[.literal "c"]] }]
      source := "b > c" } ]

/-
  The first rule is run again after the second one, and both
  are after the third one.
-/
theorem feedingRules_scheduled :
    (∀ rule ∈ feedingRules, rule.flags.TakeTurn {}) ∧
      (schedule (persistOf feedingRules)).map Fin.val =
        [0, 1, 0, 2, 0, 1] ∧
      ∃ last,
        sequenceAll {}
            (Items.steps {} {} (feedingRules.map Item.rule))
            { word := ["c"] } =
          .ok (last, true) ∧
        last.word = ["a"] ∧
        last.stats.rulesRun = 6 ∧
        last.trace ≠ [] := by
  have hRules :
      ∀ rule ∈ feedingRules, rule.flags.TakeTurn {} := by
    decide
  have hRun :
      ((sequenceAll {}
            (Items.steps {} {} (feedingRules.map Item.rule))
            { word := ["c"] }).toOption.map
          fun result => (result.1.word, result.2)) =
        some (["a"], true) := by
    decide +kernel
  cases hLast :
      sequenceAll {}
        (Items.steps {} {} (feedingRules.map Item.rule))
        { word := ["c"] } with
  | error fault =>
      rw [hLast] at hRun
      cases hRun
  | ok result =>
      rcases result with ⟨last, changed⟩
      rw [hLast] at hRun
      rcases Prod.mk.inj (Option.some.inj hRun) with
        ⟨hWord, rfl⟩
      rcases (Items.rules_scheduled hRules ["c"]).2.2 last true
          hLast with
        ⟨hCount, hChanged⟩
      exact
        ⟨hRules, by decide, last, rfl, hWord,
          hCount.trans (by decide), hChanged.mp rfl⟩

end Diachrony
