import Diachrony.Proofs.Derivation.Replay

/-
  How a persistent block ends.

  A block that ends by itself has settled: to carry out its
  items once more would change nothing. A block that does
  not settle says so, and says whether its bound was reached
  or an earlier form of the word came back.

  Key definitions include:
    * `Step.rounds`
    * `Step.Changes`
    * `Step.Settles`
    * `Step.Alters`
    * `BlockHead.Ended`

  Key theorems include:
    * `Step.settles_of_step`
    * `Step.Underway.next`
    * `repeatRounds_ended`
    * `Item.persistent_block_ended`
-/

namespace Diachrony

------------------------------------------------------------
-- Rounds
------------------------------------------------------------

namespace Step

/- The state after a number of rounds. -/
def rounds
    (body : Step) :
    Nat →
    RunState →
    Except RunFault RunState
  | 0, state => .ok state
  | n + 1, state =>
      match body.rounds n state with
      | .error fault => .error fault
      | .ok last =>
          match body last with
          | .error fault => .error fault
          | .ok (next, _) => .ok next

/- Each of the first rounds makes a change. -/
def Changes
    (body : Step)
    (start : RunState)
    (n : Nat) : Prop :=
  ∀ i < n, ∃ state next,
    body.rounds i start = .ok state ∧
      body state = .ok (next, true) ∧
      state.trace.length < next.trace.length

/-
  A step has nothing to change in a word, whatever has
  happened to it before.
-/
def Settles
    (body : Step)
    (word : Word) : Prop :=
  ∀ state : RunState,
    state.word = word →
    state.stopped = false →
      ∃ next,
        body state = .ok (next, false) ∧
          next.word = word ∧
          next.trace = state.trace

/- A step changes a word, whatever has happened to it before. -/
def Alters
    (body : Step)
    (word : Word) : Prop :=
  ∀ state : RunState,
    state.word = word →
    state.stopped = false →
      ∃ next,
        body state = .ok (next, true) ∧
          state.trace.length < next.trace.length

variable {body : Step}
variable {start state last : RunState}
variable {n : Nat}

theorem rounds_succ
    {changed : Bool}
    (hState : body.rounds n start = .ok state)
    (hLast : body state = .ok (last, changed)) :
    body.rounds (n + 1) start = .ok last := by
  rw [rounds, hState]
  dsimp only
  rw [hLast]

section Laws

variable (hGrows : body.Obeys RunState.Grows)
variable (hReplays : body.Replays)

include hGrows hReplays

/- What a step has not changed once it does not change again. -/
theorem settles_of_step
    (hGoing : state.stopped = false)
    (hLast : body state = .ok (last, false)) :
    body.Settles state.word := by
  intro other hWord hOther
  have hAlike : state.Alike other :=
    { word_eq := hWord
      stopped_eq := hOther.trans hGoing.symm }
  rcases hReplays hAlike hLast with ⟨next, hNext, _⟩
  rcases (hGrows hNext).unchanged with ⟨hSame, hTrace⟩
  exact ⟨next, hNext, hSame.trans hWord, hTrace⟩

/- What a step has changed once it changes again. -/
theorem alters_of_step
    (hGoing : state.stopped = false)
    (hLast : body state = .ok (last, true)) :
    body.Alters state.word := by
  intro other hWord hOther
  have hAlike : state.Alike other :=
    { word_eq := hWord
      stopped_eq := hOther.trans hGoing.symm }
  rcases hReplays hAlike hLast with ⟨next, hNext, _⟩
  have hLonger := (hGrows hNext).changed_eq
  exact ⟨next, hNext, of_decide_eq_true hLonger.symm⟩

end Laws

------------------------------------------------------------
-- Rounds under way
------------------------------------------------------------

/-
  Some rounds have been made, each with a change, and the
  forms that have been seen are those of the word before
  and after them.
-/
structure Underway
    (body : Step)
    (start : RunState)
    (seen : List Form)
    (n : Nat)
    (state : RunState) : Prop where
  made : body.rounds n start = .ok state
  changes : body.Changes start n
  seen_only :
    ∀ form ∈ seen, ∃ j ≤ n, ∃ earlier,
      body.rounds j start = .ok earlier ∧
        form = Form.ofWord earlier.word

theorem Underway.initial
    (body : Step)
    (start : RunState) :
    body.Underway start [Form.ofWord start.word] 0 start where
  made := rfl
  changes := by
    intro i hi
    cases hi
  seen_only := by
    intro form hForm
    exact
      ⟨0, Nat.le_refl 0, start, rfl,
        List.mem_singleton.mp hForm⟩

section Next

variable {seen : List Form}
variable (hGrows : body.Obeys RunState.Grows)
variable (hUnderway : body.Underway start seen n state)
variable (hLast : body state = .ok (last, true))

include hGrows hUnderway hLast

theorem Underway.changes_next :
    body.Changes start (n + 1) := by
  intro i hi
  rcases Nat.lt_succ_iff_lt_or_eq.mp hi with hEarlier | rfl
  · exact hUnderway.changes i hEarlier
  · have hLonger := (hGrows hLast).changed_eq
    exact
      ⟨state, last, hUnderway.made, hLast,
        of_decide_eq_true hLonger.symm⟩

/- One more round is made. -/
theorem Underway.next :
    body.Underway start (Form.ofWord last.word :: seen)
      (n + 1) last where
  made := rounds_succ hUnderway.made hLast
  changes := hUnderway.changes_next hGrows hLast
  seen_only := by
    intro form hForm
    rcases List.mem_cons.mp hForm with rfl | hOld
    · exact
        ⟨n + 1, Nat.le_refl _, last,
          rounds_succ hUnderway.made hLast, rfl⟩
    · rcases hUnderway.seen_only form hOld with
        ⟨j, hj, earlier, hEarlier, hForm⟩
      exact
        ⟨j, Nat.le_succ_of_le hj, earlier, hEarlier, hForm⟩

end Next

end Step

------------------------------------------------------------
-- Ends
------------------------------------------------------------

/- Mark the records from a position on, if there is a mark. -/
def RunState.markWith
    (state : RunState)
    (first : Nat) :
    Option Diagnostic → RunState
  | none => state
  | some diagnostic => state.mark first diagnostic

/-
  A persistent block that has ended: it has made some rounds
  and has perhaps put a mark of its own on the records of
  all of them.
    * Without a mark, the word has settled, unless the run
      was stopped.
    * With the mark that the bound was reached, each of so
      many rounds made a change, and so would one more.
    * With the mark of a cycle, the word is as it was before
      the block or after an earlier round.
-/
structure BlockHead.Ended
    (head : BlockHead)
    (bound : Int)
    (body : Step)
    (start : RunState)
    (n : Nat)
    (last : RunState)
    (mark : Option Diagnostic)
    (final : RunState) : Prop where
  rounds : body.rounds n start = .ok last
  within : n ≤ bound
  final_eq : final = last.markWith start.trace.length mark
  unsettled : ∀ d ∈ mark, d.kind.isUnsettled = true
  settled :
    mark = none →
    final.stopped = false →
      body.Settles final.word
  truncated :
    ∀ d ∈ mark,
      d.kind = .truncated →
        d = head.diagnostic (.blockPassBound bound) ∧
          n = bound ∧
          body.Changes start n ∧
          body.Alters final.word
  cycle :
    ∀ d ∈ mark,
      d.kind = .cycle →
        d = head.diagnostic (.blockCycle final.word.text) ∧
          body.Changes start n ∧
          ∃ j < n, ∃ earlier,
            body.rounds j start = .ok earlier ∧
              earlier.word = final.word

section Ends

variable {options : EngineOptions}
variable {choice : OptionalChoice}
variable {head : BlockHead}
variable {bound : Int}
variable {body : Step}
variable {start state last : RunState}
variable {n : Nat}
variable {seen : List Form}
variable {changed anyChanged : Bool}

/- A block without a mark has settled or was stopped. -/
theorem BlockHead.Ended.unmarked
    (hRounds : body.rounds n start = .ok last)
    (hWithin : n ≤ bound)
    (hSettled :
      last.stopped = false → body.Settles last.word) :
    head.Ended bound body start n last none last where
  rounds := hRounds
  within := hWithin
  final_eq := rfl
  unsettled := by simp
  settled := fun _ => hSettled
  truncated := by simp
  cycle := by simp

theorem BlockHead.Ended.atBound
    (hRounds : body.rounds n start = .ok last)
    (hBound : n = bound)
    (hChanges : body.Changes start n)
    (hAlters : body.Alters last.word) :
    head.Ended bound body start n last
      (some (head.diagnostic (.blockPassBound bound)))
      (last.mark start.trace.length
        (head.diagnostic (.blockPassBound bound))) where
  rounds := hRounds
  within := Int.le_of_eq hBound
  final_eq := rfl
  unsettled := by
    rintro _ ⟨⟩
    rfl
  settled := by
    rintro ⟨⟩
  truncated := by
    rintro _ ⟨⟩ _
    exact ⟨rfl, hBound, hChanges, hAlters⟩
  cycle := by
    rintro _ ⟨⟩ ⟨⟩

theorem BlockHead.Ended.inCycle
    (hRounds : body.rounds n start = .ok last)
    (hWithin : n ≤ bound)
    (hChanges : body.Changes start n)
    (hReturns : ∃ j < n, ∃ earlier,
      body.rounds j start = .ok earlier ∧
        earlier.word = last.word) :
    head.Ended bound body start n last
      (some (head.diagnostic (.blockCycle last.word.text)))
      (last.mark start.trace.length
        (head.diagnostic
          (.blockCycle last.word.text))) where
  rounds := hRounds
  within := hWithin
  final_eq := rfl
  unsettled := by
    rintro _ ⟨⟩
    rfl
  settled := by
    rintro ⟨⟩
  truncated := by
    rintro _ ⟨⟩ ⟨⟩
  cycle := by
    rintro _ ⟨⟩ _
    exact ⟨rfl, hChanges, hReturns⟩

variable (hGrows : body.Obeys RunState.Grows)
variable (hReplays : body.Replays)

include hGrows hReplays

/- When all rounds are used up, the probe decides. -/
theorem endRounds_ended
    (hUnderway : body.Underway start seen n state)
    (hBound : n = bound)
    (hEnd :
      endRounds head bound body start.trace.length changed
          state =
        .ok (last, anyChanged)) :
    ∃ mark, head.Ended bound body start n state mark last := by
  rcases endRounds_cases hEnd with
    ⟨rfl, probe, moved, hProbe, ⟨rfl, rfl⟩ | ⟨rfl, rfl⟩⟩
  · have hAlters : body.Alters state.fresh.word :=
      Step.alters_of_step hGrows hReplays rfl hProbe
    exact
      ⟨_, BlockHead.Ended.atBound hUnderway.made hBound
        hUnderway.changes hAlters⟩
  · have hSettles : body.Settles last.fresh.word :=
      Step.settles_of_step hGrows hReplays rfl hProbe
    exact
      ⟨none, BlockHead.Ended.unmarked hUnderway.made
        (Int.le_of_eq hBound) fun _ => hSettles⟩

/-
  A round that changed nothing has found the word settled,
  unless it was cut short.
-/
theorem Step.settles_of_last
    {next : RunState}
    {roundChanged : Bool}
    (hNext : body state = .ok (next, roundChanged))
    (hLast : roundChanged = false ∨ next.stopped = true)
    (hGoing : next.stopped = false) :
    body.Settles next.word := by
  rcases hLast with rfl | hStopped
  · rcases (hGrows hNext).unchanged with ⟨hSame, _⟩
    rw [hSame]
    apply Step.settles_of_step hGrows hReplays ?_ hNext
    apply Bool.eq_false_iff.mpr
    intro hEarlier
    rw [(hGrows hNext).stopped hEarlier] at hGoing
    cases hGoing
  · rw [hStopped] at hGoing
    cases hGoing

theorem repeatRounds_ended
    {left : Nat}
    (hUnderway : body.Underway start seen n state)
    (hLeft : (n + left : Nat) = bound)
    (hStep :
      repeatRounds options head bound body start.trace.length
          left seen changed state =
        .ok (last, anyChanged)) :
    ∃ m before mark,
      head.Ended bound body start m before mark last := by
  induction left generalizing n seen changed state with
  | zero =>
      exact
        ⟨n, state,
          endRounds_ended hGrows hReplays hUnderway hLeft
            hStep⟩
  | succ left ih =>
      rcases repeatRounds_cases hStep with
        ⟨next, roundChanged, hNext, hEnd⟩
      have hRounds :=
        Step.rounds_succ hUnderway.made hNext
      have hWithin : (n + 1 : Nat) ≤ bound := by
        omega
      rcases hEnd with ⟨hLast, rfl, rfl⟩ |
        ⟨rfl, _, _, hSeen, rfl, rfl⟩ | ⟨rfl, _, _, hMore⟩
      · have hSettled :=
          Step.settles_of_last hGrows hReplays hNext hLast
        exact
          ⟨n + 1, last, none,
            BlockHead.Ended.unmarked hRounds hWithin hSettled⟩
      · rcases hUnderway.seen_only _ hSeen with
          ⟨j, hj, earlier, hEarlier, hForm⟩
        have hSame : earlier.word = next.word :=
          (Form.ofWord_inj.mp hForm).symm
        have hChanges :=
          hUnderway.changes_next hGrows hNext
        exact
          ⟨n + 1, next, _,
            BlockHead.Ended.inCycle hRounds hWithin hChanges
              ⟨j, Nat.lt_succ_of_le hj, earlier, hEarlier,
                hSame⟩⟩
      · apply ih (hUnderway.next hGrows hNext) ?_ hMore
        omega

/- A persistent block that comes to a result has ended. -/
theorem BlockHead.step_ended
    (hPersistent : head.flags.persistent = true)
    (hBound : 1 ≤ head.flags.passBound options.maxPasses)
    (hStep :
      head.step options body start = .ok (last, changed)) :
    ∃ n before mark,
      head.Ended (head.flags.passBound options.maxPasses)
        body start n before mark last := by
  rw [BlockHead.step_of_persistent hPersistent] at hStep
  apply repeatRounds_ended hGrows hReplays
    (Step.Underway.initial body start) ?_ hStep
  rw [Nat.zero_add, Int.toNat_of_nonneg (by omega)]

end Ends

/-
  A persistent block ends settled or says why not, whatever
  items it holds, from whatever state it starts.
-/
theorem Item.persistent_block_ended
    {options : EngineOptions}
    {choice : OptionalChoice}
    {head : BlockHead}
    {items : List Item}
    {start final : RunState}
    {changed : Bool}
    (hPersistent : head.flags.persistent = true)
    (hBound : 1 ≤ head.flags.passBound options.maxPasses)
    (hStep :
      Item.step options choice (.block head items) start =
        .ok (final, changed)) :
    ∃ n last mark,
      head.Ended (head.flags.passBound options.maxPasses)
        (sequenceAll choice
          (Items.steps options choice items))
        start n last mark final := by
  rw [Item.step] at hStep
  exact
    BlockHead.step_ended (Items.sequenceAll_grows items)
      (Items.sequenceAll_replays items) hPersistent hBound
      hStep

/- The head of a block that is to settle within three rounds. -/
def undoingHead : BlockHead where
  flags := { persistent := true, maxPasses := some 3 }
  source := "!undo"

/- A rule, and another one that undoes what it has changed. -/
def undoingItems : List Item :=
  [ .rule
      { branches := [{ target := [.literal "a"] }]
        predicates := [{ replacements := [[.literal "b"]] }]
        source := "a > b" },
    .rule
      { branches := [{ target := [.literal "b"] }]
        predicates := [{ replacements := [[.literal "a"]] }]
        flags := { ditto := 1 }
        source := "b > a" } ]

/- The state in which the block leaves a word. -/
def undoneState : RunState :=
  let mark : Diagnostic :=
    { problem := .blockCycle "a"
      line := some 0
      rule := some "!undo" }
  { word := ["a"]
    trace :=
      [ { rule := "a > b"
          start := 0
          stop := 1
          before := ["a"]
          after := ["b"]
          pass := 1
          diagnostics := [mark] },
        { rule := "b > a"
          start := 0
          stop := 1
          before := ["b"]
          after := ["a"]
          pass := 1
          diagnostics := [mark] } ]
    diagnostics := [mark]
    stats :=
      { rulesRun := 2
        changes := 2
        changesByRule := [("a > b", 1), ("b > a", 1)] } }

/- The block comes back to where it was in its first round. -/
theorem undoingBlock_ended :
    undoingHead.flags.persistent = true ∧
      1 ≤ undoingHead.flags.passBound 1000 ∧
      Item.step {} {} (.block undoingHead undoingItems)
          { word := ["a"] } =
        .ok (undoneState, true) ∧
      ∃ n last mark,
        undoingHead.Ended (undoingHead.flags.passBound 1000)
          (sequenceAll {} (Items.steps {} {} undoingItems))
          { word := ["a"] } n last mark undoneState := by
  have hPersistent : undoingHead.flags.persistent = true := rfl
  have hBound :
      1 ≤ undoingHead.flags.passBound
        ({} : EngineOptions).maxPasses := by
    decide
  have hStep :
      Item.step {} {} (.block undoingHead undoingItems)
          { word := ["a"] } =
        .ok (undoneState, true) := by
    decide +kernel
  have hEnded :=
    Item.persistent_block_ended hPersistent hBound hStep
  exact ⟨hPersistent, hBound, hStep, hEnded⟩

end Diachrony
