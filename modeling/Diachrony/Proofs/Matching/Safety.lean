import Diachrony.Proofs.Matching.Candidates
import Diachrony.Proofs.Matching.Extent
import Diachrony.Proofs.Matching.Instructions
import Diachrony.Proofs.Pattern.Addresses
import Diachrony.Proofs.Pattern.Assembly

/-
  Look-ups of the matching machine.

  A machine can check each of its look-ups: it fails if
  there is no instruction at the address of a thread, or no
  symbol at a position of the word that it looks at. No such
  check ever fails. All threads stay inside the program,
  because it is well formed, and symbols are only looked at
  below the limit.

  Key definitions include:
    * `LookupFault`
    * `Window.symbolAt`
    * `Window.stepChecked`
    * `Machine.runChecked`
    * `Pattern.matchChecked`

  Key theorems include:
    * `Window.stepChecked_eq`
    * `Machine.Safe.step`
    * `Machine.runChecked_eq`
    * `Pattern.program_safe`
-/

namespace Diachrony

------------------------------------------------------------
-- Checked look-ups
------------------------------------------------------------

/-
  A look-up that fails: there is no instruction at an
  address, or no symbol at a position.
-/
inductive LookupFault where
  | noInstruction (address : Nat)
  | noSymbol (pos : Int)
  deriving Repr, DecidableEq

namespace Window

/- The symbol at a position, which has to be in the word. -/
def symbolAt
    (window : Window)
    (pos : Int) : Except LookupFault Symbol :=
  if 0 ≤ pos then
    match window.symbols[pos.toNat]? with
    | some symbol => .ok symbol
    | none => .error (.noSymbol pos)
  else
    .error (.noSymbol pos)

/- The symbols at a number of positions, one after another. -/
def symbolsAt
    (window : Window)
    (pos : Nat) : Nat → Except LookupFault (List Symbol)
  | 0 => .ok []
  | n + 1 =>
      match window.symbolAt pos with
      | .error fault => .error fault
      | .ok symbol =>
          (window.symbolsAt (pos + 1) n).map (symbol :: ·)

/-
  Whether a symbol can be consumed at a position. At and
  beyond the limit no symbol is looked at.
-/
def readsChecked
    (window : Window)
    (pos : Nat)
    (symbol : Symbol) : Except LookupFault Bool :=
  if pos < window.limit then
    (window.symbolAt pos).map fun found => found = symbol
  else
    .ok false

/- The position after a member is matched. -/
def memberEndChecked
    (window : Window)
    (pos : Nat) :
    Member → Except LookupFault (Option Nat)
  | [] => .ok (some pos)
  | .edge :: rest =>
      if window.atEdge pos then
        window.memberEndChecked pos rest
      else
        .ok none
  | .symbol s :: rest =>
      match window.readsChecked pos s with
      | .error fault => .error fault
      | .ok false => .ok none
      | .ok true => window.memberEndChecked (pos + 1) rest

/-
  The ways in which a category reference matches. All its
  members are looked at, except for those that an earlier
  binding excludes.
-/
def optionsChecked
    (window : Window)
    (thread : Thread)
    (ref : CategoryRef)
    (trials : List (Nat × Member)) :
    Except LookupFault (List Thread) :=
  let required := thread.bindings.required ref
  collect
    (fun trial : Nat × Member =>
      if required.all fun position =>
        (trial.1 : Int) = position
      then
        (window.memberEndChecked thread.pos trial.2).map
          fun stop? => stop?.map fun stop =>
            { address := thread.address + 1
              pos := stop
              bindings :=
                thread.bindings.bind ref.slot trial.1 :
                Thread }
      else
        .ok none)
    trials

/-
  The position after a sequence of symbols is consumed. The
  symbols are only looked at if there is room for them.
-/
def readAllChecked
    (window : Window)
    (pos : Nat)
    (sought : List Symbol) :
    Except LookupFault (Option Nat) :=
  if pos + sought.length ≤ window.limit then
    (window.symbolsAt pos sought.length).map fun found =>
      if found = sought then
        some (pos + sought.length)
      else
        none
  else
    .ok none

/-
  Whether a symbol repeats the one before it. Neither of
  them is looked at if there is no symbol before it, or if
  it may not be consumed.
-/
def repeatsChecked
    (window : Window)
    (pos : Nat) : Except LookupFault Bool :=
  if 0 < pos ∧ pos < window.limit then
    match window.symbolAt pos with
    | .error fault => .error fault
    | .ok symbol =>
        (window.symbolAt ((pos : Int) - 1)).map
          fun before => symbol = before
  else
    .ok false

/-
  Run one instruction and check its look-ups. Instructions
  that are not listed do not look at any symbol.
-/
def stepChecked
    (window : Window)
    (thread : Thread) :
    Instruction → Except LookupFault Move
  | .literal symbol =>
      (window.readsChecked thread.pos symbol).map
        fun reads =>
          .goIf reads (thread.advance (thread.pos + 1))
  | .category ref trials =>
      (window.optionsChecked thread ref trials).map .split
  | .target reversed =>
      let sought :=
        if reversed then window.target.reverse
        else window.target
      (window.readAllChecked thread.pos sought).map
        fun stop? => .split (stop?.map thread.advance).toList
  | .ditto =>
      (window.repeatsChecked thread.pos).map fun repeats =>
        .goIf repeats (thread.advance (thread.pos + 1))
  | instruction => .ok (window.step thread instruction)

end Window

/-
  Run the threads of a stack as `Machine.run` does, and check
  that there is an instruction at the address of each thread
  and a symbol at each position that is looked at.
-/
def Machine.runChecked
    (machine : Machine)
    (budget : Nat) :
    Nat →
    List Thread →
    Option Match →
    Except LookupFault (Except OutOfSteps (Option Match))
  | _, [], best => .ok (.ok best)
  | 0, _ :: _, _ => .ok (.error ⟨budget + 1⟩)
  | fuel + 1, thread :: stack, best =>
      match machine.code[thread.address]? with
      | none => .error (.noInstruction thread.address)
      | some instruction =>
          match
            machine.window.stepChecked thread instruction
          with
          | .error fault => .error fault
          | .ok (.split threads) =>
              machine.runChecked budget fuel
                (threads ++ stack) best
          | .ok .accept =>
              if !machine.accepts thread then
                machine.runChecked budget fuel stack best
              else if !machine.longest then
                .ok (.ok (some (machine.found thread)))
              else if !improves thread best then
                machine.runChecked budget fuel stack best
              else if thread.pos = machine.window.limit then
                .ok (.ok (some (machine.found thread)))
              else
                machine.runChecked budget fuel stack
                  (some (machine.found thread))

/-
  The match of a pattern that begins exactly at a position,
  with a check of each look-up.
-/
def Pattern.matchChecked
    (pattern : Pattern)
    (word : WordArray)
    (start : Int)
    (request : MatchRequest) :
    Except LookupFault
      (Except MatchFault (Option Match)) :=
  if !pattern.matchable then
    .ok (.error .foreignElement)
  else if start < 0 ∨ request.limitIn word < start then
    .ok (.ok none)
  else
    let machine := request.machine pattern word start.toNat
    (machine.runChecked
      request.budget.toNat
      request.budget.toNat
      [request.thread start.toNat]
      none).map fun outcome =>
        match outcome with
        | .error exceeded => .error (.outOfSteps exceeded.steps)
        | .ok found => .ok found

------------------------------------------------------------
-- Look-ups in the word
------------------------------------------------------------

namespace Window

variable {window : Window}
variable {pos : Nat}

theorem symbolAt_of_lt
    (hInside : pos < window.symbols.size) :
    window.symbolAt pos = .ok window.symbols[pos] := by
  simp [symbolAt, hInside]

theorem symbolsAt_eq
    (n : Nat)
    (hInside : pos + n ≤ window.symbols.size) :
    window.symbolsAt pos n =
      .ok ((window.symbols.toList.drop pos).take n) := by
  induction n generalizing pos with
  | zero => rfl
  | succ n ih =>
      have hHere : pos < window.symbols.size := by omega
      have hSplit :
          window.symbols.toList.drop pos =
            window.symbols[pos] ::
              window.symbols.toList.drop (pos + 1) :=
        List.drop_eq_getElem_cons hHere
      rw [symbolsAt, symbolAt_of_lt hHere, ih (by omega),
        hSplit, List.take_succ_cons]
      rfl

section Fits

variable (hFits : window.limit ≤ window.symbols.size)

include hFits

theorem readsChecked_eq
    (symbol : Symbol) :
    window.readsChecked pos symbol =
      .ok (window.reads pos symbol) := by
  unfold readsChecked reads
  by_cases hLimit : pos < window.limit
  · have hInside : pos < window.symbols.size := by omega
    simp [hLimit, hInside, symbolAt_of_lt, Except.map]
  · simp [hLimit]

theorem memberEndChecked_eq
    (member : Member) :
    window.memberEndChecked pos member =
      .ok (window.memberEnd? pos member) := by
  induction member generalizing pos with
  | nil => rfl
  | cons part rest ih =>
      cases part with
      | edge =>
          rw [memberEndChecked, memberEnd?]
          split
          · exact ih
          · rfl
      | symbol s =>
          rw [memberEndChecked, memberEnd?,
            readsChecked_eq hFits]
          cases window.reads pos s with
          | false => rfl
          | true => exact ih

theorem optionsChecked_eq
    (thread : Thread)
    (ref : CategoryRef)
    (trials : List (Nat × Member)) :
    window.optionsChecked thread ref trials =
      .ok (window.options thread ref trials) := by
  unfold optionsChecked options
  apply collect_eq_filterMap
  intro trial _
  split
  · rw [memberEndChecked_eq hFits]
    rfl
  · rfl

/- A span is found ahead if it is what is looked up. -/
theorem readAllChecked_eq
    (hPos : pos ≤ window.limit)
    (sought : List Symbol) :
    window.readAllChecked pos sought =
      .ok (window.readAll? pos sought) := by
  rw [readAll?_eq]
  unfold readAllChecked
  split
  · rename_i hRoom
    have hAhead :
        sought <+: window.ahead pos ↔
          (window.symbols.toList.drop pos).take
              sought.length =
            sought := by
      rw [List.prefix_iff_eq_take, ahead, List.drop_take,
        List.take_take, Nat.min_eq_left (by omega), eq_comm]
    rw [symbolsAt_eq _ (by omega)]
    simp only [Except.map, hAhead]
  · rename_i hRoom
    have hLong : ¬sought <+: window.ahead pos := by
      intro hPrefix
      have hLength := hPrefix.length_le
      simp only [ahead, List.length_drop, List.length_take,
        Array.length_toList] at hLength
      omega
    rw [if_neg hLong]

theorem repeatsChecked_eq :
    window.repeatsChecked pos =
      .ok (window.repeatsPrevious pos) := by
  unfold repeatsChecked repeatsPrevious
  by_cases hAround : 0 < pos ∧ pos < window.limit
  · have hHere : pos < window.symbols.size := by omega
    have hBefore : pos - 1 < window.symbols.size := by omega
    have hCast : (pos : Int) - 1 = ((pos - 1 : Nat) : Int) := by
      omega
    rw [if_pos hAround, hCast, symbolAt_of_lt hHere]
    simp only [symbolAt_of_lt hBefore, Except.map, hAround,
      Array.getElem?_eq_getElem hHere,
      Array.getElem?_eq_getElem hBefore, Option.some.injEq,
      decide_true, Bool.true_and]
  · rw [if_neg hAround]
    simp only [not_and] at hAround
    by_cases hStart : 0 < pos
    · simp [hStart, hAround hStart]
    · simp [hStart]

/-
  No look-up of an instruction fails below the limit, and
  so it does what it does without checks.
-/
theorem stepChecked_eq
    {thread : Thread}
    (hPos : thread.pos ≤ window.limit)
    (instruction : Instruction) :
    window.stepChecked thread instruction =
      .ok (window.step thread instruction) := by
  cases instruction with
  | literal symbol =>
      rw [stepChecked, readsChecked_eq hFits]
      rfl
  | category ref trials =>
      rw [stepChecked, optionsChecked_eq hFits]
      rfl
  | target reversed =>
      simp only [stepChecked, readAllChecked_eq hFits hPos,
        step, Except.map]
      cases window.readAll? thread.pos
        (if reversed then window.target.reverse
          else window.target) <;> rfl
  | ditto =>
      rw [stepChecked, repeatsChecked_eq hFits]
      rfl
  | any => rfl
  | choice first second => rfl
  | jump address => rfl
  | edge => rfl
  | fail => rfl
  | accept => rfl

end Fits

end Window

------------------------------------------------------------
-- Look-ups in the program
------------------------------------------------------------

/- A thread goes on at a successor of its instruction. -/
theorem Window.step_successors
    {window : Window}
    {thread next : Thread}
    {threads : List Thread}
    {instruction : Instruction}
    (hStep :
      window.step thread instruction = .split threads)
    (hNext : next ∈ threads) :
    next.address ∈ instruction.successors thread.address := by
  -- Instructions that consume or test go on behind them.
  have hBehind : ∀ {condition : Bool} {pos : Nat},
      Move.goIf condition (thread.advance pos) =
          .split threads →
        next.address ∈ [thread.address + 1] := by
    intro condition pos hMove
    rcases mem_goIf hMove hNext with ⟨_, rfl⟩
    exact List.mem_singleton.mpr rfl
  cases instruction with
  | literal symbol => exact hBehind hStep
  | any => exact hBehind hStep
  | edge => exact hBehind hStep
  | ditto => exact hBehind hStep
  | category ref trials =>
      cases hStep
      rcases List.mem_filterMap.mp hNext with
        ⟨trial, _, hTrial⟩
      split at hTrial
      · rcases Option.map_eq_some_iff.mp hTrial with
          ⟨stop, _, rfl⟩
        exact List.mem_singleton.mpr rfl
      · cases hTrial
  | target reversed =>
      simp only [step] at hStep
      split at hStep
      · cases hStep
        obtain rfl := List.mem_singleton.mp hNext
        exact List.mem_singleton.mpr rfl
      · cases hStep
        cases hNext
  | choice first second =>
      cases hStep
      rcases List.mem_cons.mp hNext with rfl | hSecond
      · exact List.mem_cons_self
      · obtain rfl := List.mem_singleton.mp hSecond
        exact List.mem_cons_of_mem _ List.mem_cons_self
  | jump address =>
      cases hStep
      obtain rfl := List.mem_singleton.mp hNext
      exact List.mem_singleton.mpr rfl
  | fail =>
      cases hStep
      cases hNext
  | accept => cases hStep

namespace Machine

variable {machine : Machine}

/-
  A thread at an address of the program, at a position that
  is not beyond the limit.
-/
structure Safe
    (machine : Machine)
    (thread : Thread) : Prop where
  inside : thread.address < machine.code.size
  below : thread.pos ≤ machine.window.limit

/- A well-formed program keeps its threads safe. -/
theorem Safe.step
    {thread : Thread}
    {threads : List Thread}
    {instruction : Instruction}
    (hSafe : machine.Safe thread)
    (hProgram : Code.WellFormed machine.code.toList)
    (hInstruction :
      machine.code[thread.address]? = some instruction)
    (hStep :
      machine.window.step thread instruction =
        .split threads) :
    ∀ next ∈ threads, machine.Safe next := by
  intro next hNext
  have hForward :=
    Window.step_within hSafe.below hStep hNext
  refine ⟨?_, hForward.2⟩
  exact hProgram.inside thread.address instruction
    (by rw [Array.getElem?_toList, hInstruction])
    next.address (Window.step_successors hStep hNext)

/-
  A run of safe threads through a well-formed program does
  what it does without checks, since each instruction leaves
  nothing but safe threads on the stack.
-/
theorem runChecked_eq
    (hProgram : Code.WellFormed machine.code.toList)
    (hFits :
      machine.window.limit ≤ machine.window.symbols.size)
    (budget fuel : Nat)
    (stack : List Thread)
    (best : Option Match)
    (hStack : ∀ thread ∈ stack, machine.Safe thread) :
    machine.runChecked budget fuel stack best =
      .ok (machine.run budget fuel stack best) := by
  induction fuel generalizing stack best with
  | zero => cases stack <;> rfl
  | succ fuel ih =>
  cases stack with
  | nil => rfl
  | cons thread rest =>
      have hThread := hStack thread List.mem_cons_self
      have hRest : ∀ other ∈ rest, machine.Safe other :=
        fun other hOther =>
          hStack other (List.mem_cons_of_mem _ hOther)
      obtain ⟨instruction, hInstruction⟩ :
          ∃ instruction,
            machine.code[thread.address]? =
              some instruction :=
        ⟨_, Array.getElem?_eq_getElem hThread.inside⟩
      rw [runChecked, run]
      simp only [hInstruction,
        Window.stepChecked_eq hFits hThread.below]
      cases hStep :
          machine.window.step thread instruction with
      | split threads =>
          apply ih
          intro next hNext
          rcases List.mem_append.mp hNext with hNew | hOld
          · exact hThread.step hProgram hInstruction hStep next
              hNew
          · exact hRest next hOld
      | accept =>
          simp only [ih _ _ hRest]
          split_ifs <;> rfl

end Machine

------------------------------------------------------------
-- Matching at a position
------------------------------------------------------------

/- No look-up of a match fails. -/
theorem Pattern.matchChecked_eq
    (pattern : Pattern)
    (word : WordArray)
    (start : Int)
    (request : MatchRequest) :
    pattern.matchChecked word start request =
      .ok (pattern.matchAt word start request) := by
  unfold Pattern.matchChecked Pattern.matchAt
  split
  · rfl
  split
  · rfl
  · rename_i hInside
    have hProgram :
        Code.WellFormed
          (request.machine pattern word
            start.toNat).code.toList :=
      pattern.wellFormed_program
    have hFirst :
        (request.machine pattern word start.toNat).Safe
          (request.thread start.toNat) := by
      refine ⟨?_, ?_⟩
      · simp [MatchRequest.machine, MatchRequest.thread,
          Pattern.program]
      · simp only [MatchRequest.machine, MatchRequest.thread,
          MatchRequest.window]
        omega
    dsimp only
    rw [Machine.runChecked_eq hProgram
      (request.limit_window_le word)]
    · rfl
    · intro thread hThread
      obtain rfl := List.mem_singleton.mp hThread
      exact hFirst

/-
  A pattern is assembled with no place left open, unless it
  has an element of a foreign kind. Nothing leads out of its
  program, which ends with its only acceptance. So in a match
  of any word there is an instruction at the address of each
  thread, and a symbol at each position that is looked at.
-/
theorem Pattern.program_safe
    (pattern : Pattern) :
    (pattern.assembled =
      if pattern.matchable then
        some (CodeDraft.finished pattern.program)
      else
        none) ∧
      pattern.program.WellFormed ∧
      ∀ (word : WordArray) (start : Int)
        (request : MatchRequest),
        pattern.matchChecked word start request =
          .ok (pattern.matchAt word start request) :=
  ⟨pattern.assembled_eq, pattern.wellFormed_program,
    pattern.matchChecked_eq⟩

end Diachrony
