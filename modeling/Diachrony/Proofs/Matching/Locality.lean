import Diachrony.Proofs.Matching.Correctness

/-
  Patterns that look at nothing around them.

  A pattern without word edges and copies of the symbol
  before looks only at the target and at the symbols from
  its start up to the limit. What stands before and behind
  these has no influence on its matches, nor on the number
  of steps to find them: it only moves their positions. A
  pattern without target references either is called local.

  Key definitions include:
    * `Instruction.looksAhead`
    * `Pattern.looksAhead`
    * `Pattern.isLocal`
    * `Match.shift`
    * `Machine.Embeds`

  Key theorems include:
    * `Pattern.program_looksAhead`
    * `Window.Embeds.step_shift`
    * `Machine.Embeds.run_shift`
    * `Pattern.matchAt_between`
-/

namespace Diachrony

------------------------------------------------------------
-- Local patterns
------------------------------------------------------------

/- Whether a member contains a word edge. -/
def Member.touchesEdge
    (member : Member) : Bool :=
  member.contains .edge

/- Whether no member of a category contains a word edge. -/
def CategoryRef.isLocal
    (ref : CategoryRef) : Bool :=
  ref.category.all fun category =>
    category.members.all fun member =>
      !Member.touchesEdge member

mutual

/-
  Whether an element looks at nothing but the symbols from
  its start on: neither at the word edges, nor back, nor at
  the target.
-/
def Element.isLocal : Element → Bool
  | .category ref => ref.isLocal
  | .edge => false
  | .target _ => false
  | .ditto => false
  | .optional body _ => Pattern.isLocal body
  | .repeated body _ _ _ => Element.isLocal body
  | _ => true

/- Whether no element of a pattern looks around. -/
def Pattern.isLocal : Pattern → Bool
  | [] => true
  | element :: rest =>
      Element.isLocal element && Pattern.isLocal rest

end

mutual

/-
  Whether an element looks neither at the word edges nor
  back. It may look at the target.
-/
def Element.looksAhead : Element → Bool
  | .category ref => ref.isLocal
  | .edge => false
  | .ditto => false
  | .optional body _ => Pattern.looksAhead body
  | .repeated body _ _ _ => Element.looksAhead body
  | _ => true

/- Whether no element of a pattern looks at an edge or back. -/
def Pattern.looksAhead : Pattern → Bool
  | [] => true
  | element :: rest =>
      Element.looksAhead element && Pattern.looksAhead rest

end

mutual

theorem Element.looksAhead_of_isLocal :
    (element : Element) →
      element.isLocal = true →
      element.looksAhead = true
  | .literal _, _ => rfl
  | .category _, hLocal => hLocal
  | .wildcard, _ => rfl
  | .gap _, _ => rfl
  | .null, _ => rfl
  | .optional body _, hLocal =>
      Pattern.looksAhead_of_isLocal body hLocal
  | .repeated body _ _ _, hLocal =>
      Element.looksAhead_of_isLocal body hLocal
  | .foreign _, _ => rfl

/- A local pattern looks neither at an edge nor back. -/
theorem Pattern.looksAhead_of_isLocal :
    (pattern : Pattern) →
      Pattern.isLocal pattern = true →
      Pattern.looksAhead pattern = true
  | [], _ => rfl
  | element :: rest, hLocal => by
      simp only [Pattern.isLocal, Bool.and_eq_true] at hLocal
      rw [Pattern.looksAhead, Bool.and_eq_true]
      exact
        ⟨Element.looksAhead_of_isLocal element hLocal.1,
          Pattern.looksAhead_of_isLocal rest hLocal.2⟩

end

/-
  Whether an instruction looks at nothing but the target and
  what comes next.
-/
def Instruction.looksAhead : Instruction → Bool
  | .category _ trials =>
      trials.all fun trial => !Member.touchesEdge trial.2
  | .edge => false
  | .ditto => false
  | _ => true

/- A run of instructions none of which looks around. -/
def Code.LooksAhead
    (code : Code) : Prop :=
  ∀ instruction ∈ code, instruction.looksAhead = true

------------------------------------------------------------
-- Programs of patterns that look ahead
------------------------------------------------------------

namespace Code

variable {body : Nat → Code}
variable {one other : Code}

theorem LooksAhead.nothing :
    LooksAhead [] := by
  intro instruction hMem
  cases hMem

theorem LooksAhead.instruction
    {instruction : Instruction}
    (hAhead : instruction.looksAhead = true) :
    LooksAhead [instruction] := by
  intro other hMem
  obtain rfl := List.mem_singleton.mp hMem
  exact hAhead

theorem LooksAhead.append
    (hOne : one.LooksAhead)
    (hOther : other.LooksAhead) :
    LooksAhead (one ++ other) := by
  intro instruction hMem
  rcases List.mem_append.mp hMem with hHere | hThere
  · exact hOne instruction hHere
  · exact hOther instruction hThere

theorem LooksAhead.enterOrSkip
    (hCode : one.LooksAhead)
    (isLazy : Bool)
    (enter skip : Nat) :
    LooksAhead (.enterOrSkip isLazy enter skip :: one) := by
  apply LooksAhead.append (LooksAhead.instruction ?_) hCode
  cases isLazy <;> rfl

theorem LooksAhead.copies
    (hBody : ∀ start, (body start).LooksAhead)
    (size n start : Nat) :
    LooksAhead (copies body size n start) := by
  intro instruction hMem
  rcases List.mem_flatMap.mp hMem with ⟨i, _, hCopy⟩
  exact hBody _ instruction hCopy

theorem LooksAhead.loop
    (hBody : ∀ start, (body start).LooksAhead)
    (size : Nat)
    (isLazy : Bool)
    (start : Nat) :
    LooksAhead (loop body size isLazy start) := by
  apply LooksAhead.enterOrSkip
  exact (hBody _).append (LooksAhead.instruction rfl)

theorem LooksAhead.once
    (hBody : ∀ start, (body start).LooksAhead)
    (size : Nat)
    (isLazy : Bool)
    (start : Nat) :
    LooksAhead (once body size isLazy start) :=
  (hBody _).enterOrSkip _ _ _

theorem LooksAhead.optionalCopies
    (hBody : ∀ start, (body start).LooksAhead)
    (size : Nat)
    (isLazy : Bool)
    (skip n start : Nat) :
    LooksAhead (optionalCopies body size isLazy skip n start) :=
  LooksAhead.copies
    (fun start => (hBody (start + 1)).enterOrSkip _ _ _) _ _ _

end Code

/- A category is tried with its own members. -/
theorem CategoryRef.instruction_looksAhead
    {ref : CategoryRef}
    (hAhead : ref.isLocal = true) :
    ref.instruction.looksAhead = true := by
  unfold CategoryRef.instruction
  unfold CategoryRef.isLocal at hAhead
  cases hCategory : ref.category with
  | none => rfl
  | some category =>
      rw [hCategory, Option.all_some, List.all_eq_true]
        at hAhead
      simp only [Instruction.looksAhead, Category.trials_eq,
        List.all_map, List.all_eq_true]
      intro entry hEntry
      apply hAhead
      exact List.fst_mem_of_mem_zipIdx
        ((List.mem_insertionSort _).mp hEntry)

mutual

theorem Element.code_looksAhead :
    (element : Element) →
      element.looksAhead = true →
      ∀ start, (element.code start).LooksAhead
  | .literal _, _, _ => Code.LooksAhead.instruction rfl
  | .category _, hAhead, _ =>
      Code.LooksAhead.instruction
        (CategoryRef.instruction_looksAhead hAhead)
  | .wildcard, _, _ => Code.LooksAhead.instruction rfl
  | .gap _, _, _ =>
      Code.LooksAhead.loop
        (fun _ => Code.LooksAhead.instruction rfl) _ _ _
  | .null, _, _ => Code.LooksAhead.nothing
  | .target _, _, _ => Code.LooksAhead.instruction rfl
  | .optional body _, hAhead, _ =>
      Code.LooksAhead.once
        (Pattern.code_looksAhead body hAhead) _ _ _
  | .repeated body min max isLazy, hAhead, start => by
      have hBody := Element.code_looksAhead body hAhead
      unfold Element.code
      apply (Code.LooksAhead.copies hBody _ _ _).append
      cases max with
      | some most =>
          exact Code.LooksAhead.optionalCopies hBody _ _ _ _ _
      | none =>
          dsimp only
          split
          · exact Code.LooksAhead.once hBody _ _ _
          · exact Code.LooksAhead.loop hBody _ _ _
  | .foreign _, _, _ => Code.LooksAhead.nothing

theorem Pattern.code_looksAhead :
    (pattern : Pattern) →
      Pattern.looksAhead pattern = true →
      ∀ start, (Pattern.code pattern start).LooksAhead
  | [], _, _ => Code.LooksAhead.nothing
  | element :: rest, hAhead, start => by
      simp only [Pattern.looksAhead, Bool.and_eq_true] at hAhead
      exact
        (Element.code_looksAhead element hAhead.1 start).append
          (Pattern.code_looksAhead rest hAhead.2 _)

end

/- The program of a pattern that looks ahead does so too. -/
theorem Pattern.program_looksAhead
    {pattern : Pattern}
    (hAhead : pattern.looksAhead = true) :
    Code.LooksAhead pattern.program :=
  (Pattern.code_looksAhead pattern hAhead 0).append
    (Code.LooksAhead.instruction rfl)

------------------------------------------------------------
-- Moved positions
------------------------------------------------------------

/- A thread at a position that is further on. -/
def Thread.shift
    (n : Nat)
    (thread : Thread) : Thread :=
  { thread with pos := thread.pos + n }

/- A match at a position that is further on. -/
def Match.shift
    (n : Nat)
    (found : Match) : Match where
  start := found.start + n
  stop := found.stop + n
  bindings := found.bindings

/- A move of threads that are further on. -/
def Move.shift
    (n : Nat) : Move → Move
  | .accept => .accept
  | .split threads => .split (threads.map (Thread.shift n))

theorem Move.shift_goIf
    (n : Nat)
    (condition : Bool)
    (thread : Thread) :
    (Move.goIf condition thread).shift n =
      Move.goIf condition (thread.shift n) := by
  cases condition <;> rfl

theorem Match.length_shift
    (n : Nat)
    (found : Match) :
    (found.shift n).length = found.length := by
  simp only [Match.length, Match.shift]
  omega

------------------------------------------------------------
-- Embedded windows
------------------------------------------------------------

/-
  A window that shows a number of positions further on what
  another window shows.
-/
structure Window.Embeds
    (whole window : Window)
    (n : Nat) : Prop where
  limit_eq : whole.limit = window.limit + n
  target_eq : whole.target = window.target
  reads_eq :
    ∀ pos symbol,
      whole.reads (pos + n) symbol = window.reads pos symbol

namespace Window.Embeds

variable {whole window : Window}
variable {n : Nat}

/- A word is seen as it is between any other symbols. -/
theorem between
    {before word after : Word}
    (hWhole : whole.symbols.toList = before ++ word ++ after)
    (hWord : window.symbols.toList = word)
    (hLimit : whole.limit = before.length + word.length)
    (hInside : window.limit = word.length)
    (hTarget : whole.target = window.target) :
    whole.Embeds window before.length where
  limit_eq := by omega
  target_eq := hTarget
  reads_eq := by
    intro pos symbol
    by_cases hPos : pos < word.length
    · have hSame :
          (before ++ word ++ after)[pos + before.length]? =
            word[pos]? := by
        rw [List.append_assoc, List.getElem?_append_right
          (by omega), List.getElem?_append_left (by omega)]
        congr 1
        omega
      have hBefore :
          pos + before.length < before.length + word.length := by
        omega
      simp only [reads, ← Array.getElem?_toList, hWhole, hWord,
        hLimit, hInside, hSame, hBefore, hPos]
    · have hBehind :
          ¬pos + before.length <
            before.length + word.length := by
        omega
      simp [reads, hLimit, hInside, hBehind, hPos]

theorem memberEnd?_shift
    (hEmbeds : whole.Embeds window n)
    {member : Member}
    (hInner : Member.touchesEdge member = false)
    (pos : Nat) :
    whole.memberEnd? (pos + n) member =
      (window.memberEnd? pos member).map (· + n) := by
  induction member generalizing pos with
  | nil => rfl
  | cons part rest ih =>
      cases part with
      | edge => simp [Member.touchesEdge] at hInner
      | symbol s =>
          have hRest : Member.touchesEdge rest = false := by
            simpa [Member.touchesEdge] using hInner
          have hNext : pos + n + 1 = pos + 1 + n := by omega
          rw [memberEnd?, memberEnd?, hEmbeds.reads_eq, hNext,
            ih hRest]
          split <;> rfl

theorem readAll?_shift
    (hEmbeds : whole.Embeds window n)
    (symbols : List Symbol)
    (pos : Nat) :
    whole.readAll? (pos + n) symbols =
      (window.readAll? pos symbols).map (· + n) := by
  induction symbols generalizing pos with
  | nil => rfl
  | cons symbol rest ih =>
      have hNext : pos + n + 1 = pos + 1 + n := by omega
      rw [readAll?, readAll?, hEmbeds.reads_eq, hNext, ih]
      split <;> rfl

/- What looks ahead only does the same further on. -/
theorem step_shift
    (hEmbeds : whole.Embeds window n)
    {instruction : Instruction}
    (hAhead : instruction.looksAhead = true)
    (thread : Thread) :
    whole.step (thread.shift n) instruction =
      (window.step thread instruction).shift n := by
  have hNext : thread.pos + n + 1 = thread.pos + 1 + n := by
    omega
  cases instruction with
  | literal symbol =>
      simp only [step, Move.shift_goIf, Thread.shift,
        Thread.advance, hEmbeds.reads_eq, hNext]
  | any =>
      have hBefore :
          thread.pos + n < whole.limit ↔
            thread.pos < window.limit := by
        rw [hEmbeds.limit_eq]
        omega
      simp only [step, Move.shift_goIf, Thread.shift,
        Thread.advance, hBefore, hNext]
  | category ref trials =>
      simp only [Instruction.looksAhead, List.all_eq_true,
        Bool.not_eq_true'] at hAhead
      simp only [step, Move.shift, options, List.map_filterMap]
      congr 1
      apply List.filterMap_congr
      intro trial hTrial
      simp only [Thread.shift,
        hEmbeds.memberEnd?_shift (hAhead trial hTrial)]
      split
      · simp [Option.map_map, Function.comp_def, Thread.shift]
      · rfl
  | choice first second => rfl
  | jump address => rfl
  | fail => rfl
  | accept => rfl
  | target reversed =>
      simp only [step, Thread.shift, hEmbeds.target_eq,
        hEmbeds.readAll?_shift]
      cases window.readAll? thread.pos
          (if reversed = true then window.target.reverse
            else window.target) <;>
        rfl
  | edge => cases hAhead
  | ditto => cases hAhead

end Window.Embeds

------------------------------------------------------------
-- Embedded machines
------------------------------------------------------------

/-
  A machine that runs a program that looks ahead, a number
  of positions further on than another one.
-/
structure Machine.Embeds
    (whole machine : Machine)
    (n : Nat) : Prop where
  code_eq : whole.code = machine.code
  looksAhead :
    ∀ instruction ∈ machine.code,
      instruction.looksAhead = true
  window : whole.window.Embeds machine.window n
  start_eq : whole.start = machine.start + n
  stop_eq : whole.stop = none
  free : machine.stop = none
  longest_eq : whole.longest = machine.longest

namespace Machine.Embeds

variable {whole machine : Machine}
variable {n : Nat}

theorem improves_shift
    (thread : Thread)
    (best : Option Match) :
    improves (thread.shift n) (best.map (Match.shift n)) =
      improves thread best := by
  cases best with
  | none => rfl
  | some found => simp [improves, Thread.shift, Match.shift]

/-
  The machine takes the same steps and finds the same match
  further on.
-/
theorem run_shift
    (hEmbeds : whole.Embeds machine n)
    (budget fuel : Nat)
    (stack : List Thread)
    (best : Option Match) :
    whole.run budget fuel (stack.map (Thread.shift n))
        (best.map (Match.shift n)) =
      (machine.run budget fuel stack best).map
        (Option.map (Match.shift n)) := by
  induction fuel generalizing stack best with
  | zero => cases stack <;> rfl
  | succ fuel ih =>
  cases stack with
  | nil => rfl
  | cons thread stack =>
  have hAccepts : ∀ thread, whole.accepts thread = true := by
    simp [accepts, hEmbeds.stop_eq]
  have hFree : ∀ thread, machine.accepts thread = true := by
    simp [accepts, hEmbeds.free]
  have hFound :
      some (whole.found (thread.shift n)) =
        (some (machine.found thread)).map (Match.shift n) := by
    simp [found, hEmbeds.start_eq, Thread.shift, Match.shift]
  have hLimit :
      (thread.shift n).pos = whole.window.limit ↔
        thread.pos = machine.window.limit := by
    rw [hEmbeds.window.limit_eq, Thread.shift]
    exact Nat.add_right_cancel_iff
  rw [List.map_cons, run, run, hEmbeds.code_eq]
  cases hCode : machine.code[thread.address]? with
  | none =>
      have hNone :
          machine.code[(thread.shift n).address]? = none :=
        hCode
      rw [hNone]
      exact ih stack best
  | some instruction =>
  have hSome :
      machine.code[(thread.shift n).address]? =
        some instruction :=
    hCode
  have hAhead :=
    hEmbeds.looksAhead instruction
      (Array.mem_of_getElem? hCode)
  rw [hSome]
  dsimp only
  rw [hEmbeds.window.step_shift hAhead]
  cases machine.window.step thread instruction with
  | split threads =>
      dsimp only [Move.shift]
      rw [← List.map_append]
      exact ih (threads ++ stack) best
  | accept =>
      dsimp only [Move.shift]
      simp only [hAccepts, hFree, hEmbeds.longest_eq,
        improves_shift, hLimit, hFound, ih]
      split_ifs <;> rfl

end Machine.Embeds

------------------------------------------------------------
-- Matches between other symbols
------------------------------------------------------------

section Between

variable {pattern : Pattern}
variable (before word after : Word)
variable (budget : Int)

/- What is asked of a match that keeps to a part of a word. -/
def MatchRequest.between : MatchRequest where
  limit := some (before.length + word.length : Nat)
  budget := budget

theorem MatchRequest.limitIn_between :
    (MatchRequest.between before word budget).limitIn
        (before ++ word ++ after).toArray =
      (before.length + word.length : Nat) := by
  simp only [between, limitIn, List.size_toArray,
    List.length_append]
  omega

theorem Machine.embeds_between
    (hAhead : pattern.looksAhead = true) :
    ((MatchRequest.between before word budget).machine pattern
        (before ++ word ++ after).toArray
        before.length).Embeds
      (MatchRequest.machine { budget := budget } pattern
        word.toArray 0)
      before.length where
  code_eq := rfl
  looksAhead := by
    intro instruction hMem
    apply Pattern.program_looksAhead hAhead
    simpa [MatchRequest.machine] using hMem
  window :=
    Window.Embeds.between rfl rfl
      (congrArg Int.toNat
        (MatchRequest.limitIn_between before word after budget))
      (by simp [MatchRequest.machine, MatchRequest.window,
        MatchRequest.limitIn])
      rfl
  start_eq := (Nat.zero_add _).symm
  stop_eq := rfl
  free := rfl
  longest_eq := rfl

/-
  A pattern that looks ahead is matched between any other
  symbols as it is matched by itself, a number of positions
  further on.
-/
theorem Pattern.matchAt_between
    (hAhead : pattern.looksAhead = true) :
    Pattern.matchAt pattern (before ++ word ++ after).toArray
        before.length
        (MatchRequest.between before word budget) =
      (Pattern.matchAt pattern word.toArray 0
        { budget := budget }).map
          (Option.map (Match.shift before.length)) := by
  cases hMatchable : pattern.matchable with
  | false => simp [matchAt, hMatchable, Except.map]
  | true =>
  have hInside :
      ((0 : Nat) : Int) ≤
        MatchRequest.limitIn { budget := budget }
          word.toArray := by
    simp [MatchRequest.limitIn]
  have hBefore :
      (before.length : Int) ≤
        (MatchRequest.between before word budget).limitIn
          (before ++ word ++ after).toArray := by
    rw [MatchRequest.limitIn_between]
    omega
  have hThread :
      [MatchRequest.thread { budget := budget } 0].map
          (Thread.shift before.length) =
        [(MatchRequest.between before word budget).thread
          before.length] := by
    simp [MatchRequest.thread, Thread.shift,
      MatchRequest.between]
  have hRun :=
    (Machine.embeds_between before word after budget
      hAhead).run_shift budget.toNat budget.toNat
        [MatchRequest.thread { budget := budget } 0] none
  rw [hThread, Option.map_none] at hRun
  have hAlone := matchAt_inside hMatchable word.toArray _ hInside
  rw [Int.natCast_zero] at hAlone
  rw [hAlone, matchAt_inside hMatchable _ _ hBefore]
  simp only [MatchRequest.between] at hRun ⊢
  rw [hRun]
  cases (MatchRequest.machine { budget := budget } pattern
    word.toArray 0).run budget.toNat budget.toNat
      [MatchRequest.thread { budget := budget } 0] none <;> rfl

end Between

end Diachrony
