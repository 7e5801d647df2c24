import Diachrony.Proofs.Matching.Extent
import Diachrony.Proofs.Matching.Termination
import Diachrony.Proofs.Pattern.Slots

/-
  What a lazy mark does not change.

  A lazy mark only says in which order the alternatives of
  an element are tried. So the threads that a match can come
  to are the same with and without it. A run that comes to a
  result has found an end if there is one, and a farthest
  one if the longest match is asked for, in whatever order
  they were tried.

  Key definitions include:
    * `Pattern.eager`
    * `Instruction.unordered`
    * `Machine.CanEnd`

  Key theorems include:
    * `Pattern.code_eager`
    * `Machine.run_cases`
    * `Machine.run_attains`
    * `Pattern.matchAt_eager`
-/

namespace Diachrony

------------------------------------------------------------
-- Patterns without lazy marks
------------------------------------------------------------

mutual

/- An element without its lazy marks, inner ones included. -/
def Element.eager : Element → Element
  | .gap _ => .gap false
  | .optional body _ => .optional (Pattern.eager body) false
  | .repeated body min max _ =>
      .repeated (Element.eager body) min max false
  | element => element

/- A pattern without its lazy marks. -/
def Pattern.eager : Pattern → Pattern
  | [] => []
  | element :: rest => Element.eager element :: Pattern.eager rest

end

@[simp]
theorem Element.nullable_eager :
    (element : Element) →
      element.eager.nullable = element.nullable
  | .repeated body min _ _ => by
      simp only [eager, nullable, nullable_eager body]
  | .gap _ => rfl
  | .optional _ _ => rfl
  | .literal _ => rfl
  | .category _ => rfl
  | .wildcard => rfl
  | .edge => rfl
  | .null => rfl
  | .target _ => rfl
  | .ditto => rfl
  | .foreign _ => rfl

mutual

@[simp]
theorem Element.codeSize_eager :
    (element : Element) →
      element.eager.codeSize = element.codeSize
  | .optional body _ => by
      simp only [Element.eager, Element.codeSize,
        Pattern.codeSize_eager body]
  | .repeated body _ _ _ => by
      simp only [Element.eager, Element.codeSize,
        Element.codeSize_eager body, Element.nullable_eager]
  | .gap _ => rfl
  | .literal _ => rfl
  | .category _ => rfl
  | .wildcard => rfl
  | .edge => rfl
  | .null => rfl
  | .target _ => rfl
  | .ditto => rfl
  | .foreign _ => rfl

@[simp]
theorem Pattern.codeSize_eager :
    (pattern : Pattern) →
      Pattern.codeSize (Pattern.eager pattern) =
        Pattern.codeSize pattern
  | [] => rfl
  | element :: rest => by
      simp only [Pattern.eager, Pattern.codeSize,
        Element.codeSize_eager element,
        Pattern.codeSize_eager rest]

end

mutual

@[simp]
theorem Element.matchable_eager :
    (element : Element) →
      element.eager.matchable = element.matchable
  | .optional body _ => by
      simp only [Element.eager, Element.matchable,
        Pattern.matchable_eager body]
  | .repeated body _ _ _ => by
      simp only [Element.eager, Element.matchable,
        Element.matchable_eager body]
  | .gap _ => rfl
  | .literal _ => rfl
  | .category _ => rfl
  | .wildcard => rfl
  | .edge => rfl
  | .null => rfl
  | .target _ => rfl
  | .ditto => rfl
  | .foreign _ => rfl

@[simp]
theorem Pattern.matchable_eager :
    (pattern : Pattern) →
      Pattern.matchable (Pattern.eager pattern) =
        Pattern.matchable pattern
  | [] => rfl
  | element :: rest => by
      simp only [Pattern.eager, Pattern.matchable,
        Element.matchable_eager element,
        Pattern.matchable_eager rest]

end

mutual

theorem Element.categoryRefs_eager :
    (element : Element) →
      element.eager.categoryRefs = element.categoryRefs
  | .optional body _ => by
      have hBody := Pattern.categoryRefs_eager body
      simp only [Pattern.categoryRefs] at hBody
      simp only [Element.categoryRefs, Element.eager,
        Element.walk, List.filterMap_cons,
        Element.categoryRef?, hBody]
  | .repeated body _ _ _ => by
      have hBody := Element.categoryRefs_eager body
      simp only [Element.categoryRefs] at hBody
      simp only [Element.categoryRefs, Element.eager,
        Element.walk, List.filterMap_cons,
        Element.categoryRef?, hBody]
  | .gap _ => rfl
  | .literal _ => rfl
  | .category _ => rfl
  | .wildcard => rfl
  | .edge => rfl
  | .null => rfl
  | .target _ => rfl
  | .ditto => rfl
  | .foreign _ => rfl

@[simp]
theorem Pattern.categoryRefs_eager :
    (pattern : Pattern) →
      Pattern.categoryRefs (Pattern.eager pattern) =
        Pattern.categoryRefs pattern
  | [] => rfl
  | element :: rest => by
      simp only [Pattern.eager, Pattern.categoryRefs_cons,
        Element.categoryRefs_eager element,
        Pattern.categoryRefs_eager rest]

end

------------------------------------------------------------
-- Programs
------------------------------------------------------------

/- An instruction apart from what a choice tries first. -/
def Instruction.unordered : Instruction → Instruction
  | .choice first second =>
      .choice (min first second) (max first second)
  | instruction => instruction

/- A run of instructions apart from the order of choices. -/
def Code.unordered
    (code : Code) : Code :=
  code.map Instruction.unordered

theorem Instruction.unordered_enterOrSkip
    (isLazy : Bool)
    (body skip : Nat) :
    (enterOrSkip isLazy body skip).unordered =
      .choice (min body skip) (max body skip) := by
  cases isLazy with
  | false => rfl
  | true =>
      simp only [enterOrSkip, if_true, unordered,
        Nat.min_comm, Nat.max_comm]

theorem Instruction.eq_accept_of_unordered
    {instruction : Instruction}
    (hSame : instruction.unordered = accept.unordered) :
    instruction = accept := by
  cases instruction <;> first | rfl | cases hSame

namespace Code

variable {body other : Nat → Code}
variable (hBody :
  ∀ start, (body start).unordered = (other start).unordered)

theorem unordered_append
    (first later : Code) :
    (first ++ later).unordered =
      first.unordered ++ later.unordered :=
  List.map_append

theorem unordered_enterOrSkip
    (isLazy : Bool)
    (enter skip : Nat)
    (code : Code) :
    unordered (.enterOrSkip isLazy enter skip :: code) =
      .choice (min enter skip) (max enter skip) ::
        code.unordered := by
  rw [unordered, List.map_cons,
    Instruction.unordered_enterOrSkip]
  rfl

include hBody

theorem unordered_copies
    (size n start : Nat) :
    (copies body size n start).unordered =
      (copies other size n start).unordered := by
  simp only [copies, unordered, List.map_flatMap]
  exact List.flatMap_congr fun i _ => hBody _

theorem unordered_once
    (size : Nat)
    (isLazy isLazy' : Bool)
    (start : Nat) :
    (once body size isLazy start).unordered =
      (once other size isLazy' start).unordered := by
  rw [once, once, unordered_enterOrSkip, unordered_enterOrSkip,
    hBody]

theorem unordered_loop
    (size : Nat)
    (isLazy isLazy' : Bool)
    (start : Nat) :
    (loop body size isLazy start).unordered =
      (loop other size isLazy' start).unordered := by
  rw [loop, loop, unordered_enterOrSkip, unordered_enterOrSkip,
    unordered_append, unordered_append, hBody]

theorem unordered_optionalCopies
    (size : Nat)
    (isLazy isLazy' : Bool)
    (skip n start : Nat) :
    (optionalCopies body size isLazy skip n start).unordered =
      (optionalCopies other size isLazy' skip n
        start).unordered := by
  refine unordered_copies (fun start => ?_) _ _ _
  rw [guarded, guarded, unordered_enterOrSkip,
    unordered_enterOrSkip, hBody]

end Code

mutual

/- Lazy marks only change the order of choices. -/
theorem Element.code_eager :
    (element : Element) →
      (start : Nat) →
        (element.eager.code start).unordered =
          (element.code start).unordered
  | .gap _, start =>
      Code.unordered_loop (fun _ => rfl) _ _ _ start
  | .optional body _, start => by
      simp only [Element.eager, Element.code,
        Pattern.codeSize_eager]
      exact
        Code.unordered_once (Pattern.code_eager body) _ _ _ start
  | .repeated body min max _, start => by
      have hBody := Element.code_eager body
      simp only [Element.eager, Element.code,
        Element.codeSize_eager, Element.nullable_eager,
        Code.unordered_append]
      refine congrArg₂ _ (Code.unordered_copies hBody _ _ _) ?_
      cases max with
      | some most =>
          exact Code.unordered_optionalCopies hBody _ _ _ _ _ _
      | none =>
          dsimp only
          split
          · exact Code.unordered_once hBody _ _ _ _
          · exact Code.unordered_loop hBody _ _ _ _
  | .literal _, _ => rfl
  | .category _, _ => rfl
  | .wildcard, _ => rfl
  | .edge, _ => rfl
  | .null, _ => rfl
  | .target _, _ => rfl
  | .ditto, _ => rfl
  | .foreign _, _ => rfl

theorem Pattern.code_eager :
    (pattern : Pattern) →
      (start : Nat) →
        (Pattern.code (Pattern.eager pattern) start).unordered =
          (Pattern.code pattern start).unordered
  | [], _ => rfl
  | element :: rest, start => by
      simp only [Pattern.eager, Pattern.code,
        Code.unordered_append, Element.codeSize_eager,
        Element.code_eager element, Pattern.code_eager rest]

end

/- Patterns that differ in lazy marks have the same program. -/
theorem Pattern.program_eager
    {one other : Pattern}
    (hSame : Pattern.eager one = Pattern.eager other) :
    Code.unordered one.program = Code.unordered other.program := by
  simp only [Pattern.program, Code.unordered_append,
    ← Pattern.code_eager one, ← Pattern.code_eager other, hSame]

theorem Code.mem_copies
    {body : Nat → Code}
    {size n start : Nat}
    {instruction : Instruction}
    (hMem : instruction ∈ copies body size n start) :
    ∃ address, instruction ∈ body address := by
  rcases List.mem_flatMap.mp hMem with ⟨i, _, hCopy⟩
  exact ⟨_, hCopy⟩

theorem Code.mem_enterOrSkip
    {isLazy : Bool}
    {enter skip : Nat}
    {code : Code}
    {ref : CategoryRef}
    {trials : List (Nat × Member)}
    (hMem :
      .category ref trials ∈
        Instruction.enterOrSkip isLazy enter skip :: code) :
    .category ref trials ∈ code := by
  rcases List.mem_cons.mp hMem with hChoice | hCode
  · cases isLazy <;> cases hChoice
  · exact hCode

mutual

/- Only references are laid out as trials of a category. -/
theorem Element.ref_of_mem_code
    {ref : CategoryRef}
    {trials : List (Nat × Member)} :
    (element : Element) →
      {start : Nat} →
        .category ref trials ∈ element.code start →
          ref ∈ element.categoryRefs ∧
            ref.instruction = .category ref trials
  | .category other, _, hMem => by
      have hSame := List.mem_singleton.mp hMem
      obtain rfl : other = ref := by
        unfold CategoryRef.instruction at hSame
        split at hSame
        · cases hSame
        · cases hSame
          rfl
      exact ⟨List.mem_singleton_self _, hSame.symm⟩
  | .gap _, _, hMem => by
      have hBody := Code.mem_enterOrSkip hMem
      simp at hBody
  | .optional body _, _, hMem =>
      Pattern.ref_of_mem_code body (Code.mem_enterOrSkip hMem)
  | .repeated body min max isLazy, start, hMem => by
      have hBody : ∀ {address},
          .category ref trials ∈ body.code address →
            ref ∈ body.categoryRefs ∧
              ref.instruction = .category ref trials :=
        Element.ref_of_mem_code body
      unfold Element.code at hMem
      rcases List.mem_append.mp hMem with hRequired | hMore
      · rcases Code.mem_copies hRequired with ⟨_, hCopy⟩
        exact hBody hCopy
      cases max with
      | some most =>
          rcases Code.mem_copies hMore with ⟨_, hCopy⟩
          exact hBody (Code.mem_enterOrSkip hCopy)
      | none =>
          dsimp only at hMore
          split at hMore
          · exact hBody (Code.mem_enterOrSkip hMore)
          · rcases
              List.mem_append.mp (Code.mem_enterOrSkip hMore) with
              hInside | hJump
            · exact hBody hInside
            · cases List.mem_singleton.mp hJump
  | .literal _, _, hMem => by simp [Element.code] at hMem
  | .wildcard, _, hMem => by simp [Element.code] at hMem
  | .edge, _, hMem => by simp [Element.code] at hMem
  | .null, _, hMem => by simp [Element.code] at hMem
  | .target _, _, hMem => by simp [Element.code] at hMem
  | .ditto, _, hMem => by simp [Element.code] at hMem
  | .foreign _, _, hMem => by simp [Element.code] at hMem

theorem Pattern.ref_of_mem_code
    {ref : CategoryRef}
    {trials : List (Nat × Member)} :
    (pattern : Pattern) →
      {start : Nat} →
        .category ref trials ∈ Pattern.code pattern start →
          ref ∈ Pattern.categoryRefs pattern ∧
            ref.instruction = .category ref trials
  | [], _, hMem => by cases hMem
  | element :: rest, _, hMem => by
      rw [Pattern.categoryRefs_cons]
      rcases List.mem_append.mp hMem with hHere | hRest
      · exact
          (Element.ref_of_mem_code element hHere).imp_left
            (List.mem_append_left _)
      · exact
          (Pattern.ref_of_mem_code rest hRest).imp_left
            (List.mem_append_right _)

end

/- A pattern without references tries no category. -/
theorem Pattern.category_not_mem_program
    {pattern : Pattern}
    (hFree : Pattern.categoryRefs pattern = [])
    (ref : CategoryRef)
    (trials : List (Nat × Member)) :
    .category ref trials ∉ pattern.program := by
  intro hMem
  rcases List.mem_append.mp hMem with hCode | hAccept
  · have hRef := (Pattern.ref_of_mem_code pattern hCode).1
    rw [hFree] at hRef
    cases hRef
  · cases List.mem_singleton.mp hAccept

------------------------------------------------------------
-- Threads
------------------------------------------------------------

namespace Window

variable {window : Window}
variable {thread next : Thread}

/- What a thread becomes does not depend on an order. -/
theorem step_unordered
    (window : Window)
    (thread next : Thread)
    (instruction : Instruction) :
    (∃ threads,
        window.step thread instruction.unordered =
            .split threads ∧
          next ∈ threads) ↔
      ∃ threads,
        window.step thread instruction = .split threads ∧
          next ∈ threads := by
  cases instruction with
  | choice first second =>
      rcases Nat.le_total first second with hOrder | hOrder
      · simp only [Instruction.unordered, Nat.min_eq_left hOrder,
          Nat.max_eq_right hOrder]
      · simp only [Instruction.unordered,
          Nat.min_eq_right hOrder, Nat.max_eq_left hOrder, step]
        simp [or_comm]
  | _ => rfl

theorem eq_accept_of_step
    {instruction : Instruction}
    (hStep : window.step thread instruction = .accept) :
    instruction = .accept := by
  cases instruction with
  | accept => rfl
  | target reversed =>
      simp only [step] at hStep
      split at hStep <;> cases hStep
  | _ => cases hStep

/- Only the trials of a category bind anything. -/
theorem bindings_of_step
    {instruction : Instruction}
    {threads : List Thread}
    (hInstruction :
      ∀ ref trials, instruction ≠ .category ref trials)
    (hStep : window.step thread instruction = .split threads)
    (hNext : next ∈ threads) :
    next.bindings = thread.bindings := by
  cases instruction with
  | category ref trials => exact absurd rfl (hInstruction _ _)
  | literal | any | edge | ditto =>
      rcases mem_goIf hStep hNext with ⟨_, rfl⟩
      rfl
  | choice first second =>
      cases hStep
      simp only [List.mem_cons, List.not_mem_nil, or_false]
        at hNext
      rcases hNext with rfl | rfl <;> rfl
  | jump address =>
      cases hStep
      rw [List.mem_singleton.mp hNext]
  | target reversed =>
      simp only [step] at hStep
      split at hStep
      · cases hStep
        rw [List.mem_singleton.mp hNext]
        rfl
      · cases hStep
        cases hNext
  | fail =>
      cases hStep
      cases hNext
  | accept => cases hStep

end Window

------------------------------------------------------------
-- Runs
------------------------------------------------------------

namespace Machine

variable {machine : Machine}
variable {thread last : Thread}
variable {stack : List Thread}
variable {best result : Option Match}
variable {budget fuel : Nat}

/- An accepting thread that ends where it has to. -/
structure CanEnd
    (machine : Machine)
    (thread : Thread) : Prop where
  accepting : machine.code[thread.address]? = some .accept
  accepted : machine.accepts thread = true

/- The ends that the threads of a stack can come to. -/
def EndsOf
    (machine : Machine)
    (stack : List Thread)
    (last : Thread) : Prop :=
  machine.CanEnd last ∧
    ∃ thread ∈ stack,
      Relation.ReflTransGen machine.Next thread last

/-
  What one step of a run does with the first thread. Either
  other threads take its place, namely all that it becomes.
  Or it has come to an end. This is the result if any end
  will do, or if it lies at the limit. Otherwise it is kept
  if it is farther than the best one so far.
-/
theorem run_cases
    (hRun :
      machine.run budget (fuel + 1) (thread :: stack) best =
        .ok result) :
    (¬machine.CanEnd thread ∧
      ∃ threads,
        (∀ next, machine.Next thread next ↔ next ∈ threads) ∧
          machine.run budget fuel (threads ++ stack) best =
            .ok result) ∨
      (machine.CanEnd thread ∧
        (∀ next, ¬machine.Next thread next) ∧
          ((result = some (machine.found thread) ∧
              (machine.longest = true →
                improves thread best = true ∧
                  thread.pos = machine.window.limit)) ∨
            (machine.longest = true ∧
              improves thread best = false ∧
              machine.run budget fuel stack best =
                .ok result) ∨
            (machine.longest = true ∧
              improves thread best = true ∧
              machine.run budget fuel stack
                  (some (machine.found thread)) =
                .ok result))) := by
  rw [run] at hRun
  cases hCode : machine.code[thread.address]? with
  | none =>
      rw [hCode] at hRun
      refine .inl ⟨fun hEnd => ?_, [], fun next => ?_, hRun⟩
      · cases hCode.symm.trans hEnd.accepting
      · refine iff_of_false ?_ List.not_mem_nil
        rintro ⟨instruction, threads, hInstruction, _⟩
        cases hCode.symm.trans hInstruction
  | some instruction =>
  rw [hCode] at hRun
  dsimp only at hRun
  cases hStep : machine.window.step thread instruction with
  | split threads =>
      rw [hStep] at hRun
      refine .inl ⟨fun hEnd => ?_, threads, fun next => ?_, hRun⟩
      · cases hCode.symm.trans hEnd.accepting
        cases hStep
      · constructor
        · rintro ⟨other, others, hOther, hOthers, hMem⟩
          cases hCode.symm.trans hOther
          cases hStep.symm.trans hOthers
          exact hMem
        · exact fun hMem =>
            ⟨instruction, threads, hCode, hStep, hMem⟩
  | accept =>
      rw [hStep] at hRun
      dsimp only at hRun
      have hNone : ∀ next, ¬machine.Next thread next := by
        rintro next ⟨other, others, hOther, hOthers, _⟩
        cases hCode.symm.trans hOther
        cases hStep.symm.trans hOthers
      have hAccept : instruction = .accept :=
        Window.eq_accept_of_step hStep
      split at hRun
      · rename_i hOutside
        refine
          .inl ⟨fun hEnd => ?_, [], fun next => ?_, hRun⟩
        · simp [hEnd.accepted] at hOutside
        · exact iff_of_false (hNone next) List.not_mem_nil
      rename_i hAccepts
      have hEnd : machine.CanEnd thread :=
        ⟨hAccept ▸ hCode, by simpa using hAccepts⟩
      refine .inr ⟨hEnd, hNone, ?_⟩
      split at hRun
      · rename_i hAny
        cases hRun
        refine .inl ⟨rfl, fun hLongest => ?_⟩
        rw [hLongest] at hAny
        cases hAny
      rename_i hAll
      have hLongest : machine.longest = true := by
        simpa using hAll
      split at hRun
      · rename_i hShort
        exact
          .inr (.inl ⟨hLongest, by simpa using hShort, hRun⟩)
      rename_i hFar
      replace hFar : improves thread best = true := by
        simpa using hFar
      split at hRun
      · rename_i hLimit
        cases hRun
        exact .inl ⟨rfl, fun _ => ⟨hFar, hLimit⟩⟩
      · exact .inr (.inr ⟨hLongest, hFar, hRun⟩)

/- What a thread becomes keeps to the limit as well. -/
theorem Keeps.reaches
    (hKeeps : machine.Keeps thread)
    (hReaches :
      Relation.ReflTransGen machine.Next thread last) :
    machine.Keeps last := by
  induction hReaches with
  | refl => exact hKeeps
  | tail _ hNext ih =>
      rcases hNext with ⟨_, _, _, hStep, hMem⟩
      exact ih.step hStep _ hMem

theorem endsOf_cons
    (thread : Thread)
    (stack : List Thread)
    (last : Thread) :
    machine.EndsOf (thread :: stack) last ↔
      machine.EndsOf [thread] last ∨
        machine.EndsOf stack last := by
  simp only [EndsOf, List.exists_mem_cons_iff,
    List.not_mem_nil, false_and, exists_false, or_false,
    and_or_left]

/- Before its end a thread comes to the ends of its successors. -/
theorem endsOf_of_next
    {threads : List Thread}
    (hOpen : ¬machine.CanEnd thread)
    (hNext :
      ∀ next, machine.Next thread next ↔ next ∈ threads)
    (stack : List Thread)
    (last : Thread) :
    machine.EndsOf (thread :: stack) last ↔
      machine.EndsOf (threads ++ stack) last := by
  have hFirst : ∀ last, machine.CanEnd last →
      (Relation.ReflTransGen machine.Next thread last ↔
        ∃ next ∈ threads,
          Relation.ReflTransGen machine.Next next last) := by
    intro last hEnd
    constructor
    · intro hReaches
      rcases hReaches.cases_head with rfl | ⟨next, hStep, hRest⟩
      · exact absurd hEnd hOpen
      · exact ⟨next, (hNext next).mp hStep, hRest⟩
    · rintro ⟨next, hMem, hRest⟩
      exact .head ((hNext next).mpr hMem) hRest
  constructor
  · rintro ⟨hEnd, other, hMem, hReaches⟩
    rcases List.mem_cons.mp hMem with rfl | hLater
    · rcases (hFirst last hEnd).mp hReaches with
        ⟨next, hNew, hRest⟩
      exact
        ⟨hEnd, next, List.mem_append_left _ hNew, hRest⟩
    · exact
        ⟨hEnd, other, List.mem_append_right _ hLater, hReaches⟩
  · rintro ⟨hEnd, other, hMem, hReaches⟩
    rcases List.mem_append.mp hMem with hNew | hLater
    · exact
        ⟨hEnd, thread, List.mem_cons_self,
          (hFirst last hEnd).mpr ⟨other, hNew, hReaches⟩⟩
    · exact
        ⟨hEnd, other, List.mem_cons_of_mem _ hLater, hReaches⟩

/- A thread that has come to its end comes to no other one. -/
theorem endsOf_of_end
    (hEnd : machine.CanEnd thread)
    (hNone : ∀ next, ¬machine.Next thread next)
    (stack : List Thread)
    (last : Thread) :
    machine.EndsOf (thread :: stack) last ↔
      last = thread ∨ machine.EndsOf stack last := by
  rw [endsOf_cons]
  refine or_congr_left ?_
  constructor
  · rintro ⟨_, other, hMem, hReaches⟩
    obtain rfl := List.mem_singleton.mp hMem
    rcases hReaches.cases_head with rfl | ⟨next, hStep, _⟩
    · rfl
    · exact absurd hStep (hNone next)
  · rintro rfl
    exact ⟨hEnd, last, List.mem_singleton_self _, .refl⟩

/-
  What the result of a run owes to the ends of its threads
  and to the best match before. If the longest match is
  asked for, nothing of it goes beyond the result.
-/
structure Attains
    (machine : Machine)
    (stack : List Thread)
    (best result : Option Match) : Prop where
  source :
    result = best ∨
      ∃ last,
        machine.EndsOf stack last ∧
          result = some (machine.found last)
  covers :
    ∀ last, machine.EndsOf stack last →
      ∃ found ∈ result,
        machine.longest = true → last.pos ≤ found.stop
  keeps :
    machine.longest = true →
      ∀ earlier ∈ best,
        ∃ found ∈ result, earlier.stop ≤ found.stop

namespace Attains

theorem nothing
    (best : Option Match) :
    machine.Attains [] best best where
  source := .inl rfl
  covers := by
    rintro last ⟨_, _, hMem, _⟩
    cases hMem
  keeps := fun _ earlier hBest =>
    ⟨earlier, hBest, Nat.le_refl _⟩

/- Other threads take the place of the first one. -/
theorem of_next
    {threads : List Thread}
    (hOpen : ¬machine.CanEnd thread)
    (hNext :
      ∀ next, machine.Next thread next ↔ next ∈ threads)
    (hRest : machine.Attains (threads ++ stack) best result) :
    machine.Attains (thread :: stack) best result := by
  rcases hRest with ⟨hSource, hCovers, hKeeps⟩
  simp only [← endsOf_of_next hOpen hNext] at hSource hCovers
  exact ⟨hSource, hCovers, hKeeps⟩

theorem lt_of_improves
    {earlier : Match}
    (hFar : improves thread best = true)
    (hBest : earlier ∈ best) :
    earlier.stop < thread.pos := by
  rw [Option.mem_def.mp hBest] at hFar
  simpa [improves] using hFar

/- Any end will do, or this one is as far as can be. -/
theorem of_last
    (hEnd : machine.CanEnd thread)
    (hStack :
      ∀ other ∈ thread :: stack, machine.Keeps other)
    (hLimit :
      machine.longest = true →
        improves thread best = true ∧
          thread.pos = machine.window.limit) :
    machine.Attains (thread :: stack) best
      (some (machine.found thread)) where
  source :=
    .inr
      ⟨thread, ⟨hEnd, thread, List.mem_cons_self, .refl⟩, rfl⟩
  covers := by
    rintro last ⟨_, other, hMem, hReaches⟩
    refine ⟨_, rfl, fun hLongest => ?_⟩
    rw [found, (hLimit hLongest).2]
    exact ((hStack other hMem).reaches hReaches).2
  keeps := fun hLongest _ hBest =>
    ⟨_, rfl,
      Nat.le_of_lt (lt_of_improves (hLimit hLongest).1 hBest)⟩

/- An end that is not farther is passed over. -/
theorem of_short
    (hEnd : machine.CanEnd thread)
    (hNone : ∀ next, ¬machine.Next thread next)
    (hLongest : machine.longest = true)
    (hShort : improves thread best = false)
    (hRest : machine.Attains stack best result) :
    machine.Attains (thread :: stack) best result := by
  rcases hRest with ⟨hSource, hCovers, hKeeps⟩
  have hEnds := endsOf_of_end hEnd hNone stack
  refine ⟨?_, fun last hLast => ?_, hKeeps⟩
  · exact hSource.imp_right fun ⟨last, hLast, hSame⟩ =>
      ⟨last, (hEnds last).mpr (.inr hLast), hSame⟩
  rcases (hEnds last).mp hLast with rfl | hLast
  · cases best with
    | none => cases hShort
    | some earlier =>
        rcases hKeeps hLongest earlier rfl with
          ⟨found, hFound, hStop⟩
        have hBehind : last.pos ≤ earlier.stop := by
          simpa [improves] using hShort
        exact
          ⟨found, hFound, fun _ => Nat.le_trans hBehind hStop⟩
  · exact hCovers last hLast

/- A farther end takes the place of the best match. -/
theorem of_far
    (hEnd : machine.CanEnd thread)
    (hNone : ∀ next, ¬machine.Next thread next)
    (hLongest : machine.longest = true)
    (hFar : improves thread best = true)
    (hRest :
      machine.Attains stack (some (machine.found thread))
        result) :
    machine.Attains (thread :: stack) best result := by
  rcases hRest with ⟨hSource, hCovers, hKeeps⟩
  have hEnds := endsOf_of_end hEnd hNone stack
  rcases hKeeps hLongest _ rfl with ⟨found, hFound, hStop⟩
  refine ⟨.inr ?_, fun last hLast => ?_, fun _ earlier hBest => ?_⟩
  · rcases hSource with rfl | ⟨last, hLast, hSame⟩
    · exact ⟨thread, (hEnds _).mpr (.inl rfl), rfl⟩
    · exact ⟨last, (hEnds last).mpr (.inr hLast), hSame⟩
  · rcases (hEnds last).mp hLast with rfl | hLast
    · exact ⟨found, hFound, fun _ => hStop⟩
    · exact hCovers last hLast
  · have hLess := lt_of_improves hFar hBest
    exact
      ⟨found, hFound, Nat.le_trans (Nat.le_of_lt hLess) hStop⟩

end Attains

/-
  A run that comes to a result has found an end if there is
  one, and a farthest one if that is asked for.
-/
theorem run_attains
    (hStack : ∀ thread ∈ stack, machine.Keeps thread)
    (hRun :
      machine.run budget fuel stack best = .ok result) :
    machine.Attains stack best result := by
  induction fuel generalizing stack best with
  | zero =>
      cases stack with
      | nil =>
          cases hRun
          exact .nothing _
      | cons thread rest => cases hRun
  | succ fuel ih =>
  cases stack with
  | nil =>
      cases hRun
      exact .nothing _
  | cons thread stack =>
  rcases List.forall_mem_cons.mp hStack with ⟨hThread, hLater⟩
  rcases run_cases hRun with
    ⟨hOpen, threads, hNext, hRest⟩ | ⟨hEnd, hNone, hCases⟩
  · refine .of_next hOpen hNext (ih ?_ hRest)
    exact
      List.forall_mem_append.mpr
        ⟨fun next hMem =>
          hThread.reaches (.single ((hNext next).mpr hMem)),
          hLater⟩
  · rcases hCases with
      ⟨rfl, hLimit⟩ | ⟨hLongest, hShort, hRest⟩ |
        ⟨hLongest, hFar, hRest⟩
    · exact .of_last hEnd hStack hLimit
    · exact .of_short hEnd hNone hLongest hShort (ih hLater hRest)
    · exact .of_far hEnd hNone hLongest hFar (ih hLater hRest)

------------------------------------------------------------
-- Machines that differ in an order
------------------------------------------------------------

/-
  Machines that differ at most in the order of the choices
  of their programs.
-/
structure Unordered
    (one other : Machine) : Prop where
  code_eq :
    one.code.map Instruction.unordered =
      other.code.map Instruction.unordered
  window_eq : one.window = other.window
  start_eq : one.start = other.start
  stop_eq : one.stop = other.stop
  longest_eq : one.longest = other.longest

namespace Unordered

variable {one other : Machine}
variable {next : Thread}

theorem symm
    (hSame : one.Unordered other) :
    other.Unordered one where
  code_eq := hSame.code_eq.symm
  window_eq := hSame.window_eq.symm
  start_eq := hSame.start_eq.symm
  stop_eq := hSame.stop_eq.symm
  longest_eq := hSame.longest_eq.symm

theorem step
    (hSame : one.Unordered other)
    (hNext : one.Next thread next) :
    other.Next thread next := by
  rcases hNext with ⟨instruction, threads, hCode, hStep, hMem⟩
  have hOther :=
    congrArg (fun code => code[thread.address]?) hSame.code_eq
  simp only [Array.getElem?_map, hCode, Option.map_some]
    at hOther
  rcases Option.map_eq_some_iff.mp hOther.symm with
    ⟨same, hThere, hUnordered⟩
  have hSteps :=
    (Window.step_unordered one.window thread next
      instruction).mpr ⟨threads, hStep, hMem⟩
  rw [← hUnordered, Window.step_unordered] at hSteps
  rcases hSteps with ⟨others, hOthers, hNext⟩
  rw [hSame.window_eq] at hOthers
  exact ⟨same, others, hThere, hOthers, hNext⟩

theorem canEnd
    (hSame : one.Unordered other)
    (hEnd : one.CanEnd last) :
    other.CanEnd last where
  accepting := by
    have hOther :=
      congrArg (fun code => code[last.address]?) hSame.code_eq
    simp only [Array.getElem?_map, hEnd.accepting,
      Option.map_some] at hOther
    rcases Option.map_eq_some_iff.mp hOther.symm with
      ⟨same, hThere, hUnordered⟩
    rw [hThere, Instruction.eq_accept_of_unordered hUnordered]
  accepted := by
    have hAccepted := hEnd.accepted
    rw [accepts, hSame.stop_eq] at hAccepted
    exact hAccepted

theorem endsOf
    (hSame : one.Unordered other)
    (hEnds : one.EndsOf stack last) :
    other.EndsOf stack last := by
  rcases hEnds with ⟨hEnd, thread, hMem, hReaches⟩
  exact
    ⟨hSame.canEnd hEnd, thread, hMem,
      Relation.ReflTransGen.mono (fun _ _ => hSame.step) _ _
        hReaches⟩

/- What one of them finds, the other one finds as well. -/
theorem found
    (hSame : one.Unordered other)
    {reply : Option Match}
    (hOne : one.Attains stack none result)
    (hOther : other.Attains stack none reply) :
    ∀ found ∈ result,
      ∃ match' ∈ reply,
        one.longest = true → found.stop ≤ match'.stop := by
  intro found hFound
  rcases hOne.source with rfl | ⟨last, hLast, rfl⟩
  · cases hFound
  · cases hFound
    rcases hOther.covers last (hSame.endsOf hLast) with
      ⟨reached, hReached, hStop⟩
    rw [← hSame.longest_eq] at hStop
    exact ⟨reached, hReached, hStop⟩

end Unordered

/- A thread that tries no category keeps its bindings. -/
theorem bindings_of_reaches
    (hFree :
      ∀ ref trials, .category ref trials ∉ machine.code)
    (hReaches :
      Relation.ReflTransGen machine.Next thread last) :
    last.bindings = thread.bindings := by
  induction hReaches with
  | refl => rfl
  | tail _ hNext ih =>
      rcases hNext with
        ⟨instruction, threads, hCode, hStep, hMem⟩
      rw [← ih]
      refine Window.bindings_of_step ?_ hStep hMem
      rintro ref trials rfl
      exact hFree ref trials (Array.mem_of_getElem? hCode)

end Machine

------------------------------------------------------------
-- Matching at a position
------------------------------------------------------------

section Patterns

variable {one other pattern : Pattern}
variable {word : WordArray}
variable {start : Int}
variable {request : MatchRequest}
variable {result reply : Option Match}

/-
  A match that comes to a result stands for the ends of its
  first thread, if it begins inside the word.
-/
theorem Pattern.attains_of_matchAt
    (hResult :
      Pattern.matchAt pattern word start request =
        .ok result) :
    if start < 0 ∨ request.limitIn word < start then
      result = none
    else
      (request.machine pattern word start.toNat).Attains
        [request.thread start.toNat] none result := by
  unfold matchAt at hResult
  split at hResult
  · cases hResult
  split at hResult
  · rename_i hOutside
    cases hResult
    rw [if_pos hOutside]
  · rename_i hInside
    rw [if_neg hInside]
    dsimp only at hResult
    split at hResult
    · cases hResult
    · rename_i hRun
      cases hResult
      refine Machine.run_attains ?_ hRun
      refine List.forall_mem_singleton.mpr ⟨Nat.le_refl _, ?_⟩
      simp only [MatchRequest.thread, MatchRequest.machine,
        MatchRequest.window]
      omega

theorem Pattern.unordered_machine
    (hSame : Pattern.eager one = Pattern.eager other)
    (request : MatchRequest)
    (word : WordArray)
    (start : Nat) :
    (request.machine one word start).Unordered
      (request.machine other word start) where
  code_eq := by
    have hCode := congrArg List.toArray (program_eager hSame)
    simpa [Code.unordered, MatchRequest.machine] using hCode
  window_eq := rfl
  start_eq := rfl
  stop_eq := rfl
  longest_eq := rfl

/-
  Patterns that differ in lazy marks are matched at the same
  positions, and their longest matches end at the same
  position.
-/
theorem Pattern.matchAt_eager
    (hSame : Pattern.eager one = Pattern.eager other)
    (hOne :
      Pattern.matchAt one word start request = .ok result)
    (hOther :
      Pattern.matchAt other word start request = .ok reply) :
    (result.isSome = reply.isSome) ∧
      (request.longest = true →
        result.map Match.stop = reply.map Match.stop) := by
  have hOne := attains_of_matchAt hOne
  have hOther := attains_of_matchAt hOther
  split at hOne
  · rename_i hOutside
    rw [if_pos hOutside] at hOther
    subst hOne hOther
    exact ⟨rfl, fun _ => rfl⟩
  rename_i hInside
  rw [if_neg hInside] at hOther
  have hMachines :=
    unordered_machine hSame request word start.toNat
  have hThere := hMachines.found hOne hOther
  have hBack := hMachines.symm.found hOther hOne
  cases result with
  | none =>
      cases reply with
      | none => exact ⟨rfl, fun _ => rfl⟩
      | some found =>
          rcases hBack found rfl with ⟨_, hNone, _⟩
          cases hNone
  | some found =>
      rcases hThere found rfl with ⟨same, rfl, hStop⟩
      rcases hBack same rfl with ⟨_, hFound, hOtherStop⟩
      cases hFound
      exact
        ⟨rfl, fun hLongest =>
          congrArg some
            (Nat.le_antisymm (hStop hLongest)
              (hOtherStop hLongest))⟩

/-
  A match of a pattern without references binds nothing, so
  only its end can make a difference.
-/
theorem Pattern.matchAt_free
    (hFree : Pattern.categoryRefs pattern = [])
    {found : Match}
    (hFound :
      Pattern.matchAt pattern word start request =
        .ok (some found)) :
    found =
      { start := start.toNat
        stop := found.stop
        bindings := request.bindings } := by
  have hAttains := attains_of_matchAt hFound
  split at hAttains
  · cases hAttains
  rcases hAttains.source with hNone | ⟨last, hLast, hSame⟩
  · cases hNone
  cases hSame
  rcases hLast.2 with ⟨thread, hMem, hReaches⟩
  rw [List.mem_singleton.mp hMem] at hReaches
  have hBindings : last.bindings = request.bindings :=
    Machine.bindings_of_reaches
      (fun ref trials hCode =>
        category_not_mem_program hFree ref trials
          (List.mem_toArray.mp hCode))
      hReaches
  simp only [Machine.found, hBindings]
  rfl

end Patterns

end Diachrony
