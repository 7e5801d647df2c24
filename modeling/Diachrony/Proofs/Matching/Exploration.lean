import Diachrony.Matching.Machine

/-
  What a machine visits.

  The threads of a stack that come to an acceptance are
  visited in a definite order, which depends neither on the
  budget nor on what has been found before. A run settles on
  one of them, or uses up its budget first. How many steps
  it needs is fixed in advance.

  Key definitions include:
    * `Machine.Visits`
    * `Machine.settle`
    * `Machine.Settles`

  Key theorems include:
    * `Machine.Visits.append`
    * `Machine.Visits.settles`
-/

namespace Diachrony

namespace Machine

------------------------------------------------------------
-- Visits
------------------------------------------------------------

/-
  The accepting threads that the threads of a stack lead to,
  in the order in which they are come upon.
-/
inductive Visits
    (machine : Machine) :
    List Thread → List Thread → Prop where
  | done : Visits machine [] []
  | step
      {thread : Thread}
      {stack threads accepted : List Thread}
      {instruction : Instruction}
      (hInstruction :
        machine.code[thread.address]? = some instruction)
      (hStep :
        machine.window.step thread instruction =
          .split threads)
      (hRest : Visits machine (threads ++ stack) accepted) :
      Visits machine (thread :: stack) accepted
  | accept
      {thread : Thread}
      {stack accepted : List Thread}
      (hInstruction :
        machine.code[thread.address]? = some .accept)
      (hRest : Visits machine stack accepted) :
      Visits machine (thread :: stack) (thread :: accepted)

namespace Visits

variable {machine : Machine}

/- What lies deeper in the stack is visited later. -/
theorem append
    {first second found later : List Thread}
    (hFirst : machine.Visits first found)
    (hSecond : machine.Visits second later) :
    machine.Visits (first ++ second) (found ++ later) := by
  induction hFirst with
  | done => exact hSecond
  | step hInstruction hStep _ ih =>
      apply Visits.step hInstruction hStep
      rw [List.append_eq, ← List.append_assoc]
      exact ih
  | accept hInstruction _ ih =>
      exact Visits.accept hInstruction ih

/- A stack is visited thread by thread. -/
theorem flatMap
    {α : Type}
    {entries : List α}
    {thread : α → Thread}
    {found : α → List Thread}
    (hEach : ∀ entry ∈ entries,
      machine.Visits [thread entry] (found entry)) :
    machine.Visits (entries.map thread)
      (entries.flatMap found) := by
  induction entries with
  | nil => exact Visits.done
  | cons entry rest ih =>
      have hEntry := hEach entry List.mem_cons_self
      have hRest := ih fun other hOther =>
        hEach other (List.mem_cons_of_mem _ hOther)
      exact hEntry.append hRest

/- A thread is visited through those it is replaced by. -/
theorem split
    {thread : Thread}
    {threads accepted : List Thread}
    {instruction : Instruction}
    (hInstruction :
      machine.code[thread.address]? = some instruction)
    (hStep :
      machine.window.step thread instruction =
        .split threads)
    (hThreads : machine.Visits threads accepted) :
    machine.Visits [thread] accepted := by
  apply Visits.step hInstruction hStep
  rw [List.append_nil]
  exact hThreads

end Visits

------------------------------------------------------------
-- Settling on a match
------------------------------------------------------------

/-
  The match that is settled on when accepting threads are
  come upon in order, after a match that was found before.
-/
def settle
    (machine : Machine) :
    List Thread → Option Match → Option Match
  | [], best => best
  | thread :: rest, best =>
      if !machine.accepts thread then
        machine.settle rest best
      else if !machine.longest then
        some (machine.found thread)
      else if !improves thread best then
        machine.settle rest best
      else if thread.pos = machine.window.limit then
        some (machine.found thread)
      else
        machine.settle rest (some (machine.found thread))

/-
  A run comes to a result after a fixed number of steps. It
  is the same for all budgets that allow for these steps,
  and all others are used up.
-/
def Settles
    (machine : Machine)
    (stack : List Thread)
    (best result : Option Match) : Prop :=
  ∃ steps, ∀ budget fuel,
    machine.run budget fuel stack best =
      if fuel < steps then
        .error ⟨budget + 1⟩
      else
        .ok result

namespace Settles

variable {machine : Machine}
variable {thread : Thread}
variable {stack : List Thread}
variable {best result : Option Match}

/- A run that ends with its next step. -/
theorem of_end
    (hRun : ∀ budget fuel,
      machine.run budget (fuel + 1) (thread :: stack) best =
        .ok result) :
    machine.Settles (thread :: stack) best result := by
  refine ⟨1, ?_⟩
  intro budget fuel
  cases fuel with
  | zero => rfl
  | succ fuel => simp [hRun]

/- A run that goes on after its next step. -/
theorem of_step
    {later : List Thread}
    {next : Option Match}
    (hRun : ∀ budget fuel,
      machine.run budget (fuel + 1) (thread :: stack) best =
        machine.run budget fuel later next)
    (hLater : machine.Settles later next result) :
    machine.Settles (thread :: stack) best result := by
  rcases hLater with ⟨steps, hSteps⟩
  refine ⟨steps + 1, ?_⟩
  intro budget fuel
  cases fuel with
  | zero => rfl
  | succ fuel => simp [hRun, hSteps]

end Settles

/- A run settles on one of the threads it visits. -/
theorem Visits.settles
    {machine : Machine}
    {stack accepted : List Thread}
    (hVisits : machine.Visits stack accepted)
    (best : Option Match) :
    machine.Settles stack best
      (machine.settle accepted best) := by
  induction hVisits generalizing best with
  | done => exact ⟨0, fun _ fuel => by cases fuel <;> rfl⟩
  | step hInstruction hStep _ ih =>
      apply Settles.of_step _ (ih best)
      intro budget fuel
      simp only [run, hInstruction, hStep]
  | @accept thread stack accepted hInstruction _ ih =>
      have hAccept :
          machine.window.step thread .accept = .accept := rfl
      cases hAccepts : machine.accepts thread with
      | false =>
          simp only [settle, hAccepts, Bool.not_false, if_true]
          apply Settles.of_step _ (ih best)
          intro budget fuel
          simp [run, hInstruction, hAccept, hAccepts]
      | true =>
      cases hLongest : machine.longest with
      | false =>
          simp only [settle, hAccepts, hLongest]
          apply Settles.of_end
          intro budget fuel
          simp [run, hInstruction, hAccept, hAccepts, hLongest]
      | true =>
      cases hImproves : improves thread best with
      | false =>
          have hSettle :
              machine.settle (thread :: accepted) best =
                machine.settle accepted best := by
            simp [settle, hAccepts, hLongest, hImproves]
          rw [hSettle]
          apply Settles.of_step _ (ih best)
          intro budget fuel
          simp [run, hInstruction, hAccept, hAccepts, hLongest,
            hImproves]
      | true =>
      by_cases hLimit : thread.pos = machine.window.limit
      · apply Settles.of_end
        intro budget fuel
        simp [run, settle, hInstruction, hAccept, hAccepts,
          hLongest, hImproves, hLimit]
      · have hSettle :
            machine.settle (thread :: accepted) best =
              machine.settle accepted
                (some (machine.found thread)) := by
          simp [settle, hAccepts, hLongest, hImproves, hLimit]
        rw [hSettle]
        apply Settles.of_step _ (ih (some _))
        intro budget fuel
        simp [run, hInstruction, hAccept, hAccepts, hLongest,
          hImproves, hLimit]

end Machine

end Diachrony
