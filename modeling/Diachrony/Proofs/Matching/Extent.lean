import Diachrony.Matching.Search

/-
  Where matches lie.

  No thread goes back, and none goes beyond the limit. So a
  match begins where it was asked for and ends between that
  position and the limit, whatever the pattern is.

  Key definitions include:
    * `Match.Within`

  Key theorems include:
    * `Window.step_within`
    * `Machine.run_within`
    * `Pattern.matchAt_within`
-/

namespace Diachrony

------------------------------------------------------------
-- Single instructions
------------------------------------------------------------

namespace Window

variable {window : Window}

/- Symbols are consumed before the limit. -/
theorem lt_limit_of_reads
    {pos : Nat}
    {symbol : Symbol}
    (hReads : window.reads pos symbol = true) :
    pos < window.limit := by
  simp only [reads, Bool.and_eq_true, decide_eq_true_eq]
    at hReads
  exact hReads.1

theorem readAll?_within
    {pos stop : Nat}
    {symbols : List Symbol}
    (hPos : pos ≤ window.limit)
    (hRead : window.readAll? pos symbols = some stop) :
    pos ≤ stop ∧ stop ≤ window.limit := by
  induction symbols generalizing pos with
  | nil =>
      obtain rfl : pos = stop := Option.some.inj hRead
      exact ⟨Nat.le_refl pos, hPos⟩
  | cons symbol rest ih =>
      unfold readAll? at hRead
      split at hRead
      · rename_i hReads
        have hBelow := lt_limit_of_reads hReads
        have hRest := ih hBelow hRead
        omega
      · cases hRead

theorem memberEnd?_within
    {pos stop : Nat}
    {member : Member}
    (hPos : pos ≤ window.limit)
    (hEnd : window.memberEnd? pos member = some stop) :
    pos ≤ stop ∧ stop ≤ window.limit := by
  induction member generalizing pos with
  | nil =>
      obtain rfl : pos = stop := Option.some.inj hEnd
      exact ⟨Nat.le_refl pos, hPos⟩
  | cons part rest ih =>
      cases part with
      | edge =>
          unfold memberEnd? at hEnd
          split at hEnd
          · exact ih hPos hEnd
          · cases hEnd
      | symbol s =>
          unfold memberEnd? at hEnd
          split at hEnd
          · rename_i hReads
            have hBelow := lt_limit_of_reads hReads
            have hRest := ih hBelow hEnd
            omega
          · cases hEnd

/- A thread that is gone on with under a condition. -/
theorem mem_goIf
    {condition : Bool}
    {thread next : Thread}
    {threads : List Thread}
    (hMove : Move.goIf condition thread = .split threads)
    (hNext : next ∈ threads) :
    condition = true ∧ next = thread := by
  cases condition with
  | false =>
      cases hMove
      cases hNext
  | true =>
      cases hMove
      exact ⟨rfl, List.mem_singleton.mp hNext⟩

/- A thread moves forward, and not beyond the limit. -/
theorem step_within
    {thread next : Thread}
    {threads : List Thread}
    {instruction : Instruction}
    (hPos : thread.pos ≤ window.limit)
    (hStep :
      window.step thread instruction = .split threads)
    (hNext : next ∈ threads) :
    thread.pos ≤ next.pos ∧ next.pos ≤ window.limit := by
  cases instruction with
  | literal symbol =>
      rcases mem_goIf hStep hNext with ⟨hReads, rfl⟩
      have hBelow := lt_limit_of_reads hReads
      simp only [Thread.advance]
      omega
  | any =>
      rcases mem_goIf hStep hNext with ⟨hBelow, rfl⟩
      simp only [decide_eq_true_eq] at hBelow
      simp only [Thread.advance]
      omega
  | category ref trials =>
      cases hStep
      rcases List.mem_filterMap.mp hNext with
        ⟨trial, _, hTrial⟩
      split at hTrial
      · rcases Option.map_eq_some_iff.mp hTrial with
          ⟨stop, hStop, rfl⟩
        exact memberEnd?_within hPos hStop
      · cases hTrial
  | choice first second =>
      cases hStep
      rcases List.mem_cons.mp hNext with rfl | hSecond
      · exact ⟨Nat.le_refl _, hPos⟩
      · obtain rfl := List.mem_singleton.mp hSecond
        exact ⟨Nat.le_refl _, hPos⟩
  | jump address =>
      cases hStep
      obtain rfl := List.mem_singleton.mp hNext
      exact ⟨Nat.le_refl _, hPos⟩
  | edge =>
      rcases mem_goIf hStep hNext with ⟨_, rfl⟩
      exact ⟨Nat.le_refl _, hPos⟩
  | target reversed =>
      simp only [step] at hStep
      split at hStep
      · rename_i stop hStop
        cases hStep
        obtain rfl := List.mem_singleton.mp hNext
        exact readAll?_within hPos hStop
      · cases hStep
        cases hNext
  | ditto =>
      rcases mem_goIf hStep hNext with ⟨hRepeats, rfl⟩
      simp only [repeatsPrevious, Bool.and_eq_true,
        decide_eq_true_eq] at hRepeats
      simp only [Thread.advance]
      omega
  | fail =>
      cases hStep
      cases hNext
  | accept => cases hStep

end Window

------------------------------------------------------------
-- Runs
------------------------------------------------------------

/- A match that begins at a position and keeps to a limit. -/
structure Match.Within
    (found : Match)
    (start limit : Nat) : Prop where
  start_eq : found.start = start
  start_le : start ≤ found.stop
  stop_le : found.stop ≤ limit

namespace Machine

variable {machine : Machine}

/- A thread stands between the start and the limit. -/
def Keeps
    (machine : Machine)
    (thread : Thread) : Prop :=
  machine.start ≤ thread.pos ∧
    thread.pos ≤ machine.window.limit

theorem Keeps.found_within
    {thread : Thread}
    (hKeeps : machine.Keeps thread) :
    (machine.found thread).Within machine.start
      machine.window.limit where
  start_eq := rfl
  start_le := hKeeps.1
  stop_le := hKeeps.2

theorem Keeps.step
    {thread : Thread}
    {threads : List Thread}
    {instruction : Instruction}
    (hKeeps : machine.Keeps thread)
    (hStep :
      machine.window.step thread instruction =
        .split threads) :
    ∀ next ∈ threads, machine.Keeps next := by
  intro next hNext
  have hForward :=
    Window.step_within hKeeps.2 hStep hNext
  exact ⟨Nat.le_trans hKeeps.1 hForward.1, hForward.2⟩

/-
  A run keeps every thread of its stack, and the best match
  so far, between the start and the limit.
-/
theorem run_within
    {budget fuel : Nat}
    {stack : List Thread}
    {best result : Option Match}
    (hStack : ∀ thread ∈ stack, machine.Keeps thread)
    (hBest : ∀ found ∈ best,
      found.Within machine.start machine.window.limit)
    (hRun :
      machine.run budget fuel stack best = .ok result) :
    ∀ found ∈ result,
      found.Within machine.start machine.window.limit := by
  induction fuel generalizing stack best with
  | zero =>
      cases stack with
      | nil =>
          obtain rfl : best = result := Except.ok.inj hRun
          exact hBest
      | cons thread rest => cases hRun
  | succ fuel ih =>
  cases stack with
  | nil =>
      obtain rfl : best = result := Except.ok.inj hRun
      exact hBest
  | cons thread rest =>
      have hThread := hStack thread List.mem_cons_self
      have hRest : ∀ other ∈ rest, machine.Keeps other :=
        fun other hOther =>
          hStack other (List.mem_cons_of_mem _ hOther)
      have hFound : ∀ found ∈ some (machine.found thread),
          found.Within machine.start machine.window.limit := by
        intro found hMem
        obtain rfl := Option.some.inj hMem
        exact hThread.found_within
      unfold run at hRun
      split at hRun
      · exact ih hRest hBest hRun
      · split at hRun
        · rename_i hStep
          apply ih _ hBest hRun
          intro next hNext
          rcases List.mem_append.mp hNext with hNew | hOld
          · exact hThread.step hStep next hNew
          · exact hRest next hOld
        · split at hRun
          · exact ih hRest hBest hRun
          split at hRun
          · obtain rfl := Except.ok.inj hRun
            exact hFound
          split at hRun
          · exact ih hRest hBest hRun
          split at hRun
          · obtain rfl := Except.ok.inj hRun
            exact hFound
          · exact ih hRest hFound hRun

end Machine

------------------------------------------------------------
-- Matching at a position
------------------------------------------------------------

/- A limit lies inside the word. -/
theorem MatchRequest.limit_window_le
    (request : MatchRequest)
    (word : WordArray) :
    (request.window word).limit ≤
      (request.window word).symbols.size := by
  simp only [MatchRequest.window, MatchRequest.limitIn]
  cases request.limit with
  | none => simp
  | some limit => simp only; omega

/- A match begins at the position it was asked for. -/
theorem Pattern.matchAt_within
    {pattern : Pattern}
    {word : WordArray}
    {start : Nat}
    {request : MatchRequest}
    {found : Match}
    (hFound :
      Pattern.matchAt pattern word start request =
        .ok (some found)) :
    found.Within start (request.window word).limit := by
  unfold Pattern.matchAt at hFound
  split at hFound
  · cases hFound
  split at hFound
  · cases hFound
  · rename_i hInside
    dsimp only at hFound
    split at hFound
    · cases hFound
    · rename_i result hRun
      obtain rfl := Except.ok.inj hFound
      have hKeeps :
          (request.machine pattern word start).Keeps
            (request.thread start) := by
        refine ⟨Nat.le_refl start, ?_⟩
        simp only [MatchRequest.thread, MatchRequest.machine,
          MatchRequest.window]
        omega
      apply Machine.run_within _ _ hRun found rfl
      · intro thread hThread
        obtain rfl := List.mem_singleton.mp hThread
        exact hKeeps
      · intro other hOther
        cases hOther

end Diachrony
