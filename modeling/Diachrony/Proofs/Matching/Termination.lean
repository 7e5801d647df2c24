import Diachrony.Proofs.Matching.Correctness
import Mathlib.Logic.Function.Basic
import Mathlib.Logic.Relation

/-
  The machine comes to an end by itself.

  The addresses of a program can be ranked so that every
  instruction consumes a symbol or leads to a lower rank. A
  jump leads back, but only from the end of a body that has
  consumed: such a body can be ranked with any rank at its
  end and one and the same rank at its beginning. So no loop
  goes round in place, and a budget only cuts a match off.

  Key definitions include:
    * `Machine.Next`
    * `Machine.Descends`
    * `Machine.Ranked`
    * `Machine.Barred`

  Key theorems include:
    * `Machine.Barred.loop`
    * `Element.ordered_repeated`
    * `Pattern.exists_rank`
    * `Pattern.matchAt_terminates`
-/

namespace Diachrony

namespace Machine

------------------------------------------------------------
-- Ranks of addresses
------------------------------------------------------------

/- One instruction takes a thread to another one. -/
def Next
    (machine : Machine)
    (thread next : Thread) : Prop :=
  ∃ instruction threads,
    machine.code[thread.address]? = some instruction ∧
      machine.window.step thread instruction =
        .split threads ∧
      next ∈ threads

/-
  A thread has consumed a symbol, or it has come to an
  address of a lower rank.
-/
def Progress
    (rank : Nat → Nat)
    (thread next : Thread) : Prop :=
  thread.pos < next.pos ∨
    (thread.pos = next.pos ∧
      rank next.address < rank thread.address)

/-
  The instructions of a stretch of code lead to addresses in
  the stretch, or to its end, and make progress.
-/
def Descends
    (machine : Machine)
    (rank : Nat → Nat)
    (start stop : Nat) : Prop :=
  ∀ ⦃thread next : Thread⦄,
    start ≤ thread.address →
    thread.address < stop →
    thread.pos ≤ machine.window.limit →
    machine.Next thread next →
      start ≤ next.address ∧
        next.address ≤ stop ∧
        Progress rank thread next

/-
  Code of a given size can be ranked, whatever the rank of
  the address behind it is.
-/
def Ranked
    (machine : Machine)
    (code : Nat → Code)
    (size : Nat) : Prop :=
  ∀ ⦃start : Nat⦄,
    (code start).StandsAt start machine.code →
      ∀ last, ∃ rank : Nat → Nat,
        rank (start + size) = last ∧
          machine.Descends rank start (start + size)

/-
  Code is barred if the address behind it cannot be reached
  in place: the rank of its beginning is the same, whatever
  the rank of the address behind it is.
-/
def Barred
    (machine : Machine)
    (code : Nat → Code)
    (size : Nat) : Prop :=
  ∀ ⦃start : Nat⦄,
    (code start).StandsAt start machine.code →
      ∃ first, ∀ last, ∃ rank : Nat → Nat,
        rank start = first ∧
          rank (start + size) = last ∧
          machine.Descends rank start (start + size)

variable {machine : Machine}

namespace Descends

variable {rank : Nat → Nat}
variable {start stop : Nat}

theorem nothing
    (rank : Nat → Nat)
    (start : Nat) :
    machine.Descends rank start start := by
  intro thread next hStart hStop
  omega

/- One more instruction comes before a stretch of code. -/
theorem cons
    {top : Nat}
    (hRest : machine.Descends rank (start + 1) stop)
    (hFirst : ∀ ⦃thread next : Thread⦄,
      thread.address = start →
      thread.pos ≤ machine.window.limit →
      machine.Next thread next →
        start + 1 ≤ next.address ∧
          next.address ≤ stop ∧
          (thread.pos < next.pos ∨
            (thread.pos = next.pos ∧
              rank next.address < top))) :
    machine.Descends (Function.update rank start top) start
      stop := by
  intro thread next hStart hStop hLimit hNext
  rcases Nat.eq_or_lt_of_le hStart with hHere | hLater
  · rcases hFirst hHere.symm hLimit hNext with
      ⟨hLow, hHigh, hProgress⟩
    have hOther : next.address ≠ start := by omega
    refine ⟨by omega, hHigh, ?_⟩
    rw [Progress, Function.update_of_ne hOther, ← hHere,
      Function.update_self]
    exact hProgress
  · rcases hRest hLater hStop hLimit hNext with
      ⟨hLow, hHigh, hProgress⟩
    have hThread : thread.address ≠ start := by omega
    have hOther : next.address ≠ start := by omega
    refine ⟨by omega, hHigh, ?_⟩
    rw [Progress, Function.update_of_ne hOther,
      Function.update_of_ne hThread]
    exact hProgress

/- Two stretches of code that agree on where they meet. -/
theorem append
    {other : Nat → Nat}
    {middle : Nat}
    (hFirst : machine.Descends rank start middle)
    (hSecond : machine.Descends other middle stop)
    (hMeet : rank middle = other middle)
    (hStart : start ≤ middle)
    (hStop : middle ≤ stop) :
    machine.Descends
      (fun address =>
        if address < middle then rank address
        else other address)
      start stop := by
  intro thread next hFrom hTo hLimit hNext
  by_cases hBefore : thread.address < middle
  · rcases hFirst hFrom hBefore hLimit hNext with
      ⟨hLow, hHigh, hProgress⟩
    refine ⟨hLow, by omega, ?_⟩
    rw [Progress, if_pos hBefore]
    split
    · exact hProgress
    · have hEnd : next.address = middle := by omega
      rw [hEnd, ← hMeet, ← hEnd]
      exact hProgress
  · rcases hSecond (by omega) hTo hLimit hNext with
      ⟨hLow, hHigh, hProgress⟩
    have hBehind : ¬next.address < middle := by omega
    refine ⟨by omega, hHigh, ?_⟩
    rw [Progress, if_neg hBefore, if_neg hBehind]
    exact hProgress

end Descends

------------------------------------------------------------
-- Single instructions
------------------------------------------------------------

/- What follows an instruction is known from its paths. -/
theorem Next.performed
    {instruction : Instruction}
    {reach : Reach}
    {start : Nat}
    {thread next : Thread}
    (hPerforms : machine.window.Performs instruction reach)
    (hCode : machine.code[start]? = some instruction)
    (hAddress : thread.address = start)
    (hNext : machine.Next thread next) :
    ∃ reached ∈ reach ⟨thread.pos, thread.bindings⟩,
      next = reached.enter (start + 1) := by
  rcases hNext with ⟨other, threads, hOther, hStep, hMem⟩
  rw [hAddress, hCode] at hOther
  obtain rfl := Option.some.inj hOther
  have hMove := hPerforms ⟨thread.pos, thread.bindings⟩ start
  have hSame :
      Point.enter ⟨thread.pos, thread.bindings⟩ start =
        thread := by
    rw [← hAddress]
    rfl
  rw [hSame, hStep] at hMove
  obtain rfl := Move.split.inj hMove
  rcases List.mem_map.mp hMem with ⟨reached, hReached, rfl⟩
  exact ⟨reached, hReached, rfl⟩

theorem Ranked.instruction
    {instruction : Instruction}
    {reach : Reach}
    (hPerforms : machine.window.Performs instruction reach)
    (hForward : Reach.Forward machine.window.limit reach) :
    machine.Ranked (fun _ => [instruction]) 1 := by
  intro start hCode last
  refine ⟨Function.update (fun _ => last) start (last + 1),
    by simp [Function.update_of_ne], ?_⟩
  apply Descends.cons (Descends.nothing _ _)
  intro thread next hAddress hLimit hNext
  rcases hNext.performed hPerforms hCode.head hAddress with
    ⟨reached, hReached, rfl⟩
  have hUp := (hForward hLimit hReached).1
  simp only [Point.enter] at hUp ⊢
  omega

theorem Barred.instruction
    {instruction : Instruction}
    {reach : Reach}
    (hPerforms : machine.window.Performs instruction reach)
    (hConsuming : Reach.Consuming machine.window.limit reach) :
    machine.Barred (fun _ => [instruction]) 1 := by
  intro start hCode
  refine ⟨0, ?_⟩
  intro last
  refine ⟨Function.update (fun _ => last) start 0,
    by simp, by simp [Function.update_of_ne], ?_⟩
  apply Descends.cons (Descends.nothing _ _)
  intro thread next hAddress hLimit hNext
  rcases hNext.performed hPerforms hCode.head hAddress with
    ⟨reached, hReached, rfl⟩
  have hUp := hConsuming hLimit hReached
  simp only [Point.enter] at hUp ⊢
  omega

/- A choice stays in place. -/
theorem Next.chosen
    {isLazy : Bool}
    {start skip : Nat}
    {thread next : Thread}
    (hCode :
      machine.code[start]? =
        some (.enterOrSkip isLazy (start + 1) skip))
    (hAddress : thread.address = start)
    (hNext : machine.Next thread next) :
    thread.pos = next.pos ∧
      (next.address = start + 1 ∨ next.address = skip) := by
  rcases hNext with ⟨other, threads, hOther, hStep, hMem⟩
  rw [hAddress, hCode] at hOther
  obtain rfl := Option.some.inj hOther
  cases isLazy with
  | false =>
      obtain rfl := Move.split.inj hStep
      simp only [List.mem_cons, List.not_mem_nil, or_false]
        at hMem
      rcases hMem with rfl | rfl
      · exact ⟨rfl, Or.inl rfl⟩
      · exact ⟨rfl, Or.inr rfl⟩
  | true =>
      obtain rfl := Move.split.inj hStep
      simp only [List.mem_cons, List.not_mem_nil, or_false]
        at hMem
      rcases hMem with rfl | rfl
      · exact ⟨rfl, Or.inr rfl⟩
      · exact ⟨rfl, Or.inl rfl⟩

/- A jump stays in place. -/
theorem Next.jumped
    {address start : Nat}
    {thread next : Thread}
    (hCode : machine.code[start]? = some (.jump address))
    (hAddress : thread.address = start)
    (hNext : machine.Next thread next) :
    thread.pos = next.pos ∧ next.address = address := by
  rcases hNext with ⟨other, threads, hOther, hStep, hMem⟩
  rw [hAddress, hCode] at hOther
  obtain rfl := Option.some.inj hOther
  obtain rfl := Move.split.inj hStep
  obtain rfl := List.mem_singleton.mp hMem
  exact ⟨rfl, rfl⟩

------------------------------------------------------------
-- Pieces of code
------------------------------------------------------------

variable {body first second : Nat → Code}
variable {size firstSize secondSize : Nat}

theorem Ranked.nothing :
    machine.Ranked (fun _ => []) 0 := by
  intro start _ last
  exact ⟨fun _ => last, rfl, Descends.nothing _ _⟩

theorem Ranked.append
    (hFirst : machine.Ranked first firstSize)
    (hSecond : machine.Ranked second secondSize)
    (hLength : ∀ start, (first start).length = firstSize) :
    machine.Ranked
      (fun start => first start ++ second (start + firstSize))
      (firstSize + secondSize) := by
  intro start hCode last
  have hRight := hCode.right
  rw [hLength] at hRight
  rcases hSecond hRight last with ⟨other, hLast, hAfter⟩
  rcases hFirst hCode.left (other (start + firstSize)) with
    ⟨rank, hMeet, hBefore⟩
  rw [Nat.add_assoc] at hLast hAfter
  refine ⟨_, ?_, hBefore.append hAfter hMeet
    (Nat.le_add_right _ _) (by omega)⟩
  rw [if_neg (by omega)]
  exact hLast

/- It is enough that the first piece is barred. -/
theorem Barred.append
    (hFirst : machine.Barred first firstSize)
    (hSecond : machine.Ranked second secondSize)
    (hLength : ∀ start, (first start).length = firstSize) :
    machine.Barred
      (fun start => first start ++ second (start + firstSize))
      (firstSize + secondSize) := by
  intro start hCode
  have hRight := hCode.right
  rw [hLength] at hRight
  rcases hFirst hCode.left with ⟨top, hTop⟩
  -- The two ends of a barred piece have ranks of their own.
  have hSize : firstSize ≠ 0 := by
    rintro rfl
    rcases hTop (top + 1) with ⟨rank, hStart, hStop, _⟩
    rw [Nat.add_zero] at hStop
    omega
  refine ⟨top, ?_⟩
  intro last
  rcases hSecond hRight last with ⟨other, hLast, hAfter⟩
  rcases hTop (other (start + firstSize)) with
    ⟨rank, hStart, hMeet, hBefore⟩
  rw [Nat.add_assoc] at hLast hAfter
  refine ⟨_, ?_, ?_, hBefore.append hAfter hMeet
    (Nat.le_add_right _ _) (by omega)⟩
  · rw [if_pos (by omega)]
    exact hStart
  · rw [if_neg (by omega)]
    exact hLast

/- A choice comes before what it chooses between. -/
theorem Descends.choice
    {rank : Nat → Nat}
    {isLazy : Bool}
    {start skip stop : Nat}
    (hCode :
      machine.code[start]? =
        some (.enterOrSkip isLazy (start + 1) skip))
    (hRest : machine.Descends rank (start + 1) stop)
    (hSkip : start < skip)
    (hStop : skip ≤ stop) :
    machine.Descends
      (Function.update rank start
        (max (rank (start + 1)) (rank skip) + 1))
      start stop := by
  apply hRest.cons
  intro thread next hAddress _ hNext
  rcases hNext.chosen hCode hAddress with ⟨hPos, hChoice⟩
  rcases hChoice with hThrough | hAround
  · rw [hThrough]
    omega
  · rw [hAround]
    omega

theorem Ranked.once
    (isLazy : Bool)
    (hBody : machine.Ranked body size) :
    machine.Ranked (Code.once body size isLazy) (1 + size) := by
  intro start hCode last
  rcases hBody hCode.tail last with ⟨rank, hLast, hRank⟩
  rw [← Nat.add_assoc]
  refine ⟨_, ?_,
    hRank.choice hCode.head (by omega) (Nat.le_refl _)⟩
  rw [Function.update_of_ne (by omega)]
  exact hLast

theorem Ranked.copies
    (hLength : ∀ start, (body start).length = size)
    (n : Nat)
    (hBody : 0 < n → machine.Ranked body size) :
    machine.Ranked (Code.copies body size n) (n * size) := by
  induction n with
  | zero =>
      rw [Nat.zero_mul]
      exact Ranked.nothing
  | succ n ih =>
      have hFirst := hBody (Nat.succ_pos n)
      have hCopies := hFirst.append (ih fun _ => hFirst) hLength
      intro start hCode
      rw [Code.copies_succ] at hCode
      have hSize : (n + 1) * size = size + n * size := by
        rw [Nat.succ_mul, Nat.add_comm]
      rw [hSize]
      exact hCopies hCode

theorem Barred.copies
    (hLength : ∀ start, (body start).length = size)
    (n : Nat)
    (hBarred : machine.Barred body size)
    (hBody : machine.Ranked body size) :
    machine.Barred (Code.copies body size (n + 1))
      ((n + 1) * size) := by
  have hRest := Ranked.copies hLength n fun _ => hBody
  have hCopies := hBarred.append hRest hLength
  intro start hCode
  rw [Code.copies_succ] at hCode
  have hSize : (n + 1) * size = size + n * size := by
    rw [Nat.succ_mul, Nat.add_comm]
  rw [hSize]
  exact hCopies hCode

/-
  The ranks of a loop: one for the choice before the body,
  those of the body up to the jump behind it, and one for
  all that comes after the loop.
-/
def loopRank
    (rank : Nat → Nat)
    (start jump top last : Nat)
    (address : Nat) : Nat :=
  if address = start then top
  else if address ≤ jump then rank address
  else last

section Loops

variable {rank : Nat → Nat}
variable {start jump top last : Nat}

theorem loopRank_start :
    loopRank rank start jump top last start = top :=
  if_pos rfl

theorem loopRank_inside
    {address : Nat}
    (hLow : start < address)
    (hHigh : address ≤ jump) :
    loopRank rank start jump top last address =
      rank address := by
  rw [loopRank, if_neg (Nat.ne_of_gt hLow), if_pos hHigh]

theorem loopRank_behind
    {address : Nat}
    (hLow : start ≤ jump)
    (hBehind : jump < address) :
    loopRank rank start jump top last address = last := by
  rw [loopRank,
    if_neg (Nat.ne_of_gt (Nat.lt_of_le_of_lt hLow hBehind)),
    if_neg (Nat.not_le_of_lt hBehind)]

/-
  A loop descends if its choice is ranked above the body and
  what follows, and the jump back above the choice.
-/
theorem Descends.loop
    {isLazy : Bool}
    (hInside : start < jump)
    (hChoice :
      machine.code[start]? =
        some (.enterOrSkip isLazy (start + 1) (jump + 1)))
    (hJump : machine.code[jump]? = some (.jump start))
    (hBody : machine.Descends rank (start + 1) jump)
    (hEnter : rank (start + 1) < top)
    (hSkip : last < top)
    (hBack : top < rank jump) :
    machine.Descends (loopRank rank start jump top last) start
      (jump + 1) := by
  intro thread next hLow hHigh hLimit hNext
  rcases Nat.eq_or_lt_of_le hLow with hHere | hLater
  · rcases hNext.chosen hChoice hHere.symm with
      ⟨hPos, hThrough | hAround⟩
    · refine ⟨by omega, by omega, Or.inr ⟨hPos, ?_⟩⟩
      rw [hThrough, ← hHere, loopRank_start,
        loopRank_inside (Nat.lt_succ_self start) hInside]
      exact hEnter
    · refine ⟨by omega, by omega, Or.inr ⟨hPos, ?_⟩⟩
      rw [hAround, ← hHere, loopRank_start,
        loopRank_behind (Nat.le_of_lt hInside)
          (Nat.lt_succ_self jump)]
      exact hSkip
  · rcases Nat.lt_succ_iff_lt_or_eq.mp hHigh with
      hBefore | hBehind
    · rcases hBody hLater hBefore hLimit hNext with
        ⟨hFrom, hTo, hProgress⟩
      refine ⟨by omega, by omega, ?_⟩
      rw [Progress, loopRank_inside hLater (Nat.le_of_lt hBefore),
        loopRank_inside hFrom hTo]
      exact hProgress
    · rcases hNext.jumped hJump hBehind with ⟨hPos, hAddress⟩
      refine ⟨by omega, by omega, Or.inr ⟨hPos, ?_⟩⟩
      rw [hAddress, hBehind, loopRank_start,
        loopRank_inside hInside (Nat.le_refl jump)]
      exact hBack

end Loops

/-
  A barred body can be gone round. The choice is ranked
  above the beginning of the body, the jump back above the
  choice, and the end of the body like the jump, which
  leaves the beginning of the body as it is.
-/
theorem Barred.loop
    (isLazy : Bool)
    (hLength : ∀ start, (body start).length = size)
    (hBody : machine.Barred body size) :
    machine.Ranked (Code.loop body size isLazy) (2 + size) := by
  intro start hCode last
  rcases hBody hCode.tail.left with ⟨first, hFirst⟩
  let top := max first last + 1
  rcases hFirst (top + 1) with ⟨rank, hStart, hEnd, hRank⟩
  have hBack := hCode.tail.right.head
  rw [hLength] at hBack
  have hChoice := hCode.head
  have hBehind : start + (2 + size) = start + 1 + size + 1 := by
    omega
  rw [show start + 2 + size = start + 1 + size + 1 by omega]
    at hChoice
  refine ⟨loopRank rank start (start + 1 + size) top last,
    ?_, ?_⟩
  · exact loopRank_behind (by omega) (by omega)
  · rw [hBehind]
    exact Descends.loop (by omega) hChoice hBack hRank
      (by omega) (by omega) (by omega)

/-
  Copies that may be left out from any one on. They all skip
  to the address behind the last of them.
-/
theorem Ranked.skippingCopies
    {isLazy : Bool}
    {n start skip : Nat}
    (hLength : ∀ start, (body start).length = size)
    (hBody : 0 < n → machine.Ranked body size)
    (hSkip : start + n * (1 + size) = skip)
    (hCode :
      (Code.optionalCopies body size isLazy skip n
        start).StandsAt start machine.code)
    (last : Nat) :
    ∃ rank : Nat → Nat,
      rank skip = last ∧ machine.Descends rank start skip := by
  induction n generalizing start with
  | zero =>
      obtain rfl : start = skip := by omega
      exact ⟨fun _ => last, rfl, Descends.nothing _ _⟩
  | succ n ih =>
      have hFirst := hBody (Nat.succ_pos n)
      simp only [Code.optionalCopies, Code.copies_succ] at hCode
      have hNext := hCode.right
      have hGuarded :
          (Code.guarded body isLazy skip start).length =
            1 + size := by
        simp [Code.guarded, hLength, Nat.add_comm]
      rw [hGuarded, ← Nat.add_assoc] at hNext
      have hRest : start + 1 + size + n * (1 + size) = skip := by
        rw [← hSkip, Nat.succ_mul]
        omega
      rcases ih (fun _ => hFirst) hRest hNext with
        ⟨other, hLast, hAfter⟩
      rcases hFirst hCode.left.tail
          (other (start + 1 + size)) with
        ⟨rank, hMeet, hBefore⟩
      have hBoth := hBefore.append hAfter hMeet
        (Nat.le_add_right _ _) (by omega)
      refine ⟨_, ?_, hBoth.choice hCode.left.head (by omega)
        (Nat.le_refl _)⟩
      rw [Function.update_of_ne (by omega), if_neg (by omega)]
      exact hLast

theorem Ranked.optionalCopies
    (isLazy : Bool)
    (hLength : ∀ start, (body start).length = size)
    (n : Nat)
    (hBody : 0 < n → machine.Ranked body size) :
    machine.Ranked
      (fun start =>
        Code.optionalCopies body size isLazy
          (start + n * (1 + size)) n start)
      (n * (1 + size)) := by
  intro start hCode last
  exact skippingCopies hLength hBody rfl hCode last

end Machine

------------------------------------------------------------
-- Elements and patterns
------------------------------------------------------------

variable {machine : Machine}

/-
  The code of an element can be ranked, and it is barred if
  the element is not nullable.
-/
structure Element.Ordered
    (machine : Machine)
    (element : Element) : Prop where
  ranked : machine.Ranked element.code element.codeSize
  barred : element.nullable = false →
    machine.Barred element.code element.codeSize

/- An instruction is ordered like the paths it stands for. -/
theorem Element.Ordered.instruction
    {element : Element}
    {instruction : Instruction}
    (hCode : element.code = fun _ => [instruction])
    (hSize : element.codeSize = 1)
    (hBounds : element.wellBounded = true)
    (hPerforms :
      machine.window.Performs instruction
        (element.paths machine.window)) :
    element.Ordered machine where
  ranked := by
    rw [hCode, hSize]
    exact Machine.Ranked.instruction hPerforms
      element.paths_forward
  barred := by
    intro hNullable
    rw [hCode, hSize]
    exact Machine.Barred.instruction hPerforms
      (Element.paths_consuming element hBounds hNullable)

/- A repetition that is not nullable has a required copy. -/
theorem Element.barred_required
    {body : Element}
    {min : Int}
    {max : Option Int}
    {isLazy : Bool}
    (hMin : 0 ≤ min)
    (hNullable :
      (Element.repeated body min max isLazy).nullable = false)
    (hBody :
      0 < requiredCopies min → body.Ordered machine) :
    machine.Barred
      (Code.copies body.code body.codeSize
        (requiredCopies min))
      (requiredCopies min * body.codeSize) := by
  simp only [Element.nullable, Bool.or_eq_false_iff,
    decide_eq_false_iff_not] at hNullable
  have hCount : ∃ n, requiredCopies min = n + 1 :=
    Nat.exists_eq_succ_of_ne_zero
      (by simp only [requiredCopies]; omega)
  rcases hCount with ⟨n, hCount⟩
  have hOrdered := hBody (by omega)
  rw [hCount]
  exact Machine.Barred.copies body.length_code n
    (hOrdered.barred hNullable.2) hOrdered.ranked

/- Only a body that consumes is gone round without a bound. -/
theorem Element.Ordered.ranked_unbounded
    {body : Element}
    (hBody : body.Ordered machine)
    (isLazy : Bool) :
    machine.Ranked
      (fun next =>
        if body.nullable then
          Code.once body.code body.codeSize isLazy next
        else
          Code.loop body.code body.codeSize isLazy next)
      (if body.nullable then
        1 + body.codeSize
      else
        2 + body.codeSize) := by
  cases hNullable : body.nullable with
  | true => exact hBody.ranked.once isLazy
  | false =>
      exact (hBody.barred hNullable).loop isLazy
        body.length_code

/- A repetition is ordered if its body is, where it is used. -/
theorem Element.ordered_repeated
    {body : Element}
    {min : Int}
    {max : Option Int}
    {isLazy : Bool}
    (hMatchable :
      (Element.repeated body min max isLazy).matchable = true)
    (hBounds :
      (Element.repeated body min max isLazy).wellBounded =
        true)
    (hBody :
      body.matchable = true →
      body.wellBounded = true →
        body.Ordered machine) :
    (Element.repeated body min max isLazy).Ordered machine := by
  simp only [Element.matchable, Bool.or_eq_true,
    Bool.and_eq_true, decide_eq_true_eq] at hMatchable
  simp only [Element.wellBounded, Bool.and_eq_true,
    decide_eq_true_eq] at hBounds
  have hLength := body.length_code
  have hSize := Code.length_copies hLength (requiredCopies min)
  have hRequired :
      0 < requiredCopies min → body.Ordered machine := by
    intro hEntered
    refine hBody (hMatchable.resolve_left ?_) hBounds.2
    exact fun hNone => Nat.ne_of_gt hEntered hNone.1
  have hCopies := Machine.Ranked.copies hLength
    (requiredCopies min) fun hEntered =>
      (hRequired hEntered).ranked
  cases max with
  | some most =>
      have hFurther :=
        Machine.Ranked.optionalCopies isLazy hLength
          (furtherCopies min most) fun hEntered =>
            (hBody
              (hMatchable.resolve_left fun hNone =>
                Nat.ne_of_gt hEntered (by simpa using hNone.2))
              hBounds.2).ranked
      exact
        { ranked := hCopies.append hFurther hSize
          barred := fun hNullable =>
            (Element.barred_required hBounds.1 hNullable
              hRequired).append hFurther hSize }
  | none =>
      have hOrdered :=
        hBody (hMatchable.resolve_left (by simp)) hBounds.2
      have hFurther := hOrdered.ranked_unbounded isLazy
      exact
        { ranked := hCopies.append hFurther hSize
          barred := fun hNullable =>
            (Element.barred_required hBounds.1 hNullable
              hRequired).append hFurther hSize }

mutual

/- The code of an element is ordered. -/
theorem Element.ordered
    (hLimit :
      machine.window.limit ≤ machine.window.symbols.size) :
    (element : Element) →
      element.matchable = true →
      element.wellBounded = true →
        element.Ordered machine
  | .literal symbol, _, _ =>
      .instruction rfl rfl rfl (Window.performs_literal symbol)
  | .category ref, _, _ =>
      .instruction rfl rfl rfl (Window.performs_category ref)
  | .wildcard, _, _ =>
      .instruction rfl rfl rfl (Window.performs_any hLimit)
  | .gap isLazy, _, _ =>
      { ranked :=
          (Machine.Barred.instruction
            (Window.performs_any hLimit)
            Window.consumeAny_consuming).loop isLazy
              fun _ => rfl
        barred := by simp [Element.nullable] }
  | .edge, _, _ =>
      .instruction rfl rfl rfl Window.performs_edge
  | .null, _, _ =>
      { ranked := Machine.Ranked.nothing
        barred := by simp [Element.nullable] }
  | .target reversed, _, _ =>
      .instruction rfl rfl rfl
        (Window.performs_target reversed)
  | .ditto, _, _ =>
      .instruction rfl rfl rfl (Window.performs_ditto hLimit)
  | .optional body isLazy, hMatchable, hBounds =>
      { ranked :=
          (Pattern.ranked hLimit body hMatchable
            hBounds).once isLazy
        barred := by simp [Element.nullable] }
  | .repeated _ _ _ _, hMatchable, hBounds =>
      Element.ordered_repeated hMatchable hBounds
        (Element.ordered hLimit _)
  | .foreign _, hMatchable, _ => by
      simp [Element.matchable] at hMatchable

/- The code of a pattern can be ranked. -/
theorem Pattern.ranked
    (hLimit :
      machine.window.limit ≤ machine.window.symbols.size) :
    (pattern : Pattern) →
      Pattern.matchable pattern = true →
      Pattern.wellBounded pattern = true →
        machine.Ranked (Pattern.code pattern)
          (Pattern.codeSize pattern)
  | [], _, _ => Machine.Ranked.nothing
  | element :: rest, hMatchable, hBounds => by
      simp only [Pattern.matchable, Bool.and_eq_true]
        at hMatchable
      simp only [Pattern.wellBounded, Bool.and_eq_true]
        at hBounds
      have hElement :=
        Element.ordered hLimit element hMatchable.1 hBounds.1
      have hRest :=
        Pattern.ranked hLimit rest hMatchable.2 hBounds.2
      exact hElement.ranked.append hRest element.length_code

end

------------------------------------------------------------
-- Whole programs
------------------------------------------------------------

/- An acceptance leads to no other thread. -/
theorem Machine.Next.not_accept
    {thread next : Thread}
    (hNext : machine.Next thread next) :
    machine.code[thread.address]? ≠ some .accept := by
  intro hAccept
  rcases hNext with ⟨instruction, threads, hCode, hStep, _⟩
  rw [hCode] at hAccept
  obtain rfl := Option.some.inj hAccept
  cases hStep

/- The addresses of a program can be ranked. -/
theorem Pattern.exists_rank
    {pattern : Pattern}
    (hMatchable : Pattern.matchable pattern = true)
    (hBounds : Pattern.wellBounded pattern = true)
    (hProgram : machine.code = pattern.program.toArray)
    (hFits :
      machine.window.limit ≤ machine.window.symbols.size) :
    ∃ rank : Nat → Nat, ∀ ⦃thread next : Thread⦄,
      thread.pos ≤ machine.window.limit →
      machine.Next thread next →
        Machine.Progress rank thread next := by
  have hCode :
      (Pattern.code pattern 0 ++ [Instruction.accept]).StandsAt 0
        machine.code := by
    rw [hProgram]
    exact Code.StandsAt.self pattern.program
  have hEnd := hCode.right.head
  rw [Pattern.length_code, Nat.zero_add] at hEnd
  rcases Pattern.ranked hFits pattern hMatchable hBounds
      hCode.left 0 with
    ⟨rank, _, hRank⟩
  refine ⟨rank, ?_⟩
  intro thread next hLimit hNext
  have hSize :
      machine.code.size = Pattern.codeSize pattern + 1 := by
    simp [hProgram, Pattern.program, Pattern.length_code]
  have hInside : thread.address < machine.code.size := by
    rcases hNext with ⟨_, _, hInstruction, _⟩
    exact (Array.getElem?_eq_some_iff.mp hInstruction).1
  have hBefore :
      thread.address ≠ Pattern.codeSize pattern := by
    intro hLast
    apply hNext.not_accept
    rw [hLast]
    exact hEnd
  exact
    (hRank (Nat.zero_le _) (by omega) hLimit hNext).2.2

/- Threads that lead to one another keep to the limit. -/
theorem Machine.Next.pos_le
    {thread next : Thread}
    (hLimit : thread.pos ≤ machine.window.limit)
    (hNext : machine.Next thread next) :
    next.pos ≤ machine.window.limit := by
  rcases hNext with ⟨_, _, _, hStep, hMem⟩
  exact (Window.step_within hLimit hStep hMem).2

/- Progress adds up over any number of instructions. -/
theorem Machine.progress_of_transGen
    {rank : Nat → Nat}
    (hRank : ∀ ⦃thread next : Thread⦄,
      thread.pos ≤ machine.window.limit →
      machine.Next thread next →
        Machine.Progress rank thread next)
    {thread later : Thread}
    (hLimit : thread.pos ≤ machine.window.limit)
    (hLeads : Relation.TransGen machine.Next thread later) :
    later.pos ≤ machine.window.limit ∧
      Machine.Progress rank thread later := by
  induction hLeads with
  | single hNext =>
      exact ⟨hNext.pos_le hLimit, hRank hLimit hNext⟩
  | tail _ hNext ih =>
      rcases ih with ⟨hBelow, hSoFar⟩
      have hStep := hRank hBelow hNext
      refine ⟨hNext.pos_le hBelow, ?_⟩
      simp only [Machine.Progress] at hSoFar hStep ⊢
      omega

/-
  A match at any position takes a fixed number of steps,
  whatever the budget is: with fewer steps it is abandoned,
  and with all other budgets it comes to one and the same
  result. A budget below zero counts as none. The machine
  never comes back to an instruction without having consumed
  a symbol in between.
-/
theorem Pattern.matchAt_terminates
    {pattern : Pattern}
    (hMatchable : Pattern.matchable pattern = true)
    (hBounds : Pattern.wellBounded pattern = true)
    (word : WordArray)
    (start : Int)
    (request : MatchRequest) :
    (∃ steps : Nat, ∃ result : Option Match,
      ∀ budget : Int,
        (steps ≤ budget.toNat →
          Pattern.matchAt pattern word start
              { request with budget := budget } =
            .ok result) ∧
        (budget.toNat < steps →
          Pattern.matchAt pattern word start
              { request with budget := budget } =
            .error (.outOfSteps (budget.toNat + 1)))) ∧
      ∀ thread later : Thread,
        thread.pos ≤ (request.window word).limit →
        Relation.TransGen
          (request.machine pattern word start.toNat).Next
          thread later →
        later.address = thread.address →
          thread.pos < later.pos := by
  constructor
  · by_cases hInside : start < 0 ∨ request.limitIn word < start
    · refine ⟨0, none, ?_⟩
      intro budget
      refine ⟨?_, by omega⟩
      intro _
      have hOutside :
          start < 0 ∨
            MatchRequest.limitIn
              { request with budget := budget } word < start :=
        hInside
      simp [Pattern.matchAt, hMatchable, hOutside]
    · obtain ⟨first, rfl⟩ := Int.eq_ofNat_of_zero_le
        (show 0 ≤ start by omega)
      rcases Pattern.matchAt_eq hMatchable hBounds word request
          (by omega : (first : Int) ≤ request.limitIn word) with
        ⟨steps, hSteps⟩
      refine ⟨steps,
        request.choose first
          (Pattern.paths (request.window word) pattern
            (request.point first)),
        ?_⟩
      intro budget
      constructor
      · intro hEnough
        exact (hSteps budget).trans
          (if_neg (Nat.not_lt_of_le hEnough))
      · intro hFew
        exact (hSteps budget).trans (if_pos hFew)
  · intro thread later hLimit hLeads hAddress
    let machine := request.machine pattern word start.toNat
    have hFits :
        machine.window.limit ≤ machine.window.symbols.size :=
      request.limit_window_le word
    rcases Pattern.exists_rank hMatchable hBounds rfl hFits
      with ⟨rank, hRank⟩
    have hProgress :=
      (Machine.progress_of_transGen hRank hLimit hLeads).2
    simp only [Machine.Progress, hAddress] at hProgress
    omega

/-
  Runs of runs of one vowel, then anything at all, then the
  vowel again in a group that is repeated though it may be
  left out.
-/
def nestedLoops : Pattern :=
  let vowel : CategoryRef :=
    { category := some
        { name := "V"
          members := [[.symbol "a"], [.symbol "a", .edge]] }
      name := "V"
      slot := some "^1"
      explicit := true }
  [ .repeated
      (.repeated (.category vowel) 1 none false) 0 none true,
    .gap true,
    .repeated (.optional [.edge, .category vowel] false)
      1 none false ]

theorem nestedLoops_terminates :
    let word : WordArray := #["a", "a", "a"]
    Pattern.matchable nestedLoops = true ∧
      Pattern.wellBounded nestedLoops = true ∧
      (∃ steps : Nat, ∃ result : Option Match,
        ∀ budget : Int,
          (steps ≤ budget.toNat →
            Pattern.matchAt nestedLoops word 0
                { budget := budget } =
              .ok result) ∧
          (budget.toNat < steps →
            Pattern.matchAt nestedLoops word 0
                { budget := budget } =
              .error (.outOfSteps (budget.toNat + 1)))) ∧
        ∀ thread later : Thread,
          thread.pos ≤
            (({} : MatchRequest).window word).limit →
          Relation.TransGen
            (({} : MatchRequest).machine nestedLoops word
              0).Next
            thread later →
          later.address = thread.address →
            thread.pos < later.pos :=
  ⟨by decide, by decide,
    Pattern.matchAt_terminates (by decide) (by decide) _ 0 {}⟩

end Diachrony
