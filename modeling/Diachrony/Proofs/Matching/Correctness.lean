import Diachrony.Proofs.Matching.Exploration
import Diachrony.Proofs.Matching.Extent
import Diachrony.Proofs.Matching.Instructions
import Diachrony.Proofs.Matching.Progress
import Diachrony.Proofs.Pattern.Layout

/-
  The matching machine finds the chosen path.

  The code of an element explores the paths of the element:
  wherever it is laid out, a thread that enters it visits
  what follows each path, in the order of the paths. So the
  program of a pattern visits the ends of its paths, and the
  match that a run settles on is the one that is chosen from
  the list of paths.

  Key definitions include:
    * `Machine.Explores`

  Key theorems include:
    * `Machine.Explores.loop`
    * `Element.explores`
    * `Pattern.visits_program`
    * `Pattern.matchAt_eq_choose`
-/

namespace Diachrony

namespace Machine

------------------------------------------------------------
-- Exploring code
------------------------------------------------------------

/-
  Code of a given size explores a list of points if a thread
  that enters it leads to what follows each of the points
  behind the code, one point after another.
-/
def Explores
    (machine : Machine)
    (code : Nat → Code)
    (size : Nat)
    (reach : Reach) : Prop :=
  ∀ ⦃start : Nat⦄ ⦃point : Point⦄,
    (code start).StandsAt start machine.code →
    point.pos ≤ machine.window.limit →
    ∀ after : Point → List Thread,
      (∀ reached ∈ reach point,
        machine.Visits [reached.enter (start + size)]
          (after reached)) →
      machine.Visits [point.enter start]
        ((reach point).flatMap after)

namespace Explores

variable {machine : Machine}
variable {body first second : Nat → Code}
variable {size firstSize secondSize : Nat}
variable {reach firstReach secondReach : Reach}

theorem instruction
    {instruction : Instruction}
    (hPerforms :
      machine.window.Performs instruction reach) :
    machine.Explores (fun _ => [instruction]) 1 reach := by
  intro start point hCode _ after hAfter
  apply Visits.split hCode.head (hPerforms point start)
  exact Visits.flatMap hAfter

theorem nothing :
    machine.Explores (fun _ => []) 0 (fun point => [point]) := by
  intro start point _ _ after hAfter
  simpa using hAfter point List.mem_cons_self

/- Two pieces of code, one after the other. -/
theorem append
    (hFirst : machine.Explores first firstSize firstReach)
    (hSecond : machine.Explores second secondSize secondReach)
    (hLength : ∀ start, (first start).length = firstSize)
    (hForward :
      Reach.Forward machine.window.limit firstReach) :
    machine.Explores
      (fun start => first start ++ second (start + firstSize))
      (firstSize + secondSize)
      (fun point => (firstReach point).flatMap secondReach) := by
  intro start point hCode hLimit after hAfter
  have hRight := hCode.right
  rw [hLength] at hRight
  have hBetween : ∀ between ∈ firstReach point,
      machine.Visits [between.enter (start + firstSize)]
        ((secondReach between).flatMap after) := by
    intro between hBetween
    apply hSecond hRight (hForward hLimit hBetween).2
    intro reached hReached
    rw [Nat.add_assoc]
    exact hAfter reached
      (List.mem_flatMap.mpr ⟨between, hBetween, hReached⟩)
  rw [List.flatMap_assoc]
  exact hFirst hCode.left hLimit _ hBetween

/-
  A choice between a body and what stands at another
  address. The greedy choice goes through the body first.
-/
theorem choice
    {isLazy : Bool}
    {start skip : Nat}
    {point : Point}
    {through around : List Point}
    {after : Point → List Thread}
    (hCode :
      machine.code[start]? =
        some (.enterOrSkip isLazy (start + 1) skip))
    (hThrough :
      machine.Visits [point.enter (start + 1)]
        (through.flatMap after))
    (hAround :
      machine.Visits [point.enter skip]
        (around.flatMap after)) :
    machine.Visits [point.enter start]
      ((Reach.prefer isLazy through around).flatMap after) := by
  cases isLazy with
  | false =>
      have hBoth := hThrough.append hAround
      rw [← List.flatMap_append] at hBoth
      exact Visits.split hCode rfl hBoth
  | true =>
      have hBoth := hAround.append hThrough
      rw [← List.flatMap_append] at hBoth
      exact Visits.split hCode rfl hBoth

theorem once
    (isLazy : Bool)
    (hBody : machine.Explores body size reach) :
    machine.Explores (Code.once body size isLazy) (1 + size)
      (Reach.optional isLazy reach) := by
  intro start point hCode hLimit after hAfter
  have hAddress :
      start + 1 + size = start + (1 + size) := by
    omega
  apply choice hCode.head
  · apply hBody hCode.tail hLimit
    intro reached hReached
    rw [hAddress]
    exact hAfter reached
      (Reach.mem_prefer.mpr (Or.inl hReached))
  · rw [hAddress]
    simpa using hAfter point
      (Reach.mem_prefer.mpr (Or.inr List.mem_cons_self))

theorem copies
    (hLength : ∀ start, (body start).length = size)
    (hForward : Reach.Forward machine.window.limit reach)
    (n : Nat)
    (hBody : 0 < n → machine.Explores body size reach) :
    machine.Explores (Code.copies body size n) (n * size)
      (Reach.copies reach n) := by
  induction n with
  | zero =>
      rw [Nat.zero_mul]
      exact nothing
  | succ n ih =>
      have hFirst := hBody (Nat.succ_pos n)
      have hCopies := hFirst.append (ih fun _ => hFirst)
        hLength hForward
      intro start point hCode
      rw [Code.copies_succ] at hCode
      have hSize : (n + 1) * size = size + n * size := by
        rw [Nat.succ_mul, Nat.add_comm]
      rw [hSize]
      exact hCopies hCode

/- Going round is going through the body and round again. -/
theorem loop
    (isLazy : Bool)
    (hLength : ∀ start, (body start).length = size)
    (hForward : Reach.Forward machine.window.limit reach)
    (hConsuming : Reach.Consuming machine.window.limit reach)
    (hBody : machine.Explores body size reach) :
    machine.Explores (Code.loop body size isLazy) (2 + size)
      (Reach.unbounded isLazy reach machine.window.limit) := by
  intro start point hCode hLimit after hAfter
  -- Each round leaves fewer symbols before the limit.
  generalize hLeft :
    machine.window.limit - point.pos = left
  induction left using Nat.strongRecOn generalizing point with
  | ind left ih =>
      rw [Reach.unbounded_eq hConsuming hForward hLimit]
        at hAfter ⊢
      have hBack := hCode.tail.right.head
      rw [hLength] at hBack
      apply choice hCode.head
      · rw [List.flatMap_assoc]
        apply hBody hCode.tail.left hLimit
        intro between hBetween
        have hMore := hConsuming hLimit hBetween
        have hBelow := (hForward hLimit hBetween).2
        apply Visits.split hBack rfl
        refine ih (machine.window.limit - between.pos) ?_
          hBelow ?_ rfl
        · omega
        · intro reached hReached
          apply hAfter reached
          apply Reach.mem_prefer.mpr
          exact Or.inl
            (List.mem_flatMap.mpr
              ⟨between, hBetween, hReached⟩)
      · have hSkip : start + 2 + size = start + (2 + size) := by
          omega
        rw [hSkip]
        simpa using hAfter point
          (Reach.mem_prefer.mpr (Or.inr List.mem_cons_self))

/-
  Copies that may be left out from any one on. They all skip
  to the address behind the last of them.
-/
theorem skippingCopies
    {isLazy : Bool}
    {n start skip : Nat}
    {point : Point}
    {after : Point → List Thread}
    (hLength : ∀ start, (body start).length = size)
    (hForward : Reach.Forward machine.window.limit reach)
    (hBody : 0 < n → machine.Explores body size reach)
    (hSkip : start + n * (1 + size) = skip)
    (hCode :
      (Code.optionalCopies body size isLazy skip n
        start).StandsAt start machine.code)
    (hLimit : point.pos ≤ machine.window.limit)
    (hAfter : ∀ reached ∈ Reach.upTo isLazy reach n point,
      machine.Visits [reached.enter skip] (after reached)) :
    machine.Visits [point.enter start]
      ((Reach.upTo isLazy reach n point).flatMap after) := by
  induction n generalizing start point with
  | zero =>
      have hSame : start = skip := by omega
      rw [hSame]
      simpa [Reach.upTo] using hAfter point List.mem_cons_self
  | succ n ih =>
      have hFirst := hBody (Nat.succ_pos n)
      simp only [Code.optionalCopies, Code.copies_succ] at hCode
      have hNext := hCode.right
      have hGuarded :
          (Code.guarded body isLazy skip start).length =
            1 + size := by
        simp [Code.guarded, hLength, Nat.add_comm]
      rw [hGuarded] at hNext
      have hRest : start + (1 + size) + n * (1 + size) = skip := by
        rw [← hSkip, Nat.succ_mul]
        omega
      apply choice hCode.left.head
      · rw [List.flatMap_assoc]
        apply hFirst hCode.left.tail hLimit
        intro between hBetween
        have hBelow := (hForward hLimit hBetween).2
        rw [Nat.add_assoc]
        apply ih (fun _ => hFirst) hRest hNext hBelow
        intro reached hReached
        apply hAfter reached
        apply Reach.mem_prefer.mpr
        exact Or.inl
          (List.mem_flatMap.mpr ⟨between, hBetween, hReached⟩)
      · simpa using hAfter point
          (Reach.mem_prefer.mpr (Or.inr List.mem_cons_self))

theorem optionalCopies
    (isLazy : Bool)
    (hLength : ∀ start, (body start).length = size)
    (hForward : Reach.Forward machine.window.limit reach)
    (n : Nat)
    (hBody : 0 < n → machine.Explores body size reach) :
    machine.Explores
      (fun start =>
        Code.optionalCopies body size isLazy
          (start + n * (1 + size)) n start)
      (n * (1 + size))
      (Reach.upTo isLazy reach n) := by
  intro start point hCode hLimit after hAfter
  exact skippingCopies hLength hForward hBody rfl hCode hLimit
    hAfter

end Explores

end Machine

------------------------------------------------------------
-- Elements and patterns
------------------------------------------------------------

variable {machine : Machine}

/-
  The required copies of a repetition are followed by the
  further ones. The body of a repetition that is never
  entered need not be matchable.
-/
theorem Element.explores_repeated
    {body : Element}
    {min : Int}
    {max : Option Int}
    {isLazy : Bool}
    (hMatchable :
      (Element.repeated body min max isLazy).matchable = true)
    (hBounds :
      (Element.repeated body min max isLazy).wellBounded =
        true)
    (hBody :
      body.matchable = true →
      body.wellBounded = true →
        machine.Explores body.code body.codeSize
          (body.paths machine.window)) :
    machine.Explores
      (Element.repeated body min max isLazy).code
      (Element.repeated body min max isLazy).codeSize
      ((Element.repeated body min max isLazy).paths
        machine.window) := by
  simp only [Element.matchable, Bool.or_eq_true,
    Bool.and_eq_true, decide_eq_true_eq] at hMatchable
  simp only [Element.wellBounded, Bool.and_eq_true] at hBounds
  have hLength := body.length_code
  have hForward :
      Reach.Forward machine.window.limit
        (body.paths machine.window) :=
    body.paths_forward
  have hCopies := Machine.Explores.copies hLength hForward
    (requiredCopies min) fun hEntered =>
      hBody
        (hMatchable.resolve_left fun hNone =>
          Nat.ne_of_gt hEntered hNone.1)
        hBounds.2
  have hRequired := Code.length_copies hLength
    (requiredCopies min)
  have hReached := hForward.copies (requiredCopies min)
  cases max with
  | some most =>
      have hFurther :=
        Machine.Explores.optionalCopies isLazy hLength hForward
          (furtherCopies min most) fun hEntered =>
            hBody
              (hMatchable.resolve_left fun hNone =>
                Nat.ne_of_gt hEntered (by simpa using hNone.2))
              hBounds.2
      exact hCopies.append hFurther hRequired hReached
  | none =>
      have hEntered :=
        hBody (hMatchable.resolve_left (by simp)) hBounds.2
      cases hNullable : body.nullable with
      | true =>
          have hBoth := hCopies.append (hEntered.once isLazy)
            hRequired hReached
          simpa [Element.code, Element.codeSize, Element.paths,
            Reach.further, requiredCopies, hNullable]
            using hBoth
      | false =>
          have hConsuming :
              Reach.Consuming machine.window.limit
                (body.paths machine.window) :=
            Element.paths_consuming body hBounds.2 hNullable
          have hBoth := hCopies.append
            (hEntered.loop isLazy hLength hForward hConsuming)
            hRequired hReached
          simpa [Element.code, Element.codeSize, Element.paths,
            Reach.further, requiredCopies, hNullable]
            using hBoth

mutual

/- The code of an element explores its paths. -/
theorem Element.explores
    (hLimit :
      machine.window.limit ≤ machine.window.symbols.size) :
    (element : Element) →
      element.matchable = true →
      element.wellBounded = true →
        machine.Explores element.code element.codeSize
          (element.paths machine.window)
  | .literal symbol, _, _ =>
      Machine.Explores.instruction
        (Window.performs_literal symbol)
  | .category ref, _, _ =>
      Machine.Explores.instruction
        (Window.performs_category ref)
  | .wildcard, _, _ =>
      Machine.Explores.instruction
        (Window.performs_any hLimit)
  | .gap isLazy, _, _ =>
      Machine.Explores.loop isLazy (fun _ => rfl)
        Window.consumeAny_forward
        Window.consumeAny_consuming
        (Machine.Explores.instruction
          (Window.performs_any hLimit))
  | .edge, _, _ =>
      Machine.Explores.instruction Window.performs_edge
  | .null, _, _ => Machine.Explores.nothing
  | .target reversed, _, _ =>
      Machine.Explores.instruction
        (Window.performs_target reversed)
  | .ditto, _, _ =>
      Machine.Explores.instruction
        (Window.performs_ditto hLimit)
  | .optional body isLazy, hMatchable, hBounds =>
      Machine.Explores.once isLazy
        (Pattern.explores hLimit body hMatchable hBounds)
  | .repeated _ _ _ _, hMatchable, hBounds =>
      Element.explores_repeated hMatchable hBounds
        (Element.explores hLimit _)
  | .foreign _, hMatchable, _ => by
      simp [Element.matchable] at hMatchable

/- The code of a pattern explores its paths. -/
theorem Pattern.explores
    (hLimit :
      machine.window.limit ≤ machine.window.symbols.size) :
    (pattern : Pattern) →
      Pattern.matchable pattern = true →
      Pattern.wellBounded pattern = true →
        machine.Explores (Pattern.code pattern)
          (Pattern.codeSize pattern)
          (Pattern.paths machine.window pattern)
  | [], _, _ => Machine.Explores.nothing
  | element :: rest, hMatchable, hBounds => by
      simp only [Pattern.matchable, Bool.and_eq_true]
        at hMatchable
      simp only [Pattern.wellBounded, Bool.and_eq_true]
        at hBounds
      have hElement :=
        Element.explores hLimit element hMatchable.1 hBounds.1
      have hRest :=
        Pattern.explores hLimit rest hMatchable.2 hBounds.2
      exact hElement.append hRest element.length_code
        element.paths_forward

end

/-
  The program of a pattern visits the ends of the paths of
  the pattern, in their order.
-/
theorem Pattern.visits_program
    (pattern : Pattern)
    (hMatchable : Pattern.matchable pattern = true)
    (hBounds : Pattern.wellBounded pattern = true)
    (hProgram : machine.code = pattern.program.toArray)
    (hFits :
      machine.window.limit ≤ machine.window.symbols.size)
    (point : Point)
    (hLimit : point.pos ≤ machine.window.limit) :
    machine.Visits [point.enter 0]
      ((Pattern.paths machine.window pattern point).map
        fun reached =>
          reached.enter (Pattern.codeSize pattern)) := by
  have hCode :
      (Pattern.code pattern 0 ++ [Instruction.accept]).StandsAt 0
        machine.code := by
    rw [hProgram]
    exact Code.StandsAt.self pattern.program
  have hEnd := hCode.right.head
  rw [Pattern.length_code, Nat.zero_add] at hEnd
  rw [List.map_eq_flatMap]
  apply Pattern.explores hFits pattern hMatchable hBounds
    hCode.left hLimit
  intro reached _
  rw [Nat.zero_add]
  exact Machine.Visits.accept hEnd Machine.Visits.done

------------------------------------------------------------
-- Choosing among the visited paths
------------------------------------------------------------

/- A path replaces the best one so far if it is longer. -/
theorem argAux_eq
    (best : Option Point)
    (point : Point) :
    List.argAux
        (fun one other : Point => other.pos < one.pos)
        best point =
      if best.all fun other => other.pos < point.pos then
        some point
      else
        best := by
  cases best with
  | none => rfl
  | some other => simp [List.argAux]

/- Nothing that is no longer replaces the longest path so far. -/
theorem foldl_argAux_of_le
    {points : List Point}
    {best : Point}
    (hLonger : ∀ point ∈ points, point.pos ≤ best.pos) :
    points.foldl
        (List.argAux fun one other : Point =>
          other.pos < one.pos)
        (some best) =
      some best := by
  induction points with
  | nil => rfl
  | cons point rest ih =>
      have hPoint := hLonger point List.mem_cons_self
      have hKept : ¬best.pos < point.pos := by omega
      simp only [List.foldl_cons, argAux_eq, Option.all_some,
        hKept, decide_false, Bool.false_eq_true, if_false]
      exact ih fun other hOther =>
        hLonger other (List.mem_cons_of_mem _ hOther)

namespace MatchRequest

variable {request : MatchRequest}
variable {pattern : Pattern}
variable {word : WordArray}
variable {start : Nat}

@[simp] theorem longest_machine :
    (request.machine pattern word start).longest =
      request.longest :=
  rfl

@[simp] theorem window_machine :
    (request.machine pattern word start).window =
      request.window word :=
  rfl

@[simp] theorem pos_enter
    (point : Point)
    (address : Nat) :
    (point.enter address).pos = point.pos :=
  rfl

@[simp] theorem accepts_enter
    (point : Point)
    (address : Nat) :
    (request.machine pattern word start).accepts
        (point.enter address) =
      request.admits point :=
  rfl

@[simp] theorem found_enter
    (point : Point)
    (address : Nat) :
    (request.machine pattern word start).found
        (point.enter address) =
      point.toMatch start :=
  rfl

@[simp] theorem improves_enter
    (point : Point)
    (address : Nat)
    (best : Option Point) :
    Machine.improves (point.enter address)
        (best.map (Point.toMatch start)) =
      best.all fun other => other.pos < point.pos := by
  cases best <;> rfl

/-
  If any match will do, the first admitted path is settled
  on.
-/
theorem settle_first
    (hLongest : request.longest = false)
    (address : Nat)
    (points : List Point) :
    (request.machine pattern word start).settle
        (points.map fun point => point.enter address) none =
      (points.filter request.admits).head?.map
        (Point.toMatch start) := by
  induction points with
  | nil => rfl
  | cons point rest ih =>
      cases hAdmits : request.admits point with
      | false =>
          simpa [Machine.settle, hAdmits] using ih
      | true =>
          simp [Machine.settle, hAdmits, hLongest]

/-
  The longest admitted path is settled on. A path that ends
  at the limit ends the search, since no other can be
  longer.
-/
theorem settle_longest
    (hLongest : request.longest = true)
    (address : Nat)
    {points : List Point}
    (hLimit : ∀ point ∈ points,
      point.pos ≤ (request.window word).limit)
    (best : Option Point) :
    (request.machine pattern word start).settle
        (points.map fun point => point.enter address)
        (best.map (Point.toMatch start)) =
      ((points.filter request.admits).foldl
        (List.argAux fun one other : Point =>
          other.pos < one.pos)
        best).map (Point.toMatch start) := by
  induction points generalizing best with
  | nil => rfl
  | cons point rest ih =>
      have hRest := ih fun other hOther =>
        hLimit other (List.mem_cons_of_mem _ hOther)
      cases hAdmits : request.admits point with
      | false =>
          simpa [Machine.settle, hAdmits] using hRest best
      | true =>
      cases hImproves :
          best.all fun other => other.pos < point.pos with
      | false =>
          simpa [Machine.settle, hAdmits, hLongest, hImproves,
            argAux_eq] using hRest best
      | true =>
      by_cases hEnd : point.pos = (request.window word).limit
      · have hShorter : ∀ other ∈ rest.filter request.admits,
            other.pos ≤ point.pos := by
          intro other hOther
          rw [hEnd]
          exact hLimit other (List.mem_cons_of_mem _
            (List.mem_of_mem_filter hOther))
        simp only [List.filter_cons, hAdmits, if_true,
          List.foldl_cons, argAux_eq, hImproves,
          foldl_argAux_of_le hShorter, Option.map_some]
        simp [Machine.settle, hAdmits, hLongest, hImproves,
          ← hEnd]
      · simpa [Machine.settle, hAdmits, hLongest, hImproves,
          argAux_eq, hEnd] using hRest (some point)

/-
  What is settled on is what is chosen from the list of
  paths.
-/
theorem settle_eq_choose
    (address : Nat)
    {points : List Point}
    (hLimit : ∀ point ∈ points,
      point.pos ≤ (request.window word).limit) :
    (request.machine pattern word start).settle
        (points.map fun point => point.enter address) none =
      request.choose start points := by
  unfold choose
  cases hLongest : request.longest with
  | false => exact settle_first hLongest address points
  | true => exact settle_longest hLongest address hLimit none

end MatchRequest

------------------------------------------------------------
-- Matching at a position
------------------------------------------------------------

/-
  A match at a position inside the word settles, after a
  fixed number of steps, on the path that is chosen.
-/
theorem Pattern.settles
    {pattern : Pattern}
    (hMatchable : Pattern.matchable pattern = true)
    (hBounds : Pattern.wellBounded pattern = true)
    (word : WordArray)
    (request : MatchRequest)
    {start : Nat}
    (hStart : (start : Int) ≤ request.limitIn word) :
    (request.machine pattern word start).Settles
      [request.thread start] none
      (request.choose start
        (Pattern.paths (request.window word) pattern
          (request.point start))) := by
  have hLimit : start ≤ (request.window word).limit := by
    simp only [MatchRequest.window]
    omega
  have hVisits :
      (request.machine pattern word start).Visits
        [request.thread start]
        ((Pattern.paths (request.window word) pattern
          (request.point start)).map fun reached =>
            reached.enter (Pattern.codeSize pattern)) :=
    Pattern.visits_program pattern hMatchable hBounds rfl
      (request.limit_window_le word) (request.point start)
      hLimit
  have hBelow : ∀ reached ∈
      Pattern.paths (request.window word) pattern
        (request.point start),
      reached.pos ≤ (request.window word).limit :=
    fun reached hReached =>
      (Pattern.paths_forward pattern hLimit hReached).2
  have hSettles := hVisits.settles none
  rw [MatchRequest.settle_eq_choose _ hBelow] at hSettles
  exact hSettles

/- At a position inside the word the machine decides. -/
theorem Pattern.matchAt_inside
    {pattern : Pattern}
    (hMatchable : Pattern.matchable pattern = true)
    (word : WordArray)
    (request : MatchRequest)
    {start : Nat}
    (hStart : (start : Int) ≤ request.limitIn word) :
    Pattern.matchAt pattern word start request =
      ((request.machine pattern word start).run
        request.budget.toNat request.budget.toNat
        [request.thread start] none).mapError
        fun exceeded => .outOfSteps exceeded.steps := by
  have hInside :
      ¬((start : Int) < 0 ∨ request.limitIn word < start) := by
    omega
  simp only [Pattern.matchAt, hMatchable, Bool.not_true,
    Bool.false_eq_true, if_false, Int.toNat_natCast,
    if_neg hInside]
  cases (request.machine pattern word start).run
    request.budget.toNat request.budget.toNat
    [request.thread start] none <;> rfl

/-
  A match at a position inside the word takes a fixed number
  of steps. With a smaller budget it is abandoned, and with
  any other it finds the path that is chosen.
-/
theorem Pattern.matchAt_eq
    {pattern : Pattern}
    (hMatchable : Pattern.matchable pattern = true)
    (hBounds : Pattern.wellBounded pattern = true)
    (word : WordArray)
    (request : MatchRequest)
    {start : Nat}
    (hStart : (start : Int) ≤ request.limitIn word) :
    ∃ steps, ∀ budget : Int,
      Pattern.matchAt pattern word start
          { request with budget := budget } =
        if budget.toNat < steps then
          .error (.outOfSteps (budget.toNat + 1))
        else
          .ok (request.choose start
            (Pattern.paths (request.window word) pattern
              (request.point start))) := by
  rcases Pattern.settles hMatchable hBounds word request hStart
    with ⟨steps, hSteps⟩
  refine ⟨steps, ?_⟩
  intro budget
  rw [Pattern.matchAt_inside hMatchable word
    { request with budget := budget } hStart]
  have hRun := hSteps budget.toNat budget.toNat
  change
    ((request.machine pattern word start).run budget.toNat
      budget.toNat [request.thread start] none).mapError _ = _
  rw [hRun]
  split <;> rfl

/-
  A match that is decided within its budget is the one that
  is chosen from the list of paths.
-/
theorem Pattern.matchAt_eq_choose
    {pattern : Pattern}
    (hBounds : Pattern.wellBounded pattern = true)
    (word : WordArray)
    (request : MatchRequest)
    {start : Nat}
    (hStart : (start : Int) ≤ request.limitIn word)
    {result : Option Match}
    (hResult :
      Pattern.matchAt pattern word start request = .ok result) :
    result =
      request.choose start
        (Pattern.paths (request.window word) pattern
          (request.point start)) := by
  cases hMatchable : Pattern.matchable pattern with
  | false => simp [Pattern.matchAt, hMatchable] at hResult
  | true =>
      rcases Pattern.matchAt_eq hMatchable hBounds word request
        hStart with ⟨steps, hSteps⟩
      rw [hSteps request.budget] at hResult
      split at hResult
      · cases hResult
      · exact (Except.ok.inj hResult).symm

/-
  Any number of runs of one and the same sibilant, then
  possibly one more copy of the last symbol at a word edge,
  left out by preference.
-/
def sibilantRuns : Pattern :=
  let sibilant : CategoryRef :=
    { category := some
        { name := "S"
          members := [[.symbol "s"], [.symbol "t", .symbol "s"]] }
      name := "S"
      slot := some "^1"
      explicit := true }
  [ .repeated
      (.repeated (.category sibilant) 1 none true) 0 none false,
    .optional [.ditto, .edge] true ]

theorem sibilantRuns_matchAt :
    let word : WordArray := #["t", "s", "t", "s", "s"]
    let request : MatchRequest := { budget := 100 }
    let found : Match := ⟨0, 5, [("^1", 1)]⟩
    Pattern.wellBounded sibilantRuns = true ∧
      (0 : Nat) ≤ request.limitIn word ∧
      Pattern.matchAt sibilantRuns word (0 : Nat) request =
        .ok (some found) ∧
      some found =
        request.choose 0
          (Pattern.paths (request.window word) sibilantRuns
            (request.point 0)) :=
  ⟨by decide, by decide, by decide,
    Pattern.matchAt_eq_choose (by decide) _ _ (by decide)
      (by decide)⟩

end Diachrony
