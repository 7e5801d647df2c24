import Diachrony.Proofs.Matching.Paths

/-
  Progress along paths.

  No path goes back, and none goes beyond the limit. An
  element that is not nullable consumes a symbol on each of
  its paths, so a repetition of it comes to an end by
  itself, and the bound on its copies makes no difference.

  Key theorems include:
    * `Reach.upTo_eq_upTo`
    * `Reach.unbounded_eq`
    * `Pattern.paths_forward`
    * `Element.paths_consuming`
-/

namespace Diachrony

------------------------------------------------------------
-- Forward and consuming steps
------------------------------------------------------------

namespace Reach

/-
  Points are reached neither before the start nor beyond a
  limit.
-/
def Forward
    (limit : Nat)
    (reach : Reach) : Prop :=
  ∀ ⦃point reached : Point⦄,
    point.pos ≤ limit →
    reached ∈ reach point →
      point.pos ≤ reached.pos ∧ reached.pos ≤ limit

/- A symbol is consumed on the way to each point. -/
def Consuming
    (limit : Nat)
    (reach : Reach) : Prop :=
  ∀ ⦃point reached : Point⦄,
    point.pos ≤ limit →
    reached ∈ reach point →
      point.pos < reached.pos

variable {limit : Nat}
variable {body first second : Reach}

@[simp] theorem mem_prefer
    {isLazy : Bool}
    {through around : List Point}
    {reached : Point} :
    reached ∈ prefer isLazy through around ↔
      reached ∈ through ∨ reached ∈ around := by
  cases isLazy with
  | false => simp [prefer]
  | true => simp [prefer, or_comm]

/- Staying where one is goes neither back nor too far. -/
theorem Forward.stay :
    Forward limit (fun point => [point]) := by
  intro point reached hLimit hReached
  rw [List.mem_singleton] at hReached
  subst hReached
  exact ⟨Nat.le_refl _, hLimit⟩

theorem Forward.flatMap
    (hFirst : Forward limit first)
    (hSecond : Forward limit second) :
    Forward limit
      (fun point => (first point).flatMap second) := by
  intro point reached hLimit hReached
  rcases List.mem_flatMap.mp hReached with
    ⟨between, hBetween, hReached⟩
  have hUp := hFirst hLimit hBetween
  have hOn := hSecond hUp.2 hReached
  exact ⟨Nat.le_trans hUp.1 hOn.1, hOn.2⟩

/- One consuming step is enough. -/
theorem Consuming.flatMap
    (hConsuming : Consuming limit first)
    (hFirst : Forward limit first)
    (hSecond : Forward limit second) :
    Consuming limit
      (fun point => (first point).flatMap second) := by
  intro point reached hLimit hReached
  rcases List.mem_flatMap.mp hReached with
    ⟨between, hBetween, hReached⟩
  have hUp := hConsuming hLimit hBetween
  have hOn := hSecond (hFirst hLimit hBetween).2 hReached
  exact Nat.lt_of_lt_of_le hUp hOn.1

theorem Forward.optional
    {isLazy : Bool}
    (hBody : Forward limit body) :
    Forward limit (optional isLazy body) := by
  intro point reached hLimit hReached
  rcases mem_prefer.mp hReached with hThrough | hAround
  · exact hBody hLimit hThrough
  · exact Forward.stay hLimit hAround

theorem Forward.copies
    (hBody : Forward limit body)
    (n : Nat) :
    Forward limit (copies body n) := by
  induction n with
  | zero => exact Forward.stay
  | succ n ih => exact hBody.flatMap ih

theorem Forward.upTo
    {isLazy : Bool}
    (hBody : Forward limit body)
    (n : Nat) :
    Forward limit (upTo isLazy body n) := by
  induction n with
  | zero => exact Forward.stay
  | succ n ih => exact (hBody.flatMap ih).optional

theorem Forward.unbounded
    {isLazy : Bool}
    (hBody : Forward limit body) :
    Forward limit (unbounded isLazy body limit) := by
  intro point reached hLimit hReached
  exact hBody.upTo (limit - point.pos) hLimit hReached

theorem Forward.further
    {isLazy nullable : Bool}
    (hBody : Forward limit body)
    (most : Option Nat) :
    Forward limit
      (further isLazy nullable limit body most) := by
  cases most with
  | some n => exact hBody.upTo n
  | none =>
      cases nullable with
      | true => exact hBody.optional
      | false => exact hBody.unbounded

------------------------------------------------------------
-- Unbounded repetition
------------------------------------------------------------

/- At the limit a consuming body has nothing left to consume. -/
theorem Consuming.eq_nil
    (hConsuming : Consuming limit body)
    (hForward : Forward limit body)
    {point : Point}
    (hLimit : point.pos = limit) :
    body point = [] := by
  apply List.eq_nil_iff_forall_not_mem.mpr
  intro reached hReached
  have hMore := hConsuming (by omega) hReached
  have hLess := (hForward (by omega) hReached).2
  omega

/- At the limit no copy can be made, however many are allowed. -/
theorem upTo_at_limit
    {isLazy : Bool}
    (hConsuming : Consuming limit body)
    (hForward : Forward limit body)
    (n : Nat)
    {point : Point}
    (hLimit : point.pos = limit) :
    upTo isLazy body n point = [point] := by
  have hNone := hConsuming.eq_nil hForward hLimit
  cases n with
  | zero => rfl
  | succ n => cases isLazy <;> simp [upTo, prefer, hNone]

/-
  Bounds that are no less than the number of symbols before
  the limit are all the same to a consuming body.
-/
theorem upTo_eq_upTo
    {isLazy : Bool}
    (hConsuming : Consuming limit body)
    (hForward : Forward limit body)
    {n m : Nat}
    {point : Point}
    (hLimit : point.pos ≤ limit)
    (hOne : limit - point.pos ≤ n)
    (hOther : limit - point.pos ≤ m) :
    upTo isLazy body n point = upTo isLazy body m point := by
  induction n generalizing m point with
  | zero =>
      have hEnd : point.pos = limit := by omega
      rw [upTo_at_limit hConsuming hForward m hEnd]
      rfl
  | succ n ih =>
      cases m with
      | zero =>
          have hEnd : point.pos = limit := by omega
          rw [upTo_at_limit hConsuming hForward _ hEnd]
          rfl
      | succ m =>
          have hBody : ∀ reached ∈ body point,
              upTo isLazy body n reached =
                upTo isLazy body m reached := by
            intro reached hReached
            have hMore := hConsuming hLimit hReached
            have hLess := (hForward hLimit hReached).2
            exact ih hLess (by omega) (by omega)
          simp only [upTo, List.flatMap_congr hBody]

/-
  Any number of copies of a consuming body: one copy and
  then any number again, or none.
-/
theorem unbounded_eq
    {isLazy : Bool}
    (hConsuming : Consuming limit body)
    (hForward : Forward limit body)
    {point : Point}
    (hLimit : point.pos ≤ limit) :
    unbounded isLazy body limit point =
      prefer isLazy
        ((body point).flatMap (unbounded isLazy body limit))
        [point] := by
  have hBody : ∀ reached ∈ body point,
      unbounded isLazy body limit reached =
        upTo isLazy body (limit - point.pos) reached := by
    intro reached hReached
    have hUp := hForward hLimit hReached
    exact upTo_eq_upTo hConsuming hForward hUp.2
      (Nat.le_refl _) (by omega)
  have hMore :
      upTo isLazy body (limit - point.pos) point =
        upTo isLazy body (limit - point.pos + 1) point :=
    upTo_eq_upTo hConsuming hForward hLimit (Nat.le_refl _)
      (Nat.le_succ _)
  rw [List.flatMap_congr hBody]
  exact hMore

end Reach

------------------------------------------------------------
-- Symbols and members
------------------------------------------------------------

namespace Window

variable {window : Window}

/- What lies ahead ends at the limit. -/
theorem length_ahead_le
    (pos : Nat) :
    (window.ahead pos).length ≤ window.limit - pos := by
  simp only [ahead, List.length_drop, List.length_take]
  omega

theorem mem_consume
    {symbols : List Symbol}
    {point reached : Point} :
    reached ∈ window.consume symbols point ↔
      symbols <+: window.ahead point.pos ∧
        reached = point.forward symbols.length := by
  by_cases hPrefix : symbols <+: window.ahead point.pos <;>
    simp [consume, hPrefix]

theorem consume_forward
    (symbols : List Symbol) :
    Reach.Forward window.limit (window.consume symbols) := by
  intro point reached hLimit hReached
  rcases mem_consume.mp hReached with ⟨hPrefix, rfl⟩
  have hFits := hPrefix.length_le
  have hAhead := window.length_ahead_le point.pos
  simp only [Point.forward]
  omega

theorem consume_consuming
    (symbol : Symbol) :
    Reach.Consuming window.limit
      (window.consume [symbol]) := by
  intro point reached _ hReached
  rcases mem_consume.mp hReached with ⟨_, rfl⟩
  simp [Point.forward]

theorem consumeAny_eq_some
    {point reached : Point}
    (hReached : reached ∈ window.consumeAny point) :
    point.pos < window.limit ∧ reached = point.forward 1 := by
  by_cases hAhead : window.ahead point.pos = []
  · simp [consumeAny, hAhead] at hReached
  · have hFits := window.length_ahead_le point.pos
    have hMore := List.length_pos_iff.mpr hAhead
    simp only [consumeAny, hAhead, if_false,
      List.mem_singleton] at hReached
    exact ⟨by omega, hReached⟩

theorem consumeAny_forward :
    Reach.Forward window.limit window.consumeAny := by
  intro point reached _ hReached
  rcases consumeAny_eq_some hReached with ⟨hMore, rfl⟩
  simp only [Point.forward]
  omega

theorem consumeAny_consuming :
    Reach.Consuming window.limit window.consumeAny := by
  intro point reached _ hReached
  rcases consumeAny_eq_some hReached with ⟨_, rfl⟩
  simp [Point.forward]

theorem standAtEdge_forward :
    Reach.Forward window.limit window.standAtEdge := by
  intro point reached hLimit hReached
  by_cases hEdge : window.atEdge point.pos
  · simp only [standAtEdge, hEdge, if_true] at hReached
    exact Reach.Forward.stay hLimit hReached
  · simp [standAtEdge, hEdge] at hReached

/- A copy is consumed like any given symbol. -/
theorem mem_consumeAgain
    {point reached : Point}
    (hReached : reached ∈ window.consumeAgain point) :
    ∃ symbol, reached ∈ window.consume [symbol] point := by
  unfold consumeAgain at hReached
  split at hReached
  · simp at hReached
  · split at hReached
    · simp at hReached
    · exact ⟨_, hReached⟩

theorem consumeAgain_forward :
    Reach.Forward window.limit window.consumeAgain := by
  intro point reached hLimit hReached
  rcases mem_consumeAgain hReached with ⟨symbol, hReached⟩
  exact consume_forward [symbol] hLimit hReached

theorem consumeAgain_consuming :
    Reach.Consuming window.limit window.consumeAgain := by
  intro point reached hLimit hReached
  rcases mem_consumeAgain hReached with ⟨symbol, hReached⟩
  exact consume_consuming symbol hLimit hReached

end Window

variable {window : Window}

theorem Part.paths_forward
    (part : Part) :
    Reach.Forward window.limit (part.paths window) := by
  cases part with
  | symbol s => exact Window.consume_forward [s]
  | edge => exact Window.standAtEdge_forward

theorem Member.paths_forward
    (member : Member) :
    Reach.Forward window.limit
      (Member.paths window member) := by
  induction member with
  | nil => exact Reach.Forward.stay
  | cons part rest ih => exact part.paths_forward.flatMap ih

/- A member that starts with a symbol consumes it. -/
theorem Member.paths_consuming
    {member : Member}
    (hStart : Member.startsAtEdge member = false) :
    Reach.Consuming window.limit
      (Member.paths window member) := by
  match member, hStart with
  | .symbol s :: rest, _ =>
      exact (Window.consume_consuming s).flatMap
        (Window.consume_forward [s])
        (Member.paths_forward rest)

namespace CategoryRef

variable {ref : CategoryRef}

/- What a category reaches is reached by one of its members. -/
theorem mem_paths
    {point reached : Point}
    (hReached : reached ∈ ref.paths window point) :
    ∃ category member between,
      ref.category = some category ∧
        member ∈ category.members ∧
        between ∈ Member.paths window member point ∧
        reached.pos = between.pos := by
  unfold paths at hReached
  cases hCategory : ref.category with
  | none => simp [hCategory] at hReached
  | some category =>
      simp only [hCategory, List.mem_flatMap] at hReached
      rcases hReached with ⟨entry, hEntry, hReached⟩
      have hMember : entry.1 ∈ category.members :=
        List.fst_mem_of_mem_zipIdx
          ((List.mem_insertionSort _).mp hEntry)
      unfold memberPaths at hReached
      split at hReached
      · rcases List.mem_map.mp hReached with
          ⟨between, hBetween, rfl⟩
        exact ⟨category, entry.1, between, rfl, hMember,
          hBetween, rfl⟩
      · simp at hReached

theorem paths_forward :
    Reach.Forward window.limit (ref.paths window) := by
  intro point reached hLimit hReached
  rcases mem_paths hReached with
    ⟨_, member, between, _, _, hBetween, hPos⟩
  rw [hPos]
  exact Member.paths_forward member hLimit hBetween

theorem paths_consuming
    (hStart : ∀ category, ref.category = some category →
      ∀ member ∈ category.members,
        Member.startsAtEdge member = false) :
    Reach.Consuming window.limit (ref.paths window) := by
  intro point reached hLimit hReached
  rcases mem_paths hReached with
    ⟨category, member, between, hCategory, hMember,
      hBetween, hPos⟩
  rw [hPos]
  exact Member.paths_consuming
    (hStart category hCategory member hMember) hLimit hBetween

end CategoryRef

------------------------------------------------------------
-- Elements and patterns
------------------------------------------------------------

mutual

/- No path of an element goes back or beyond the limit. -/
theorem Element.paths_forward :
    (element : Element) →
      Reach.Forward window.limit (element.paths window)
  | .literal symbol => Window.consume_forward [symbol]
  | .category _ => CategoryRef.paths_forward
  | .wildcard => Window.consumeAny_forward
  | .gap _ => Window.consumeAny_forward.unbounded
  | .edge => Window.standAtEdge_forward
  | .null => Reach.Forward.stay
  | .target false => Window.consume_forward _
  | .target true => Window.consume_forward _
  | .ditto => Window.consumeAgain_forward
  | .optional body _ => (Pattern.paths_forward body).optional
  | .repeated body min _ _ =>
      have hBody := Element.paths_forward body
      (hBody.copies min.toNat).flatMap (hBody.further _)
  | .foreign _ => by
      intro point reached _ hReached
      simp [Element.paths] at hReached

/- No path of a pattern goes back or beyond the limit. -/
theorem Pattern.paths_forward :
    (pattern : Pattern) →
      Reach.Forward window.limit
        (Pattern.paths window pattern)
  | [] => Reach.Forward.stay
  | element :: rest =>
      (Element.paths_forward element).flatMap
        (Pattern.paths_forward rest)

end

/-
  An element that is not nullable consumes a symbol on each
  of its paths.
-/
theorem Element.paths_consuming :
    (element : Element) →
      element.wellBounded = true →
      element.nullable = false →
        Reach.Consuming window.limit (element.paths window)
  | .literal symbol, _, _ => Window.consume_consuming symbol
  | .wildcard, _, _ => Window.consumeAny_consuming
  | .ditto, _, _ => Window.consumeAgain_consuming
  | .category ref, _, hNullable => by
      apply CategoryRef.paths_consuming
      intro category hCategory member hMember
      simp only [Element.nullable, hCategory,
        List.any_eq_false] at hNullable
      simpa using hNullable member hMember
  | .repeated body min max isLazy, hBounds, hNullable => by
      simp only [Element.wellBounded, Bool.and_eq_true,
        decide_eq_true_eq] at hBounds
      simp only [Element.nullable, Bool.or_eq_false_iff,
        decide_eq_false_iff_not] at hNullable
      have hForward :
          Reach.Forward window.limit (body.paths window) :=
        Element.paths_forward body
      have hBody := Element.paths_consuming body hBounds.2
        hNullable.2
      have hRequired : ∃ n, min.toNat = n + 1 :=
        Nat.exists_eq_succ_of_ne_zero (by omega)
      rcases hRequired with ⟨n, hRequired⟩
      have hCopies : Reach.Consuming window.limit
          (Reach.copies (body.paths window) min.toNat) := by
        rw [hRequired]
        exact hBody.flatMap hForward (hForward.copies n)
      exact hCopies.flatMap (hForward.copies _)
        (hForward.further _)
  | .foreign _, _, _ => by
      intro point reached _ hReached
      simp [Element.paths] at hReached

end Diachrony
