import Diachrony.Proofs.Matching.Paths

/-
  What single instructions do, in terms of paths.

  An instruction that consumes or tests replaces a thread by
  one thread for each path, in the order of the paths, all
  of them at the next address.

  Key definitions include:
    * `Window.Performs`

  Key theorems include:
    * `Category.trials_eq`
    * `Bindings.bind_eq_record`
    * `Window.options_eq`
    * `Window.performs_category`
-/

namespace Diachrony

/- The thread that goes on from a point at an address. -/
def Point.enter
    (point : Point)
    (address : Nat) : Thread where
  address := address
  pos := point.pos
  bindings := point.bindings

------------------------------------------------------------
-- Order of trial
------------------------------------------------------------

namespace Category

theorem numbered_eq
    (first : Nat)
    (members : List Member) :
    numbered first members =
      (members.zipIdx first).map Prod.swap := by
  induction members generalizing first with
  | nil => rfl
  | cons member rest ih =>
      simp only [numbered, List.zipIdx_cons, List.map_cons,
        Prod.swap_prod_mk, ih]

theorem insertByLength_eq
    (entry : Member × Nat)
    (entries : List (Member × Nat)) :
    insertByLength entry.swap (entries.map Prod.swap) =
      (entries.orderedInsert
        (fun one other => other.1.length ≤ one.1.length)
        entry).map Prod.swap := by
  induction entries with
  | nil => rfl
  | cons other rest ih =>
      by_cases hLength :
          other.1.length ≤ entry.1.length
      · simp [insertByLength, hLength]
      · simp [insertByLength, hLength, ih]

/-
  Members are tried longest first, and members of one length
  in the order of declaration.
-/
theorem trials_eq
    (category : Category) :
    category.trials =
      category.longestFirst.map Prod.swap := by
  unfold trials longestFirst
  rw [numbered_eq]
  induction category.members.zipIdx 0 with
  | nil => rfl
  | cons entry rest ih =>
      simp only [List.map_cons, List.foldr_cons, ih,
        List.insertionSort_cons, insertByLength_eq]

end Category

------------------------------------------------------------
-- Bindings
------------------------------------------------------------

namespace Bindings

/- Binding a slot to what it is bound to changes nothing. -/
theorem set_of_get?
    {bindings : Bindings}
    {slot : String}
    {position : Int}
    (hBound : bindings.get? slot = some position) :
    bindings.set slot position = bindings := by
  induction bindings with
  | nil => simp [get?] at hBound
  | cons entry rest ih =>
      rcases entry with ⟨other, p⟩
      by_cases hSlot : other = slot
      · subst hSlot
        have hSame : p = position := by
          simpa [get?] using hBound
        simp [set, hSame]
      · have hOther : (slot == other) = false :=
          beq_false_of_ne (Ne.symm hSlot)
        have hRest : get? rest slot = some position := by
          simpa [get?, List.lookup_cons, hOther] using hBound
        simp [set, hSlot, ih hRest]

theorem bind_eq_record
    (ref : CategoryRef)
    (position : Nat)
    (bindings : Bindings) :
    bindings.bind ref.slot position =
      ref.record position bindings := by
  unfold bind CategoryRef.record
  cases ref.slot with
  | none => rfl
  | some slot =>
      by_cases hBound :
          bindings.get? slot = some (position : Int)
      · simp [hBound, set_of_get? hBound]
      · simp [hBound]

theorem required_all_eq_allows
    (ref : CategoryRef)
    (position : Nat)
    (bindings : Bindings) :
    ((bindings.required ref).all
        fun bound => (position : Int) = bound) =
      ref.allows bindings position := by
  unfold required CategoryRef.allows
  cases ref.explicit with
  | false => rfl
  | true =>
      cases ref.slot.bind bindings.get? with
      | none => rfl
      | some bound => simp [eq_comm]

end Bindings

------------------------------------------------------------
-- Reading symbols
------------------------------------------------------------

namespace Window

variable {window : Window}

/- What is read is what comes first ahead. -/
theorem reads_iff
    {pos : Nat}
    {symbol : Symbol} :
    window.reads pos symbol = true ↔
      (window.ahead pos).head? = some symbol := by
  have hHead :
      (window.ahead pos).head? =
        if pos < window.limit then
          window.symbols[pos]?
        else
          none := by
    simp [ahead, List.head?_drop, List.getElem?_take]
  rw [hHead]
  by_cases hLimit : pos < window.limit <;>
    simp [reads, hLimit]

theorem ahead_succ
    (pos : Nat) :
    window.ahead (pos + 1) = (window.ahead pos).tail := by
  simp [ahead]

/-
  A sequence can be consumed if its first symbol is read and
  the rest can be consumed after it.
-/
theorem cons_prefix_ahead_iff
    {pos : Nat}
    {symbol : Symbol}
    {rest : List Symbol} :
    symbol :: rest <+: window.ahead pos ↔
      window.reads pos symbol = true ∧
        rest <+: window.ahead (pos + 1) := by
  rw [reads_iff, ahead_succ]
  cases window.ahead pos with
  | nil => simp
  | cons first others => simp [eq_comm]

theorem consume_singleton
    (symbol : Symbol)
    (point : Point) :
    window.consume [symbol] point =
      if window.reads point.pos symbol then
        [point.forward 1]
      else
        [] := by
  simp [consume, cons_prefix_ahead_iff]

theorem readAll?_eq
    (pos : Nat)
    (symbols : List Symbol) :
    window.readAll? pos symbols =
      if symbols <+: window.ahead pos then
        some (pos + symbols.length)
      else
        none := by
  induction symbols generalizing pos with
  | nil => simp [readAll?]
  | cons symbol rest ih =>
      by_cases hReads : window.reads pos symbol
      · have hLength :
            pos + 1 + rest.length = pos + (rest.length + 1) := by
          omega
        simp [readAll?, hReads, ih, cons_prefix_ahead_iff,
          hLength]
      · simp [readAll?, hReads, cons_prefix_ahead_iff]

theorem ahead_eq_nil_iff
    (hLimit : window.limit ≤ window.symbols.size)
    (pos : Nat) :
    window.ahead pos = [] ↔ window.limit ≤ pos := by
  simp only [ahead, List.drop_eq_nil_iff, List.length_take,
    Array.length_toList]
  omega

------------------------------------------------------------
-- Members
------------------------------------------------------------

/- A member is matched in at most one way. -/
theorem memberPaths_eq
    (member : Member)
    (point : Point) :
    Member.paths window member point =
      ((window.memberEnd? point.pos member).map fun stop =>
        { point with pos := stop }).toList := by
  induction member generalizing point with
  | nil => rfl
  | cons part rest ih =>
      cases part with
      | edge =>
          by_cases hEdge : window.atEdge point.pos
          · simp [Member.paths, Part.paths, standAtEdge,
              memberEnd?, hEdge, ih]
          · simp [Member.paths, Part.paths, standAtEdge,
              memberEnd?, hEdge]
      | symbol s =>
          by_cases hReads : window.reads point.pos s
          · simp [Member.paths, Part.paths, memberEnd?,
              consume_singleton, hReads, ih, Point.forward]
          · simp [Member.paths, Part.paths, memberEnd?,
              consume_singleton, hReads]

/- The options of a reference are its paths. -/
theorem options_eq
    (ref : CategoryRef)
    (category : Category)
    (hCategory : ref.category = some category)
    (point : Point)
    (address : Nat) :
    window.options (point.enter address) ref category.trials =
      (ref.paths window point).map fun reached =>
        reached.enter (address + 1) := by
  have hEntry : ∀ entry : Member × Nat,
      (ref.memberPaths window entry point).map
          (fun reached => reached.enter (address + 1)) =
        (if ref.allows point.bindings entry.2 then
          (window.memberEnd? point.pos entry.1).map
            fun stop =>
              { address := address + 1
                pos := stop
                bindings :=
                  ref.record entry.2 point.bindings : Thread }
        else
          none).toList := by
    intro entry
    unfold CategoryRef.memberPaths
    by_cases hAllows : ref.allows point.bindings entry.2
    · rw [memberPaths_eq]
      cases window.memberEnd? point.pos entry.1 <;>
        simp [hAllows, Point.enter]
    · simp [hAllows]
  unfold options CategoryRef.paths
  simp only [hCategory, Category.trials_eq, List.map_flatMap,
    hEntry, List.filterMap_map]
  rw [List.filterMap_eq_flatMap_toList]
  apply List.flatMap_congr
  intro entry _
  simp [Point.enter, Bindings.bind_eq_record,
    Bindings.required_all_eq_allows]

------------------------------------------------------------
-- Instructions
------------------------------------------------------------

/-
  An instruction replaces a thread by one thread for each
  point that is reached, all at the next address.
-/
def Performs
    (window : Window)
    (instruction : Instruction)
    (reach : Reach) : Prop :=
  ∀ point address,
    window.step (Point.enter point address) instruction =
      .split ((reach point).map fun reached =>
        reached.enter (address + 1))

theorem performs_literal
    (symbol : Symbol) :
    window.Performs (.literal symbol)
      (window.consume [symbol]) := by
  intro point address
  rw [consume_singleton]
  by_cases hReads : window.reads point.pos symbol <;>
    simp [step, Move.goIf, Point.enter, Thread.advance,
      Point.forward, hReads]

theorem performs_any
    (hLimit : window.limit ≤ window.symbols.size) :
    window.Performs .any window.consumeAny := by
  intro point address
  by_cases hAhead : point.pos < window.limit
  · have hMore : ¬window.limit ≤ point.pos := by omega
    simp [step, Move.goIf, Point.enter, Thread.advance,
      Point.forward, consumeAny, ahead_eq_nil_iff hLimit,
      hAhead, hMore]
  · have hEnd : window.limit ≤ point.pos := by omega
    simp [step, Move.goIf, Point.enter, consumeAny,
      ahead_eq_nil_iff hLimit, hAhead, hEnd]

theorem performs_category
    (ref : CategoryRef) :
    window.Performs ref.instruction (ref.paths window) := by
  intro point address
  cases hCategory : ref.category with
  | none =>
      simp [CategoryRef.instruction, CategoryRef.paths, step,
        hCategory]
  | some category =>
      simp only [CategoryRef.instruction, hCategory, step,
        options_eq ref category hCategory]

theorem performs_edge :
    window.Performs .edge window.standAtEdge := by
  intro point address
  by_cases hEdge : window.atEdge point.pos <;>
    simp [step, Move.goIf, Point.enter, Thread.advance,
      standAtEdge, hEdge]

theorem performs_target
    (reversed : Bool) :
    window.Performs (.target reversed)
      (Element.paths window (.target reversed)) := by
  intro point address
  cases reversed with
  | false =>
      by_cases hPrefix :
          window.target <+: window.ahead point.pos <;>
        simp [step, Element.paths, consume, readAll?_eq,
          Point.enter, Thread.advance, Point.forward, hPrefix]
  | true =>
      by_cases hPrefix :
          window.target.reverse <+: window.ahead point.pos <;>
        simp [step, Element.paths, consume, readAll?_eq,
          Point.enter, Thread.advance, Point.forward, hPrefix]

/- A copy is consumed where a symbol repeats the one before it. -/
theorem consumeAgain_eq
    (hLimit : window.limit ≤ window.symbols.size)
    (point : Point) :
    window.consumeAgain point =
      if window.repeatsPrevious point.pos then
        [point.forward 1]
      else
        [] := by
  rcases point with ⟨pos, bindings⟩
  cases pos with
  | zero => simp [consumeAgain, repeatsPrevious]
  | succ before =>
      by_cases hAhead : before + 1 < window.limit
      · have hBefore : before < window.symbols.size := by omega
        simp [consumeAgain, consume_singleton,
          repeatsPrevious, reads, hAhead, hBefore]
      · cases hBefore : window.symbols[before]? <;>
          simp [consumeAgain, consume_singleton,
            repeatsPrevious, reads, hAhead, hBefore]

theorem performs_ditto
    (hLimit : window.limit ≤ window.symbols.size) :
    window.Performs .ditto window.consumeAgain := by
  intro point address
  rw [consumeAgain_eq hLimit]
  by_cases hRepeats : window.repeatsPrevious point.pos <;>
    simp [step, Move.goIf, Point.enter, Thread.advance,
      Point.forward, hRepeats]

end Window

end Diachrony
