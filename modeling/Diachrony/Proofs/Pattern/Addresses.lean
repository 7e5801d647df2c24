import Diachrony.Proofs.Pattern.Layout

/-
  The addresses in a program.

  Code that is laid out for an element leads to addresses
  inside it, or to the address behind it, and never accepts.
  So nothing in a program leads out of it, and the only
  acceptance is its last instruction.

  Key definitions include:
    * `Instruction.successors`
    * `Code.WellFormed`
    * `Code.LeadsUpTo`
    * `Code.Contained`

  Key theorems include:
    * `Element.contained_code`
    * `Pattern.wellFormed_program`
-/

namespace Diachrony

------------------------------------------------------------
-- Well-formed programs
------------------------------------------------------------

/-
  The addresses at which a thread can go on after it has run
  an instruction at an address. A choice and a jump name
  them, and nothing follows an acceptance. All others have
  one behind them, and go on there unless they fail.
-/
def Instruction.successors
    (address : Nat) : Instruction → List Nat
  | .choice first second => [first, second]
  | .jump destination => [destination]
  | .accept => []
  | _ => [address + 1]

namespace Code

/-
  A program that ends with its only acceptance, and of which
  no instruction leads to an address outside it.
-/
structure WellFormed
    (code : Code) : Prop where
  accepting :
    ∃ body, code = body ++ [.accept] ∧ .accept ∉ body
  inside :
    ∀ address (instruction : Instruction),
      code[address]? = some instruction →
        ∀ next ∈ instruction.successors address,
          next < code.length

/-
  Instructions that are laid out from an address on do not
  accept, and lead no further than to a last address.
-/
def LeadsUpTo
    (last : Nat)
    (code : Code)
    (start : Nat) : Prop :=
  ∀ entry ∈ code.zipIdx start,
    entry.1 ≠ .accept ∧
      ∀ next ∈ entry.1.successors entry.2, next ≤ last

/-
  Code that leads no further than to the address behind it,
  wherever it is laid out.
-/
def Contained
    (body : Nat → Code)
    (size : Nat) : Prop :=
  ∀ ⦃start last : Nat⦄,
    start + size ≤ last → LeadsUpTo last (body start) start

------------------------------------------------------------
-- Pieces of code
------------------------------------------------------------

namespace LeadsUpTo

variable {last start : Nat}
variable {first second rest : Code}
variable {instruction : Instruction}

theorem nothing :
    LeadsUpTo last [] start := by
  intro entry hEntry
  cases hEntry

theorem cons
    (hAccept : instruction ≠ .accept)
    (hNext :
      ∀ next ∈ instruction.successors start, next ≤ last)
    (hRest : LeadsUpTo last rest (start + 1)) :
    LeadsUpTo last (instruction :: rest) start := by
  intro entry hEntry
  rw [List.zipIdx_cons] at hEntry
  rcases List.mem_cons.mp hEntry with rfl | hLater
  · exact ⟨hAccept, hNext⟩
  · exact hRest entry hLater

theorem append
    (hFirst : LeadsUpTo last first start)
    (hSecond :
      LeadsUpTo last second (start + first.length)) :
    LeadsUpTo last (first ++ second) start := by
  intro entry hEntry
  rw [List.zipIdx_append] at hEntry
  rcases List.mem_append.mp hEntry with hEarly | hLate
  · exact hFirst entry hEarly
  · exact hSecond entry hLate

/- Code that is entered or skipped. -/
theorem enterOrSkip
    {isLazy : Bool}
    {skip : Nat}
    (hEnter : start + 1 ≤ last)
    (hSkip : skip ≤ last)
    (hRest : LeadsUpTo last rest (start + 1)) :
    LeadsUpTo last
      (.enterOrSkip isLazy (start + 1) skip :: rest)
      start := by
  apply cons _ _ hRest
  · cases isLazy <;> simp [Instruction.enterOrSkip]
  · cases isLazy <;>
      simp [Instruction.enterOrSkip, Instruction.successors,
        hEnter, hSkip]

/- No instruction that is laid out accepts. -/
theorem accept_notMem
    (hCode : LeadsUpTo last first start) :
    .accept ∉ first := by
  intro hAccept
  obtain ⟨i, hi⟩ := List.mem_iff_getElem?.mp hAccept
  have hEntry :
      ((.accept : Instruction), start + i) ∈
        first.zipIdx start :=
    List.mk_add_mem_zipIdx_iff_getElem?.mpr hi
  exact (hCode _ hEntry).1 rfl

end LeadsUpTo

variable {body : Nat → Code}
variable {size : Nat}

/- Copies lead no further than each of them does. -/
theorem leadsUpTo_copies
    {last : Nat}
    (hLength : ∀ start, (body start).length = size)
    (hBody : ∀ start,
      start + size ≤ last →
        LeadsUpTo last (body start) start)
    (n start : Nat)
    (hLast : start + n * size ≤ last) :
    LeadsUpTo last (copies body size n start) start := by
  induction n generalizing start with
  | zero => exact LeadsUpTo.nothing
  | succ n ih =>
      rw [Nat.succ_mul] at hLast
      rw [copies_succ]
      apply LeadsUpTo.append (hBody start (by omega))
      rw [hLength]
      exact ih (start + size) (by omega)

namespace Contained

/- One instruction that goes on at the next address. -/
theorem single
    {instruction : Instruction}
    (hAccept : instruction ≠ .accept)
    (hNext : ∀ address,
      instruction.successors address = [address + 1]) :
    Contained (fun _ => [instruction]) 1 := by
  intro start last hLast
  apply LeadsUpTo.cons hAccept _ LeadsUpTo.nothing
  rw [hNext]
  intro next hMem
  obtain rfl := List.mem_singleton.mp hMem
  exact hLast

theorem append
    {second : Nat → Code}
    {secondSize : Nat}
    (hLength : ∀ start, (body start).length = size)
    (hBody : Contained body size)
    (hSecond : Contained second secondSize) :
    Contained (fun start => body start ++ second (start + size))
      (size + secondSize) := by
  intro start last hLast
  apply LeadsUpTo.append (hBody (by omega))
  rw [hLength]
  exact hSecond (by omega)

theorem once
    (hBody : Contained body size)
    (isLazy : Bool) :
    Contained (Code.once body size isLazy) (1 + size) := by
  intro start last hLast
  exact LeadsUpTo.enterOrSkip (by omega) (by omega)
    (hBody (by omega))

theorem loop
    (hBody : Contained body size)
    (isLazy : Bool) :
    Contained (Code.loop body size isLazy) (2 + size) := by
  intro start last hLast
  apply LeadsUpTo.enterOrSkip (by omega) (by omega)
  apply LeadsUpTo.append (hBody (by omega))
  apply LeadsUpTo.cons _ _ LeadsUpTo.nothing
  · simp
  · simp only [Instruction.successors, List.mem_singleton]
    omega

theorem copies
    (hLength : ∀ start, (body start).length = size)
    (hBody : Contained body size)
    (n : Nat) :
    Contained (Code.copies body size n) (n * size) := by
  intro start last hLast
  exact leadsUpTo_copies hLength
    (fun _ hInside => hBody hInside) n start hLast

/- Copies that are skipped to the address behind them. -/
theorem optionalCopies
    (hLength : ∀ start, (body start).length = size)
    (hBody : Contained body size)
    (isLazy : Bool)
    (n : Nat) :
    Contained
      (fun start =>
        Code.optionalCopies body size isLazy
          (start + n * (1 + size)) n start)
      (n * (1 + size)) := by
  intro start last hLast
  apply leadsUpTo_copies _ _ n start hLast
  · intro address
    simp only [guarded, List.length_cons, hLength]
    omega
  · intro address hInside
    exact LeadsUpTo.enterOrSkip (by omega) hLast
      (hBody (by omega))

end Contained

end Code

------------------------------------------------------------
-- Patterns
------------------------------------------------------------

/- Further copies of a body, or any number of them. -/
theorem Element.contained_repeated
    {body : Element}
    (hBody : Code.Contained body.code body.codeSize)
    (min : Int)
    (max : Option Int)
    (isLazy : Bool) :
    Code.Contained
      (Element.code (.repeated body min max isLazy))
      (Element.codeSize (.repeated body min max isLazy)) := by
  have hLength := body.length_code
  have hRequired := hBody.copies hLength (requiredCopies min)
  have hCopies :=
    Code.length_copies hLength (requiredCopies min)
  intro start last hLast
  simp only [Element.code, Element.codeSize] at hLast ⊢
  cases max with
  | some most =>
      exact hRequired.append hCopies
        (hBody.optionalCopies hLength isLazy
          (furtherCopies min most))
        hLast
  | none =>
      cases hNullable : body.nullable with
      | true =>
          simp only [hNullable, if_true] at hLast ⊢
          exact hRequired.append hCopies (hBody.once isLazy)
            hLast
      | false =>
          simp only [hNullable, Bool.false_eq_true, if_false]
            at hLast ⊢
          exact hRequired.append hCopies
            (hBody.loop isLazy) hLast

mutual

/- Nothing in the code of an element leads out of it. -/
theorem Element.contained_code :
    (element : Element) →
      Code.Contained element.code element.codeSize
  | .literal _ =>
      Code.Contained.single (by simp) fun _ => rfl
  | .category ref => by
      cases hCategory : ref.category with
      | none =>
          simp only [Element.code, CategoryRef.instruction,
            hCategory, Element.codeSize]
          exact Code.Contained.single (by simp) fun _ => rfl
      | some category =>
          simp only [Element.code, CategoryRef.instruction,
            hCategory, Element.codeSize]
          exact Code.Contained.single (by simp) fun _ => rfl
  | .wildcard =>
      Code.Contained.single (by simp) fun _ => rfl
  | .gap isLazy =>
      (Code.Contained.single (by simp) fun _ => rfl).loop
        isLazy
  | .edge => Code.Contained.single (by simp) fun _ => rfl
  | .null => fun _ _ _ => Code.LeadsUpTo.nothing
  | .target _ => Code.Contained.single (by simp) fun _ => rfl
  | .ditto => Code.Contained.single (by simp) fun _ => rfl
  | .optional body isLazy =>
      (Pattern.contained_code body).once isLazy
  | .repeated body min max isLazy =>
      Element.contained_repeated (Element.contained_code body)
        min max isLazy
  | .foreign _ => fun _ _ _ => Code.LeadsUpTo.nothing

/- Nothing in the code of a pattern leads out of it. -/
theorem Pattern.contained_code :
    (pattern : Pattern) →
      Code.Contained (Pattern.code pattern)
        (Pattern.codeSize pattern)
  | [] => fun _ _ _ => Code.LeadsUpTo.nothing
  | element :: rest =>
      (Element.contained_code element).append
        element.length_code (Pattern.contained_code rest)

end

/- Every program is well formed, whatever the pattern is. -/
theorem Pattern.wellFormed_program
    (pattern : Pattern) :
    pattern.program.WellFormed := by
  have hCode :=
    Pattern.contained_code pattern
      (Nat.le_refl (0 + Pattern.codeSize pattern))
  refine ⟨⟨Pattern.code pattern 0, rfl,
    hCode.accept_notMem⟩, ?_⟩
  intro address instruction hInstruction next hNext
  have hEntry :=
    List.mk_mem_zipIdx_iff_getElem?.mpr hInstruction
  -- It is laid out for an element, or it is the acceptance.
  rw [Pattern.program, List.zipIdx_append] at hEntry
  rcases List.mem_append.mp hEntry with hBefore | hLast
  · have hInside := (hCode _ hBefore).2 next hNext
    rw [Pattern.program, List.length_append,
      Pattern.length_code]
    exact Nat.lt_succ_of_le (by omega)
  · obtain ⟨rfl, -⟩ : instruction = .accept ∧ _ := by
      simpa using hLast
    cases hNext

end Diachrony
