import Diachrony.Proofs.Pattern.Layout

/-
  Assembly of programs in one pass.

  A program can be written from front to back, without any
  knowledge of how long its pieces are going to be. The place
  of a choice is left open when it is come to, and filled in
  as soon as the address to skip to is known. The places of
  bounded repetitions stay open until all copies are written.
  What comes of it is the layout of the pattern, and no place
  is left open in it.

  Key definitions include:
    * `CodeDraft`
    * `Assembler`
    * `Element.assemble`
    * `Pattern.assembled`
    * `Assembler.Writes`

  Key theorems include:
    * `CodeDraft.fillAll_reserved`
    * `Assembler.Writes.optionalCopies`
    * `Pattern.assembled_eq`
-/

namespace Diachrony

------------------------------------------------------------
-- Drafts
------------------------------------------------------------

/-
  A program that is being written. The place of a choice
  whose addresses are not known yet is open.
-/
abbrev CodeDraft :=
  List (Option Instruction)

namespace CodeDraft

/- Write an instruction. -/
def emit
    (instruction : Instruction)
    (draft : CodeDraft) : CodeDraft :=
  draft ++ [some instruction]

/- Leave a place open for a choice. -/
def reserve
    (draft : CodeDraft) : CodeDraft :=
  draft ++ [none]

/-
  Fill a place with the choice between the body behind it
  and an address to skip to.
-/
def fill
    (isLazy : Bool)
    (skip place : Nat)
    (draft : CodeDraft) : CodeDraft :=
  draft.set place
    (some (.enterOrSkip isLazy (place + 1) skip))

/- Fill a number of places that skip to the same address. -/
def fillAll
    (isLazy : Bool)
    (skip : Nat)
    (places : List Nat)
    (draft : CodeDraft) : CodeDraft :=
  places.foldl
    (fun filled place => fill isLazy skip place filled) draft

/- A draft of code that has no open places. -/
def finished
    (code : Code) : CodeDraft :=
  code.map some

end CodeDraft

------------------------------------------------------------
-- Assembly
------------------------------------------------------------

/-
  A way to go on with a draft. It is given up if it comes to
  an element of a foreign kind.
-/
abbrev Assembler :=
  CodeDraft → Option CodeDraft

namespace Assembler

/- Write one instruction. -/
def single
    (instruction : Instruction) : Assembler :=
  fun draft => some (draft.emit instruction)

/- A body that is entered once or skipped. -/
def once
    (body : Assembler)
    (isLazy : Bool) : Assembler :=
  fun draft =>
    (body draft.reserve).map fun written =>
      written.fill isLazy written.length draft.length

/- A body that is entered any number of times. -/
def loop
    (body : Assembler)
    (isLazy : Bool) : Assembler :=
  fun draft =>
    (body draft.reserve).map fun written =>
      let closed := written.emit (.jump draft.length)
      closed.fill isLazy closed.length draft.length

/- A number of copies of a body. -/
def copies
    (body : Assembler) : Nat → Assembler
  | 0, draft => some draft
  | n + 1, draft => (body draft).bind (copies body n)

/-
  A number of copies of a body, each behind an open place,
  and the places that are still open.
-/
def reservedCopies
    (body : Assembler) :
    Nat → CodeDraft → Option (CodeDraft × List Nat)
  | 0, draft => some (draft, [])
  | n + 1, draft =>
      (body draft.reserve).bind fun written =>
        (reservedCopies body n written).map fun later =>
          (later.1, draft.length :: later.2)

/-
  A number of copies of a body, each of which may be the
  first one left out.
-/
def optionalCopies
    (body : Assembler)
    (isLazy : Bool)
    (n : Nat) : Assembler :=
  fun draft =>
    (reservedCopies body n draft).map fun written =>
      written.1.fillAll isLazy written.1.length written.2

end Assembler

mutual

/- Write the instructions of an element. -/
def Element.assemble : Element → Assembler
  | .literal symbol, draft =>
      Assembler.single (.literal symbol) draft
  | .category ref, draft =>
      Assembler.single ref.instruction draft
  | .wildcard, draft => Assembler.single .any draft
  | .gap isLazy, draft =>
      Assembler.loop (.single .any) isLazy draft
  | .edge, draft => Assembler.single .edge draft
  | .null, draft => some draft
  | .target reversed, draft =>
      Assembler.single (.target reversed) draft
  | .ditto, draft => Assembler.single .ditto draft
  | .optional body isLazy, draft =>
      Assembler.once (Pattern.assemble body) isLazy draft
  | .repeated body min max isLazy, draft =>
      (Assembler.copies (Element.assemble body)
          (requiredCopies min) draft).bind fun required =>
        match max with
        | some most =>
            Assembler.optionalCopies (Element.assemble body)
              isLazy (furtherCopies min most) required
        | none =>
            if body.nullable then
              Assembler.once (Element.assemble body) isLazy
                required
            else
              Assembler.loop (Element.assemble body) isLazy
                required
  | .foreign _, _ => none

/- Write the instructions of a pattern. -/
def Pattern.assemble : Pattern → Assembler
  | [], draft => some draft
  | element :: rest, draft =>
      (Element.assemble element draft).bind
        (Pattern.assemble rest)

end

/- The program of a pattern as it is written in one pass. -/
def Pattern.assembled
    (pattern : Pattern) : Option CodeDraft :=
  (Pattern.assemble pattern []).bind
    (Assembler.single .accept)

------------------------------------------------------------
-- Open places
------------------------------------------------------------

namespace CodeDraft

/- A place is filled where it was left open. -/
theorem fill_open
    (isLazy : Bool)
    (skip : Nat)
    (draft later : CodeDraft) :
    fill isLazy skip draft.length (draft ++ none :: later) =
      draft ++
        some
          (.enterOrSkip isLazy (draft.length + 1) skip) ::
          later := by
  simp [fill]

/- Copies of a body, each behind an open place. -/
def reserved
    (body : Nat → Code)
    (size : Nat) : Nat → Nat → CodeDraft
  | 0, _ => []
  | n + 1, start =>
      none ::
        (finished (body (start + 1)) ++
          reserved body size n (start + (1 + size)))

variable {body : Nat → Code}
variable {size : Nat}

/- A place and a finished body behind it are written. -/
theorem length_guarded
    (hLength : ∀ start, (body start).length = size)
    (draft : CodeDraft)
    (place : Option Instruction)
    (start : Nat) :
    (draft ++ place :: finished (body start)).length =
      draft.length + (1 + size) := by
  simp only [finished, List.length_append, List.length_cons,
    List.length_map, hLength]
  omega

theorem length_reserved
    (hLength : ∀ start, (body start).length = size)
    (n start : Nat) :
    (reserved body size n start).length = n * (1 + size) := by
  induction n generalizing start with
  | zero => simp [reserved]
  | succ n ih =>
      simp only [reserved, finished, List.length_cons,
        List.length_append, List.length_map, hLength, ih,
        Nat.succ_mul]
      omega

/-
  Once all their places are filled, copies that were written
  behind open places are copies that may be left out.
-/
theorem fillAll_reserved
    (hLength : ∀ start, (body start).length = size)
    (isLazy : Bool)
    (skip n : Nat)
    (draft : CodeDraft) :
    fillAll isLazy skip
        (List.range' draft.length n (1 + size))
        (draft ++ reserved body size n draft.length) =
      draft ++
        finished
          (Code.optionalCopies body size isLazy skip n
            draft.length) := by
  induction n generalizing draft with
  | zero => rfl
  | succ n ih =>
      -- The draft up to the first copy, its place filled.
      let written :=
        draft ++
          some
            (.enterOrSkip isLazy (draft.length + 1) skip) ::
            finished (body (draft.length + 1))
      have hWritten :
          written.length = draft.length + (1 + size) :=
        length_guarded hLength draft _ _
      calc
        fillAll isLazy skip
              (List.range' draft.length (n + 1) (1 + size))
              (draft ++
                reserved body size (n + 1) draft.length) =
            fillAll isLazy skip
              (List.range' written.length n (1 + size))
              (written ++
                reserved body size n written.length) := by
          rw [List.range'_succ, fillAll, List.foldl_cons,
            reserved, fill_open, hWritten, fillAll]
          simp [written]
        _ = written ++
              finished
                (Code.optionalCopies body size isLazy skip n
                  written.length) :=
          ih written
        _ = draft ++
              finished
                (Code.optionalCopies body size isLazy skip
                  (n + 1) draft.length) := by
          rw [hWritten, Code.optionalCopies,
            Code.optionalCopies, Code.copies_succ]
          simp [written, finished, Code.guarded]

end CodeDraft

------------------------------------------------------------
-- What assemblers write
------------------------------------------------------------

namespace Assembler

/-
  An assembler goes on with every draft in the same way: it
  adds finished code, laid out from the end of the draft on,
  or it is given up.
-/
def Writes
    (assembler : Assembler)
    (able : Bool)
    (code : Nat → Code) : Prop :=
  ∀ draft : CodeDraft,
    assembler draft =
      if able then
        some (draft ++ CodeDraft.finished (code draft.length))
      else
        none

namespace Writes

variable {body second : Assembler}
variable {able secondAble : Bool}
variable {code secondCode : Nat → Code}
variable {size : Nat}

theorem nothing :
    Writes some true fun _ => [] := by
  intro draft
  simp [CodeDraft.finished]

theorem single
    (instruction : Instruction) :
    Writes (.single instruction) true
      fun _ => [instruction] :=
  fun _ => rfl

theorem append
    (hLength : ∀ start, (code start).length = size)
    (hFirst : body.Writes able code)
    (hSecond : second.Writes secondAble secondCode) :
    Writes (fun draft => (body draft).bind second)
      (able && secondAble)
      fun start => code start ++ secondCode (start + size) := by
  intro draft
  cases able <;> cases secondAble <;>
    simp [hFirst draft, hSecond _, CodeDraft.finished, hLength]

/- What is written behind a place that is left open. -/
theorem reserve
    (hBody : body.Writes able code)
    (draft : CodeDraft) :
    body draft.reserve =
      if able then
        some
          (draft ++
            none ::
              CodeDraft.finished (code (draft.length + 1)))
      else
        none := by
  rw [hBody draft.reserve]
  simp [CodeDraft.reserve]

theorem once
    (hLength : ∀ start, (code start).length = size)
    (hBody : body.Writes able code)
    (isLazy : Bool) :
    Writes (body.once isLazy) able
      (Code.once code size isLazy) := by
  intro draft
  have hEnd :
      draft.length + (size + 1) =
        draft.length + 1 + size := by
    omega
  cases able with
  | false => simp [Assembler.once, hBody.reserve]
  | true =>
      simp [Assembler.once, hBody.reserve, CodeDraft.fill_open,
        CodeDraft.finished, Code.once, hLength, hEnd]

theorem loop
    (hLength : ∀ start, (code start).length = size)
    (hBody : body.Writes able code)
    (isLazy : Bool) :
    Writes (body.loop isLazy) able
      (Code.loop code size isLazy) := by
  intro draft
  have hEnd :
      draft.length + (size + 1) + 1 =
        draft.length + 2 + size := by
    omega
  cases able with
  | false => simp [Assembler.loop, hBody.reserve]
  | true =>
      simp [Assembler.loop, hBody.reserve, CodeDraft.emit,
        CodeDraft.fill_open, CodeDraft.finished, Code.loop,
        hLength, hEnd]

theorem copies
    (hLength : ∀ start, (code start).length = size)
    (hBody : body.Writes able code)
    (n : Nat) :
    Writes (body.copies n) (n = 0 || able)
      (Code.copies code size n) := by
  induction n with
  | zero => exact nothing
  | succ n ih =>
      intro draft
      have hBoth := hBody.append hLength ih draft
      have hAble :
          (able && (n = 0 || able)) =
            (n + 1 = 0 || able) := by
        cases able <;> simp
      rw [hAble] at hBoth
      rw [Code.copies_succ]
      exact hBoth

/- Copies are written behind places that are left open. -/
theorem reservedCopies
    (hLength : ∀ start, (code start).length = size)
    (hBody : body.Writes able code)
    (n : Nat)
    (draft : CodeDraft) :
    body.reservedCopies n draft =
      if n = 0 || able then
        some
          (draft ++ CodeDraft.reserved code size n draft.length,
            List.range' draft.length n (1 + size))
      else
        none := by
  induction n generalizing draft with
  | zero => simp [Assembler.reservedCopies, CodeDraft.reserved]
  | succ n ih =>
      cases able with
      | false =>
          simp [Assembler.reservedCopies, hBody.reserve]
      | true =>
          simp only [Assembler.reservedCopies, hBody.reserve,
            if_true, Option.bind_some, ih,
            CodeDraft.length_guarded hLength]
          simp [CodeDraft.reserved, List.range'_succ]

/-
  When the last copy is written, all places that were left
  open are filled in.
-/
theorem optionalCopies
    (hLength : ∀ start, (code start).length = size)
    (hBody : body.Writes able code)
    (isLazy : Bool)
    (n : Nat) :
    Writes (body.optionalCopies isLazy n) (n = 0 || able)
      fun start =>
        Code.optionalCopies code size isLazy
          (start + n * (1 + size)) n start := by
  intro draft
  have hEnd :
      (draft ++
          CodeDraft.reserved code size n draft.length).length =
        draft.length + n * (1 + size) := by
    rw [List.length_append, CodeDraft.length_reserved hLength]
  rw [Assembler.optionalCopies, hBody.reservedCopies hLength]
  split
  · rw [Option.map_some, hEnd,
      CodeDraft.fillAll_reserved hLength]
  · rfl

end Writes

end Assembler

------------------------------------------------------------
-- Patterns
------------------------------------------------------------

/- The copies a repetition asks for, and those it allows. -/
theorem Element.writes_repeated
    {body : Element}
    (hBody :
      Assembler.Writes body.assemble body.matchable body.code)
    (min : Int)
    (max : Option Int)
    (isLazy : Bool) :
    Assembler.Writes
      (Element.assemble (.repeated body min max isLazy))
      (Element.matchable (.repeated body min max isLazy))
      (Element.code (.repeated body min max isLazy)) := by
  have hLength := body.length_code
  have hRequired := hBody.copies hLength (requiredCopies min)
  have hCopies :=
    Code.length_copies hLength (requiredCopies min)
  cases max with
  | some most =>
      have hAble :
          Element.matchable
              (.repeated body min (some most) isLazy) =
            ((requiredCopies min = 0 || body.matchable) &&
              (furtherCopies min most = 0 ||
                body.matchable)) := by
        simp [Element.matchable, Bool.or_and_distrib_right]
      rw [hAble]
      intro draft
      simp only [Element.assemble, Element.code]
      exact hRequired.append hCopies
        (hBody.optionalCopies hLength isLazy
          (furtherCopies min most))
        draft
  | none =>
      have hAble :
          Element.matchable (.repeated body min none isLazy) =
            ((requiredCopies min = 0 || body.matchable) &&
              body.matchable) := by
        cases hBodyAble : body.matchable <;>
          simp [Element.matchable, hBodyAble]
      rw [hAble]
      intro draft
      simp only [Element.assemble, Element.code]
      cases body.nullable with
      | true =>
          exact hRequired.append hCopies
            (hBody.once hLength isLazy) draft
      | false =>
          exact hRequired.append hCopies
            (hBody.loop hLength isLazy) draft

mutual

/- An element is written as it is laid out. -/
theorem Element.writes_code :
    (element : Element) →
      Assembler.Writes element.assemble element.matchable
        element.code
  | .literal _ => Assembler.Writes.single _
  | .category _ => Assembler.Writes.single _
  | .wildcard => Assembler.Writes.single _
  | .gap isLazy =>
      (Assembler.Writes.single .any).loop (fun _ => rfl) isLazy
  | .edge => Assembler.Writes.single _
  | .null => Assembler.Writes.nothing
  | .target _ => Assembler.Writes.single _
  | .ditto => Assembler.Writes.single _
  | .optional body isLazy =>
      (Pattern.writes_code body).once
        (Pattern.length_code body) isLazy
  | .repeated body min max isLazy =>
      Element.writes_repeated (Element.writes_code body) min
        max isLazy
  | .foreign _ => fun _ => rfl

/- A pattern is written as it is laid out. -/
theorem Pattern.writes_code :
    (pattern : Pattern) →
      Assembler.Writes (Pattern.assemble pattern)
        (Pattern.matchable pattern) (Pattern.code pattern)
  | [] => Assembler.Writes.nothing
  | element :: rest =>
      (Element.writes_code element).append element.length_code
        (Pattern.writes_code rest)

end

/-
  The program that is written in one pass is the program of
  the pattern, with no place left open. It is given up if an
  element of a foreign kind is come to.
-/
theorem Pattern.assembled_eq
    (pattern : Pattern) :
    pattern.assembled =
      if pattern.matchable then
        some (CodeDraft.finished pattern.program)
      else
        none := by
  rw [assembled, Pattern.writes_code pattern []]
  cases pattern.matchable with
  | false => rfl
  | true =>
      simp [Assembler.single, CodeDraft.emit,
        CodeDraft.finished, program]

end Diachrony
