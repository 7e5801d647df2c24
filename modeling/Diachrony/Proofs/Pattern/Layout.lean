import Diachrony.Pattern.Program

/-
  The layout of programs.

  The size that is set aside for an element is the number of
  its instructions, wherever it is laid out. A run of
  instructions that stands at an address of a program can be
  taken apart into its pieces, each at its own address.

  Key definitions include:
    * `Code.StandsAt`

  Key theorems include:
    * `Code.StandsAt.left`
    * `Code.StandsAt.right`
    * `Pattern.length_code`
-/

namespace Diachrony

------------------------------------------------------------
-- Places in a program
------------------------------------------------------------

namespace Code

/- A run of instructions stands at an address of a program. -/
def StandsAt
    (part : Code)
    (address : Nat)
    (program : Array Instruction) : Prop :=
  ∀ i instruction,
    part[i]? = some instruction →
      program[address + i]? = some instruction

namespace StandsAt

variable {program : Array Instruction}
variable {address : Nat}
variable {part first second : Code}
variable {instruction : Instruction}

/- A program stands at its own beginning. -/
theorem self
    (code : Code) :
    code.StandsAt 0 code.toArray := by
  intro i instruction hInstruction
  simpa using hInstruction

theorem head
    (hCode : StandsAt (instruction :: part) address program) :
    program[address]? = some instruction :=
  hCode 0 instruction rfl

theorem tail
    (hCode : StandsAt (instruction :: part) address program) :
    part.StandsAt (address + 1) program := by
  intro i later hLater
  have hShift : address + 1 + i = address + (i + 1) := by
    omega
  rw [hShift]
  exact hCode (i + 1) later hLater

theorem left
    (hCode : StandsAt (first ++ second) address program) :
    first.StandsAt address program := by
  intro i instruction hInstruction
  apply hCode i instruction
  have hInside : i < first.length :=
    (List.getElem?_eq_some_iff.mp hInstruction).1
  rw [List.getElem?_append_left hInside]
  exact hInstruction

theorem right
    (hCode : StandsAt (first ++ second) address program) :
    second.StandsAt (address + first.length) program := by
  intro i instruction hInstruction
  rw [Nat.add_assoc]
  apply hCode (first.length + i) instruction
  rw [List.getElem?_append_right (Nat.le_add_right _ _)]
  rw [Nat.add_sub_cancel_left]
  exact hInstruction

end StandsAt

------------------------------------------------------------
-- Sizes
------------------------------------------------------------

variable {body : Nat → Code}
variable {size : Nat}

theorem length_once
    (hBody : ∀ start, (body start).length = size)
    (isLazy : Bool)
    (start : Nat) :
    (once body size isLazy start).length = 1 + size := by
  simp only [once, List.length_cons, hBody]
  omega

theorem length_loop
    (hBody : ∀ start, (body start).length = size)
    (isLazy : Bool)
    (start : Nat) :
    (loop body size isLazy start).length = 2 + size := by
  simp only [loop, List.length_cons, List.length_append,
    List.length_nil, hBody]
  omega

theorem length_copies
    (hBody : ∀ start, (body start).length = size)
    (n start : Nat) :
    (copies body size n start).length = n * size := by
  induction n generalizing start with
  | zero => simp [copies]
  | succ n ih =>
      rw [copies_succ, List.length_append, hBody, ih]
      rw [Nat.succ_mul, Nat.add_comm]

theorem length_optionalCopies
    (hBody : ∀ start, (body start).length = size)
    (isLazy : Bool)
    (skip n start : Nat) :
    (optionalCopies body size isLazy skip n start).length =
      n * (1 + size) := by
  apply length_copies
  intro start
  simp only [guarded, List.length_cons, hBody]
  omega

end Code

mutual

/- The size of an element is the number of its instructions. -/
theorem Element.length_code :
    (element : Element) →
      ∀ start, (element.code start).length = element.codeSize
  | .literal _, _ => rfl
  | .category _, _ => rfl
  | .wildcard, _ => rfl
  | .gap _, _ => rfl
  | .edge, _ => rfl
  | .null, _ => rfl
  | .target _, _ => rfl
  | .ditto, _ => rfl
  | .optional body isLazy, start =>
      Code.length_once (Pattern.length_code body) isLazy start
  | .repeated body min max isLazy, start => by
      have hBody := Element.length_code body
      simp only [Element.code, Element.codeSize,
        List.length_append, Code.length_copies hBody]
      cases max with
      | some most =>
          simp only [Code.length_optionalCopies hBody]
      | none =>
          cases body.nullable with
          | true =>
              simp only [if_true, Code.length_once hBody]
          | false =>
              simp only [Bool.false_eq_true, if_false,
                Code.length_loop hBody]
  | .foreign _, _ => rfl

/- The size of a pattern is the number of its instructions. -/
theorem Pattern.length_code :
    (pattern : Pattern) →
      ∀ start,
        (Pattern.code pattern start).length =
          Pattern.codeSize pattern
  | [], _ => rfl
  | element :: rest, start => by
      simp only [Pattern.code, Pattern.codeSize,
        List.length_append, Element.length_code element,
        Pattern.length_code rest]

end

end Diachrony
