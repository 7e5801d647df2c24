import Diachrony.Pattern
import Diachrony.Unicode.Blank

/-
  Matching programs.

  A pattern is laid out as a list of instructions with
  absolute addresses. Every instruction but a jump, a
  choice and the final acceptance continues at the next
  address. A choice names the address that is tried first
  and the address that is tried afterwards.

  Key definitions include:
    * `Instruction`
    * `Element.codeSize`
    * `Element.code`
    * `Pattern.program`
    * `Code.listing`
-/

namespace Diachrony

------------------------------------------------------------
-- Instructions
------------------------------------------------------------

/-
  Instructions of a matching program. The members of a
  category are kept with it in the order of trial.
-/
inductive Instruction where
  | literal (symbol : Symbol)
  | any
  | category
      (ref : CategoryRef)
      (trials : List (Nat × Member))
  | choice (first second : Nat)
  | jump (address : Nat)
  | edge
  | target (reversed : Bool)
  | ditto
  | fail
  | accept
  deriving Repr, DecidableEq

/- A run of instructions. -/
abbrev Code :=
  List Instruction

/-
  A choice between a body and what follows it. The greedy
  choice tries the body first.
-/
def Instruction.enterOrSkip
    (isLazy : Bool)
    (body skip : Nat) : Instruction :=
  if isLazy then .choice skip body else .choice body skip

/- The instruction that matches a category reference. -/
def CategoryRef.instruction
    (ref : CategoryRef) : Instruction :=
  match ref.category with
  | none => .fail
  | some category => .category ref category.trials

------------------------------------------------------------
-- Layout of repetitions
------------------------------------------------------------

namespace Code

/- A body that is entered once or skipped. -/
def once
    (body : Nat → Code)
    (size : Nat)
    (isLazy : Bool)
    (start : Nat) : Code :=
  .enterOrSkip isLazy (start + 1) (start + 1 + size) ::
    body (start + 1)

/-
  A body that is entered any number of times. The body must
  not succeed without consuming a symbol.
-/
def loop
    (body : Nat → Code)
    (size : Nat)
    (isLazy : Bool)
    (start : Nat) : Code :=
  .enterOrSkip isLazy (start + 1) (start + 2 + size) ::
    (body (start + 1) ++ [.jump start])

/- A number of copies of a body, one after another. -/
def copies
    (body : Nat → Code)
    (size : Nat)
    (n : Nat)
    (start : Nat) : Code :=
  (List.range n).flatMap fun i => body (start + i * size)

/-
  A body that is entered or left out, where leaving it out
  leads to a given address.
-/
def guarded
    (body : Nat → Code)
    (isLazy : Bool)
    (skip : Nat)
    (start : Nat) : Code :=
  .enterOrSkip isLazy (start + 1) skip :: body (start + 1)

/-
  A number of copies of a body, each of which may be the
  first one left out. They all skip to the same address.
-/
def optionalCopies
    (body : Nat → Code)
    (size : Nat)
    (isLazy : Bool)
    (skip : Nat)
    (n : Nat)
    (start : Nat) : Code :=
  copies (guarded body isLazy skip) (1 + size) n start

/- Copies are laid out from the first one on. -/
theorem copies_succ
    (body : Nat → Code)
    (size n start : Nat) :
    copies body size (n + 1) start =
      body start ++ copies body size n (start + size) := by
  have hShift : ∀ i,
      start + (i + 1) * size = start + size + i * size := by
    intro i
    rw [Nat.succ_mul]
    omega
  simp only [copies, List.range_succ_eq_map, List.flatMap_cons,
    List.flatMap_map, Nat.zero_mul, Nat.add_zero,
    Nat.succ_eq_add_one, hShift]

end Code

------------------------------------------------------------
-- Layout of elements
------------------------------------------------------------

mutual

/- The number of instructions of an element. -/
def Element.codeSize : Element → Nat
  | .literal _ => 1
  | .category _ => 1
  | .wildcard => 1
  | .gap _ => 3
  | .edge => 1
  | .null => 0
  | .target _ => 1
  | .ditto => 1
  | .optional body _ => 1 + Pattern.codeSize body
  | .repeated body min max _ =>
      requiredCopies min * Element.codeSize body +
        match max with
        | some most =>
            furtherCopies min most *
              (1 + Element.codeSize body)
        | none =>
            if body.nullable then
              1 + Element.codeSize body
            else
              2 + Element.codeSize body
  | .foreign _ => 0

/- The number of instructions of a pattern. -/
def Pattern.codeSize : Pattern → Nat
  | [] => 0
  | element :: rest =>
      Element.codeSize element + Pattern.codeSize rest

end

mutual

/-
  The instructions of an element that is laid out from a
  given address on. An unbounded repetition of a nullable
  body enters the body at most once more, because it could
  otherwise go round without consuming a symbol.
-/
def Element.code : Element → Nat → Code
  | .literal symbol, _ => [.literal symbol]
  | .category ref, _ => [ref.instruction]
  | .wildcard, _ => [.any]
  | .gap isLazy, start =>
      Code.loop (fun _ => [.any]) 1 isLazy start
  | .edge, _ => [.edge]
  | .null, _ => []
  | .target reversed, _ => [.target reversed]
  | .ditto, _ => [.ditto]
  | .optional body isLazy, start =>
      Code.once (Pattern.code body) (Pattern.codeSize body)
        isLazy start
  | .repeated body min max isLazy, start =>
      let size := body.codeSize
      let required := requiredCopies min
      let next := start + required * size
      Code.copies (Element.code body) size required start ++
        match max with
        | some most =>
            let further := furtherCopies min most
            Code.optionalCopies (Element.code body) size
              isLazy (next + further * (1 + size))
              further next
        | none =>
            if body.nullable then
              Code.once (Element.code body) size isLazy next
            else
              Code.loop (Element.code body) size isLazy next
  | .foreign _, _ => []

/-
  The instructions of a pattern that is laid out from a
  given address on.
-/
def Pattern.code : Pattern → Nat → Code
  | [], _ => []
  | element :: rest, start =>
      Element.code element start ++
        Pattern.code rest (start + element.codeSize)

end

/- The program that matches a pattern. -/
def Pattern.program
    (pattern : Pattern) : Code :=
  Pattern.code pattern 0 ++ [.accept]

------------------------------------------------------------
-- Listing
------------------------------------------------------------

/- The name and the shown operands of an instruction. -/
def Instruction.describe : Instruction → List String
  | .literal symbol => ["LIT", symbol]
  | .any => ["ANY"]
  | .category ref _ => ["CAT", ref.text]
  | .choice first second =>
      ["SPLIT", toString first, toString second]
  | .jump address => ["JMP", toString address]
  | .edge => ["BOUND"]
  | .target reversed =>
      ["TARGET", if reversed then "True" else "False"]
  | .ditto => ["DITTO"]
  | .fail => ["FAIL"]
  | .accept => ["MATCH"]

/- A number set flush right in three columns. -/
def flushRight
    (n : Nat) : String :=
  let digits := (toString n).toList
  String.ofList
    (List.replicate (3 - digits.length) ' ' ++ digits)

/- One line of a listing. -/
def Instruction.line
    (address : Nat)
    (instruction : Instruction) : String :=
  let line :=
    flushRight address ++ " " ++
      " ".intercalate instruction.describe
  String.ofList (Unicode.trimRight line.toList)

/- A numbered listing of instructions. -/
def Code.listing
    (code : Code) : List String :=
  code.zipIdx.map fun entry =>
    Instruction.line entry.2 entry.1

end Diachrony
