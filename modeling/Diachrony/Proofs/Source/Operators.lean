import Diachrony.Proofs.Source.FlagLists
import Diachrony.Proofs.Source.Gaps
import Diachrony.Proofs.Source.Readings

/-
  Operators and blanks in texts.

  An operator is a token by itself. It is neither a bracket
  nor a blank, and no flags start at it or directly behind
  it. A blank outside brackets makes a gap, if there is none
  yet.

  Key theorems include:
    * `separate_of_operator`
    * `flagsStartFrom_operator`
    * `flagsStartFrom_gap`
-/

namespace Diachrony

open Unicode

variable {rest : List Char}
variable {op : Char}

------------------------------------------------------------
-- Tokens
------------------------------------------------------------

/- An operator is a token by itself. -/
theorem separate_of_operator
    (hOp : op ∈ operators) :
    Separate (op :: rest) := by
  have hControl : ∀ op ∈ operators, isControl op = true :=
    forall_mem_of_all (by decide)
  intro c hMem
  cases Option.mem_some.mp hMem
  refine
    ⟨ne_of_operator hOp (by decide), fun depth => ?_⟩
  rw [isOrdinary, hControl _ hOp]
  rfl

theorem ne_escape_of_operator
    (hOp : op ∈ operators) :
    op ≠ '\\' :=
  ne_of_operator hOp (by decide)

theorem isOpening_of_operator
    (hOp : op ∈ operators) :
    isOpening op = false := by
  have hAll : ∀ op ∈ operators, isOpening op = false :=
    forall_mem_of_all (by decide)
  exact hAll op hOp

theorem openingOf?_of_operator
    (hOp : op ∈ operators) :
    openingOf? op = none := by
  have hAll : ∀ op ∈ operators, openingOf? op = none :=
    forall_mem_of_all (by decide)
  exact hAll op hOp

theorem bracketDepth_of_operator
    (hOp : op ∈ operators)
    (depth : Int) :
    bracketDepth depth op = depth := by
  simp [bracketDepth, isOpening_of_operator hOp,
    openingOf?_of_operator hOp]

theorem balances_of_operator
    {brackets : List Char}
    (hOp : op ∈ operators) :
    balances brackets (op :: rest) = balances brackets rest := by
  rw [balances_plain (ne_escape_of_operator hOp),
    isOpening_of_operator hOp, openingOf?_of_operator hOp]
  rfl

theorem exists_kind_of_operator
    (hOp : op ∈ operators) :
    ∃ kind, TokenKind.ofChar? op = some kind := by
  have hAll :
      ∀ op ∈ operators, (TokenKind.ofChar? op).isSome = true :=
    forall_mem_of_all (by decide)
  exact Option.isSome_iff_exists.mp (hAll op hOp)

theorem isOperator_of_operator
    (hOp : op ∈ operators) :
    isOperator op = true := by
  have hAll : ∀ op ∈ operators, isOperator op = true :=
    forall_mem_of_all (by decide)
  exact hAll op hOp

theorem unsigned_of_operator
    (hOp : op ∈ operators) :
    op ≠ '+' ∧ op ≠ '-' :=
  ⟨ne_of_operator hOp (by decide), ne_of_operator hOp (by decide)⟩

theorem separate_of_blank
    {c : Char}
    (hBlank : isBlank c = true) :
    Separate (c :: rest) := by
  intro d hMem
  cases Option.mem_some.mp hMem
  refine ⟨ne_of_blank hBlank (by decide), fun depth => ?_⟩
  rw [isOrdinary, hBlank, Bool.not_true, Bool.and_false,
    Bool.false_and]

/- Blanks in front of a text are not read. -/
theorem readsAs_blanks_iff
    {depth : Nat}
    {gap : List Char}
    {bares : List (TokenKind × String)}
    (hGap : ∀ c ∈ gap, isBlank c = true) :
    ReadsAs depth (gap ++ rest) bares ↔
      ReadsAs depth rest bares := by
  induction gap with
  | nil => exact Iff.rfl
  | cons c gap ih =>
      rcases List.forall_mem_cons.mp hGap with
        ⟨hBlank, hLater⟩
      rw [← ih hLater]
      constructor
      · intro hRead
        have hClosed := hRead.closed 0
        rw [List.cons_append,
          depthAfter_plain (ne_of_blank hBlank (by decide))] at hClosed
        rcases ReadsAs.exists_of_closed hClosed with
          ⟨others, hOthers⟩
        rwa [hRead.unique (hOthers.blank hBlank)]
      · exact .blank hBlank

/- A gap, or the end of the text, ends the last token. -/
theorem separate_of_gap
    {gap : List Char}
    (hGap : ∀ c ∈ gap, isBlank c = true)
    (hRest : gap = [] → rest = []) :
    Separate (gap ++ rest) := by
  cases gap with
  | nil =>
      rw [hRest rfl]
      exact .nil
  | cons c gap => exact separate_of_blank (hGap c List.mem_cons_self)

------------------------------------------------------------
-- Flags
------------------------------------------------------------

/- No flags start before it, and none directly behind. -/
theorem flagsStartFrom_operator
    {ε : Type}
    {isFlagList : List Char → Except ε Bool}
    {depth : Int}
    {gap : Option (List Char)}
    {passed : List Char}
    (hOp : op ∈ operators) :
    flagsStartFrom isFlagList depth gap passed (op :: rest) =
      flagsStartFrom isFlagList depth none (op :: passed)
        rest := by
  have hSign : op ≠ '!' := ne_of_operator hOp (by decide)
  rw [flagsStartFrom_plain (ne_escape_of_operator hOp)]
  simp only [bracketDepth_of_operator hOp,
    isBlank_of_operator hOp, mayStartFlags, if_neg hSign,
    isOperator_of_operator hOp, Bool.false_eq_true, if_false]
  split <;> rfl

theorem isOperator_of_blank
    {c : Char}
    (hBlank : isBlank c = true) :
    isOperator c = false := by
  have hOther :
      ∀ d ∈ ['>', '/', '!', '&', ',', '_', '|', '@'],
        isBlank d = false :=
    forall_mem_of_all (by decide)
  have hNe :
      ∀ d ∈ ['>', '/', '!', '&', ',', '_', '|', '@'], c ≠ d :=
    fun d hMem => ne_of_blank hBlank (hOther d hMem)
  simp only [List.forall_mem_cons] at hNe
  simp [isOperator, hNe]

/- Texts that end in blanks count as the same. -/
theorem EndsAlike.of_blank
    {passed before : List Char}
    {c d : Char}
    (hBlank : isBlank c = true)
    (hOther : isBlank d = true) :
    EndsAlike (c :: passed) (d :: before) where
  precede_eq := by
    simp [mayPrecedeFlags_cons, isOperator_of_blank hBlank,
      isOperator_of_blank hOther]
  escape_iff := by
    have hEscape : isBlank '\\' = false := by decide
    simp [ne_of_blank hBlank hEscape, ne_of_blank hOther hEscape]

/- A blank makes a gap, if none has been seen. -/
theorem flagsStartFrom_blank
    {ε : Type}
    {isFlagList : List Char → Except ε Bool}
    {seen : Option (List Char)}
    {passed : List Char}
    {c : Char}
    (hBlank : isBlank c = true) :
    flagsStartFrom isFlagList 0 seen passed (c :: rest) =
      flagsStartFrom isFlagList 0 (some (seen.getD passed))
        (c :: passed) rest := by
  rw [flagsStartFrom_plain (ne_of_blank hBlank (by decide))]
  simp only [bracketDepth_of_blank hBlank, if_pos hBlank]
  cases seen <;> rfl

theorem flagsStartFrom_gap
    {ε : Type}
    {isFlagList : List Char → Except ε Bool}
    {seen : Option (List Char)}
    {gap passed : List Char}
    (hGap : ∀ c ∈ gap, isBlank c = true)
    (hSome : gap ≠ []) :
    flagsStartFrom isFlagList 0 seen passed (gap ++ rest) =
      flagsStartFrom isFlagList 0 (some (seen.getD passed))
        (gap.reverse ++ passed) rest := by
  induction gap generalizing seen passed with
  | nil => exact absurd rfl hSome
  | cons c gap ih =>
      rcases List.forall_mem_cons.mp hGap with
        ⟨hBlank, hLater⟩
      rw [List.cons_append, flagsStartFrom_blank hBlank,
        List.reverse_cons, List.append_assoc]
      by_cases hNone : gap = []
      · rw [hNone]
        rfl
      · exact ih hLater hNone

/- Nothing starts behind the last gap of a text. -/
theorem flagsStartFrom_blanks
    {ε : Type}
    {isFlagList : List Char → Except ε Bool}
    {seen : Option (List Char)}
    {gap passed : List Char}
    (hGap : ∀ c ∈ gap, isBlank c = true) :
    flagsStartFrom isFlagList 0 seen passed gap =
      .ok none := by
  by_cases hNone : gap = []
  · rw [hNone]
    rfl
  · rw [← List.append_nil gap, flagsStartFrom_gap hGap hNone]
    rfl

/- The first operator behind a gap ends it. -/
theorem flagsStartFrom_gap_operator
    {ε : Type}
    {isFlagList : List Char → Except ε Bool}
    {seen : Option (List Char)}
    {gap passed : List Char}
    (hGap : ∀ c ∈ gap, isBlank c = true)
    (hOp : op ∈ operators) :
    flagsStartFrom isFlagList 0 seen passed
        (gap ++ op :: rest) =
      flagsStartFrom isFlagList 0 none
        (op :: (gap.reverse ++ passed)) rest := by
  by_cases hNone : gap = []
  · rw [hNone]
    exact flagsStartFrom_operator hOp
  · rw [flagsStartFrom_gap hGap hNone,
      flagsStartFrom_operator hOp]

end Diachrony
