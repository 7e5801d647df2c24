import Diachrony.Proofs.Source.Balance

/-
  The bracket that is to blame.

  A text whose brackets are not nested is refused for one of
  them. It is the first closing bracket that does not belong
  to the innermost open one. If there is none it is the
  innermost bracket that is still open at the end.

  Key definitions include:
    * `placedBrackets`
    * `LeavesOpen`
    * `Blames`

  Key theorems include:
    * `blames_of_checkBrackets`
    * `Blames.checkPlaced_eq`
    * `checkBalanced_blames`
-/

namespace Diachrony

------------------------------------------------------------
-- Brackets with their columns
------------------------------------------------------------

/-
  The brackets of a text that are not escaped, in order and
  with their columns. The text begins at a given column.
-/
def placedBrackets
    (column : Int) : List Char → List (Char × Int)
  | [] => []
  | '\\' :: _ :: rest => placedBrackets (column + 2) rest
  | c :: rest =>
      if isOpening c ∨ (openingOf? c).isSome then
        (c, column) :: placedBrackets (column + 1) rest
      else
        placedBrackets (column + 1) rest

/-
  Brackets behind which some are open, the innermost one
  first: brackets that are nested, and between them those
  that stay open.
-/
inductive LeavesOpen :
    List (Char × Int) → List (Char × Int) → Prop
  | none
      {brackets : List (Char × Int)}
      (hNested : Nested (brackets.map Prod.fst)) :
      LeavesOpen [] brackets
  | one
      {bracket : Char × Int}
      {outer before inside : List (Char × Int)}
      (hOuter : LeavesOpen outer before)
      (hOpening : isOpening bracket.1 = true)
      (hInside : Nested (inside.map Prod.fst)) :
      LeavesOpen (bracket :: outer)
        (before ++ bracket :: inside)

/-
  An error that names the bracket to blame, at its column:
  the first one that closes another bracket than the
  innermost open one, or the innermost one that is open at
  the end.
-/
inductive Blames
    (line : Int)
    (brackets : List (Char × Int)) : SourceError → Prop
  | unbalanced
      {before after opened : List (Char × Int)}
      {bracket : Char × Int}
      {opening : Char}
      (hBrackets : brackets = before ++ bracket :: after)
      (hOpened : LeavesOpen opened before)
      (hPair : openingOf? bracket.1 = some opening)
      (hOther :
        ∀ innermost ∈ opened.head?, innermost.1 ≠ opening) :
      Blames line brackets
        { cause := .unbalanced bracket.1
          line := line
          column := bracket.2 }
  | unclosed
      {innermost : Char × Int}
      {outer : List (Char × Int)}
      (hOpened : LeavesOpen (innermost :: outer) brackets) :
      Blames line brackets
        { cause := .unclosed innermost.1
          line := line
          column := innermost.2 }

variable {line column : Int}
variable {opened outer brackets before after rest :
  List (Char × Int)}
variable {bracket innermost : Char × Int}
variable {opening : Char}
variable {text : List Char}
variable {e : SourceError}

------------------------------------------------------------
-- One bracket more
------------------------------------------------------------

theorem Nested.append
    {front back : List Char}
    (hFront : Nested front)
    (hBack : Nested back) :
    Nested (front ++ back) := by
  induction hFront with
  | none => exact hBack
  | pair hPair hInside _ _ ihBehind =>
      rw [List.cons_append, List.append_assoc,
        List.cons_append]
      exact .pair hPair hInside ihBehind

namespace LeavesOpen

/- An opening bracket is open behind itself. -/
theorem push
    (hOpened : LeavesOpen opened before)
    (hOpening : isOpening bracket.1 = true) :
    LeavesOpen (bracket :: opened) (before ++ [bracket]) :=
  .one hOpened hOpening .none

/- Nested brackets leave those open that were. -/
theorem append_nested
    (hOpened : LeavesOpen opened before)
    (hNested : Nested (after.map Prod.fst)) :
    LeavesOpen opened (before ++ after) := by
  cases hOpened with
  | none hBefore =>
      refine .none ?_
      rw [List.map_append]
      exact hBefore.append hNested
  | one hOuter hOpening hInside =>
      rw [List.append_assoc, List.cons_append]
      refine .one hOuter hOpening ?_
      rw [List.map_append]
      exact hInside.append hNested

/- The innermost open bracket is closed by its own one. -/
theorem pop
    (hOpened : LeavesOpen (innermost :: outer) before)
    (hPair : openingOf? bracket.1 = some innermost.1) :
    LeavesOpen outer (before ++ [bracket]) := by
  cases hOpened with
  | one hOuter hOpening hInside =>
      rw [List.append_assoc, List.cons_append]
      refine hOuter.append_nested ?_
      rw [List.map_cons, List.map_append]
      exact .pair hPair hInside .none

end LeavesOpen

------------------------------------------------------------
-- What is refused blames the culprit
------------------------------------------------------------

/-
  The brackets that are open at some place of a text are
  those that the brackets before it leave open.
-/
theorem blames_of_checkBrackets
    (hOpened : LeavesOpen opened before)
    (hCheck : checkBrackets line column opened text = .error e) :
    Blames line (before ++ placedBrackets column text) e := by
  fun_induction checkBrackets line column opened text
      generalizing before
  case case1 => cases hCheck
  case case2 =>
    cases hCheck
    rw [placedBrackets, List.append_nil]
    exact .unclosed hOpened
  case case3 ih => exact ih hOpened hCheck
  case case4 hOther hOpening ih =>
    rw [placedBrackets.eq_3 _ _ _ hOther,
      if_pos (Or.inl hOpening), List.append_cons]
    exact ih (hOpened.push hOpening) hCheck
  case case5 hOther hOpening hKind ih =>
    rw [placedBrackets.eq_3 _ _ _ hOther, if_neg (by simp_all)]
    exact ih hOpened hCheck
  case case6 hOther hOpening _ _ _ hKind ih =>
    rw [placedBrackets.eq_3 _ _ _ hOther,
      if_pos (by simp [hKind]), List.append_cons]
    exact ih (hOpened.pop hKind) hCheck
  case case7 hOther hOpening _ _ _ _ hKind hBracket =>
    cases hCheck
    rw [placedBrackets.eq_3 _ _ _ hOther,
      if_pos (by simp [hKind])]
    refine .unbalanced rfl hOpened hKind ?_
    rintro _ ⟨⟩
    exact hBracket
  case case8 hOther hOpening _ hKind =>
    cases hCheck
    rw [placedBrackets.eq_3 _ _ _ hOther,
      if_pos (by simp [hKind])]
    refine .unbalanced rfl hOpened hKind ?_
    intro innermost hNone
    cases hNone

------------------------------------------------------------
-- The culprit is refused
------------------------------------------------------------

/- The check of brackets without the text between them. -/
def checkPlaced
    (line : Int)
    (opened : List (Char × Int)) :
    List (Char × Int) → Except SourceError Unit
  | [] =>
      match opened with
      | [] => .ok ()
      | (bracket, place) :: _ =>
          .error
            { cause := .unclosed bracket
              line := line
              column := place }
  | (c, place) :: rest =>
      if isOpening c then
        checkPlaced line ((c, place) :: opened) rest
      else
        match openingOf? c, opened with
        | none, _ => checkPlaced line opened rest
        | some opening, (bracket, _) :: outer =>
            if bracket = opening then
              checkPlaced line outer rest
            else
              .error
                { cause := .unbalanced c
                  line := line
                  column := place }
        | some _, [] =>
            .error
              { cause := .unbalanced c
                line := line
                column := place }

theorem checkPlaced_opening
    (hOpening : isOpening bracket.1 = true) :
    checkPlaced line opened (bracket :: rest) =
      checkPlaced line (bracket :: opened) rest := by
  rw [checkPlaced.eq_def]
  exact if_pos hOpening

theorem checkPlaced_closing
    (hPair : openingOf? bracket.1 = some innermost.1) :
    checkPlaced line (innermost :: opened) (bracket :: rest) =
      checkPlaced line opened rest := by
  rw [checkPlaced.eq_def]
  simp [not_isOpening_of_pair hPair, hPair]

/- A bracket that closes another one than its own is refused. -/
theorem checkPlaced_unbalanced
    (hPair : openingOf? bracket.1 = some opening)
    (hOther :
      ∀ innermost ∈ opened.head?, innermost.1 ≠ opening) :
    checkPlaced line opened (bracket :: rest) =
      .error
        { cause := .unbalanced bracket.1
          line := line
          column := bracket.2 } := by
  rw [checkPlaced.eq_def]
  cases opened with
  | nil => simp [not_isOpening_of_pair hPair, hPair]
  | cons innermost outer =>
      simp [not_isOpening_of_pair hPair, hPair,
        hOther innermost rfl]

/- The check looks at nothing but the brackets. -/
theorem checkBrackets_eq_checkPlaced :
    checkBrackets line column opened text =
      checkPlaced line opened (placedBrackets column text) := by
  fun_induction checkBrackets line column opened text
  case case1 => rfl
  case case2 => rfl
  case case3 ih => exact ih
  case case4 hOther hOpening ih =>
    rw [placedBrackets.eq_3 _ _ _ hOther,
      if_pos (Or.inl hOpening), checkPlaced_opening hOpening]
    exact ih
  case case5 hOther hOpening hKind ih =>
    rw [placedBrackets.eq_3 _ _ _ hOther, if_neg (by simp_all)]
    exact ih
  case case6 hOther hOpening _ _ _ hKind ih =>
    rw [placedBrackets.eq_3 _ _ _ hOther,
      if_pos (by simp [hKind]), checkPlaced_closing hKind]
    exact ih
  case case7 hOther hOpening _ _ _ _ hKind hBracket =>
    rw [placedBrackets.eq_3 _ _ _ hOther,
      if_pos (by simp [hKind]), checkPlaced_unbalanced hKind]
    rintro _ ⟨⟩
    exact hBracket
  case case8 hOther hOpening _ hKind =>
    rw [placedBrackets.eq_3 _ _ _ hOther,
      if_pos (by simp [hKind]), checkPlaced_unbalanced hKind]
    intro innermost hNone
    cases hNone

/- Nested brackets are passed over. -/
theorem Nested.checkPlaced_append
    (hNested : Nested (brackets.map Prod.fst)) :
    checkPlaced line opened (brackets ++ rest) =
      checkPlaced line opened rest := by
  generalize hChars : brackets.map Prod.fst = chars at hNested
  induction hNested generalizing opened brackets rest with
  | none =>
      rw [List.map_eq_nil_iff.mp hChars, List.nil_append]
  | pair hPair _ _ ihInside ihBehind =>
      obtain ⟨first, more, rfl, hFirst, hMore⟩ :=
        List.map_eq_cons_iff.mp hChars
      obtain ⟨inside, others, rfl, hInside, hOthers⟩ :=
        List.map_eq_append_iff.mp hMore
      obtain ⟨last, behind, rfl, hLast, hBehind⟩ :=
        List.map_eq_cons_iff.mp hOthers
      rw [← hFirst, ← hLast] at hPair
      rw [List.cons_append, List.append_assoc,
        List.cons_append,
        checkPlaced_opening (isOpening_of_pair hPair),
        ihInside hInside, checkPlaced_closing hPair,
        ihBehind hBehind]

/- Behind brackets that leave some open, these are open. -/
theorem LeavesOpen.checkPlaced_append
    (hOpened : LeavesOpen opened before) :
    checkPlaced line [] (before ++ rest) =
      checkPlaced line opened rest := by
  induction hOpened generalizing rest with
  | none hNested => exact hNested.checkPlaced_append
  | one _ hOpening hInside ih =>
      rw [List.append_assoc, ih, List.cons_append,
        checkPlaced_opening hOpening,
        hInside.checkPlaced_append]

/- Whatever is to blame is what the check names. -/
theorem Blames.checkPlaced_eq
    (hBlames : Blames line brackets e) :
    checkPlaced line [] brackets = .error e := by
  cases hBlames with
  | unbalanced hBrackets hOpened hPair hOther =>
      rw [hBrackets, hOpened.checkPlaced_append]
      exact checkPlaced_unbalanced hPair hOther
  | unclosed hOpened =>
      rw [← List.append_nil brackets,
        hOpened.checkPlaced_append]
      rfl

------------------------------------------------------------
-- Whole texts
------------------------------------------------------------

/-
  A text is accepted if and only if its brackets are nested.
  Otherwise it is refused for the bracket that is to blame.
-/
theorem checkBalanced_blames
    (text : List Char)
    (line column : Int) :
    (checkBalanced text line column = .ok () ↔
        Balanced text) ∧
      ∀ e,
        checkBalanced text line column = .error e ↔
          Blames line (placedBrackets column text) e := by
  refine ⟨checkBalanced_eq_ok_iff, fun e => ⟨fun hCheck => ?_,
    fun hBlames => ?_⟩⟩
  · have hNothing : LeavesOpen [] [] := .none .none
    exact blames_of_checkBrackets hNothing hCheck
  · rw [checkBalanced, checkBrackets_eq_checkPlaced]
    exact hBlames.checkPlaced_eq

end Diachrony
