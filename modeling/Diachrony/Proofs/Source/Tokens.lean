import Diachrony.Source.Token

/-
  The tokens of a text.

  A run of ordinary text is one token and so is a character
  that is an operator by itself. No token is without text.

  Key definitions include:
    * `TextsNonempty`

  Key theorems include:
    * `readTokens_run`
    * `readTokens_sign`
    * `TokenText.read_textsNonempty`
-/

namespace Diachrony

open Unicode

------------------------------------------------------------
-- One token
------------------------------------------------------------

/- What is ordinary inside braces is so outside of them. -/
theorem isOrdinary_outside
    {depth : Nat}
    {c : Char}
    (hOrdinary : isOrdinary depth c = true) :
    isOrdinary 0 c = true := by
  rw [isOrdinary, Bool.and_eq_true] at hOrdinary
  rw [isOrdinary, hOrdinary.1]
  simp

/- A run of ordinary text is read as one token. -/
theorem readTokens_run
    {line column : Int}
    {depth : Nat}
    {c : Char}
    {run rest : List Char}
    (hOrdinary : ∀ d ∈ c :: run, isOrdinary depth d = true)
    (hRest : ∀ d ∈ rest.head?, isOrdinary depth d = false) :
    readTokens line column depth (c :: (run ++ rest)) =
      Token.before ⟨.text, String.ofList (c :: run), column⟩
        (readTokens line (column + 1 + run.length) depth
          rest) := by
  have hFirst := hOrdinary c List.mem_cons_self
  have hRun : ∀ d ∈ run, isOrdinary depth d = true :=
    fun d hMem => hOrdinary d (List.mem_cons_of_mem c hMem)
  have hStop :
      rest.takeWhile (isOrdinary depth) = [] ∧
        rest.dropWhile (isOrdinary depth) = rest := by
    cases rest with
    | nil => exact ⟨rfl, rfl⟩
    | cons d more => simp [hRest d rfl]
  simp only [isOrdinary, isControl, Bool.and_eq_true,
    Bool.not_eq_true', Bool.or_eq_false_iff,
    decide_eq_false_iff_not, Bool.and_eq_false_iff,
    Option.isSome_eq_false_iff,
    Option.isNone_iff_eq_none] at hFirst
  rcases hFirst with ⟨⟨⟨⟨hKind, hStar⟩, hEscape⟩, hBlank⟩, hPlus⟩
  rw [readTokens.eq_def]
  simp only [hKind, hStar, hEscape, hBlank,
    not_and_of_not_or_not hPlus, hStop,
    List.takeWhile_append_of_pos hRun,
    List.dropWhile_append_of_pos hRun, List.append_nil,
    false_and, if_false, Bool.false_eq_true]

/- So is a character that is a token by itself. -/
theorem readTokens_sign
    {line column : Int}
    {depth : Nat}
    {c : Char}
    {kind : TokenKind}
    {rest : List Char}
    (hKind : TokenKind.ofChar? c = some kind)
    (hBlank : isBlank c = false) :
    readTokens line column depth (c :: rest) =
      (Token.ofChar kind c column).before
        (readTokens line (column + 1) (braceDepth depth c)
          rest) := by
  have hEscape : c ≠ '\\' := by
    rintro rfl
    cases hKind
  have hStar : c ≠ '*' := by
    rintro rfl
    cases hKind
  have hPlus : c ≠ '+' := by
    rintro rfl
    cases hKind
  rw [readTokens.eq_def]
  simp only [hKind, hStar, hEscape, hBlank, hPlus, false_and,
    if_false, Bool.false_eq_true]

------------------------------------------------------------
-- All tokens
------------------------------------------------------------

/- No token is without text. -/
def TextsNonempty
    (tokens : List Token) : Prop :=
  ∀ token ∈ tokens, token.text ≠ ""

theorem TextsNonempty.of_suffix
    {tokens all : List Token}
    (hTexts : TextsNonempty all)
    (hTokens : tokens <:+ all) :
    TextsNonempty tokens :=
  fun token hMem => hTexts token (hTokens.subset hMem)

theorem Token.before_eq_ok
    {token : Token}
    {tokens : List Token}
    {later : Except SourceError (List Token)}
    (hBefore : token.before later = .ok tokens) :
    ∃ others, later = .ok others ∧ tokens = token :: others := by
  cases later with
  | error e => cases hBefore
  | ok others =>
      cases hBefore
      exact ⟨others, rfl, rfl⟩

/- No token of a text is without text. -/
theorem readTokens_textsNonempty
    {line column : Int}
    {depth : Nat}
    {text : List Char}
    {tokens : List Token}
    (hRead : readTokens line column depth text = .ok tokens) :
    TextsNonempty tokens := by
  fun_induction readTokens line column depth text generalizing
    tokens
  case case1 =>
    cases hRead
    nofun
  case case2 =>
    rename_i ih
    exact ih hRead
  case case3 => cases hRead
  all_goals
    rename_i ih
    rcases Token.before_eq_ok hRead with ⟨others, hOthers, rfl⟩
    refine List.forall_mem_cons.mpr ⟨?_, ih hOthers⟩
    simp [Token.ofChar]

theorem TokenText.read_textsNonempty
    {text : List Char}
    {line column : Int}
    {all : TokenText}
    (hRead : TokenText.read text line column = .ok all) :
    TextsNonempty all.tokens := by
  unfold TokenText.read at hRead
  split at hRead
  · cases hRead
  · rename_i hTokens
    cases hRead
    exact readTokens_textsNonempty hTokens

end Diachrony
