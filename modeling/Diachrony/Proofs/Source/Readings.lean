import Diachrony.Proofs.Source.Columns
import Diachrony.Proofs.Source.Parts
import Diachrony.Proofs.Source.Tokens

/-
  What texts are read as.

  Tokens stand in columns, but what a text is read as does
  not depend on where it stands. Blanks are not read at all.
  A text in parts is read part by part, if no part extends
  the last token before it.

  Key definitions include:
    * `Token.bare`
    * `ReadsAs`
    * `Separate`

  Key theorems include:
    * `readTokens_isOk`
    * `ReadsAs.append`
    * `ReadsAs.exists_parts`
    * `exists_moveBy`
-/

namespace Diachrony

open Unicode

------------------------------------------------------------
-- Tokens
------------------------------------------------------------

/- What a token is apart from its column. -/
def Token.bare
    (token : Token) : TokenKind × String :=
  (token.kind, token.text)

/-
  A text inside a depth of braces that is read as certain
  tokens wherever it stands.
-/
def ReadsAs
    (depth : Nat)
    (text : List Char)
    (bares : List (TokenKind × String)) : Prop :=
  ∀ line column,
    ∃ tokens,
      readTokens line column depth text = .ok tokens ∧
        tokens.map Token.bare = bares

/- The depth of braces that a text leaves. -/
def bracesAfter
    (depth : Nat) : List Char → Nat
  | [] => depth
  | '\\' :: _ :: rest => bracesAfter depth rest
  | c :: rest => bracesAfter (braceDepth depth c) rest

/- A text that cannot extend a token before it. -/
def Separate
    (rest : List Char) : Prop :=
  ∀ c ∈ rest.head?,
    c ≠ '*' ∧ ∀ depth, isOrdinary depth c = false

namespace ReadsAs

variable {depth : Nat}
variable {rest : List Char}
variable {bares : List (TokenKind × String)}
variable {c : Char}

theorem nil :
    ReadsAs depth [] [] :=
  fun _ _ => ⟨[], by rw [readTokens.eq_def], rfl⟩

/-
  A text that is a token and what follows it, wherever it
  stands.
-/
theorem of_before
    {text : List Char}
    {bare : TokenKind × String}
    {later : Nat}
    (token : Int → Token)
    (width : Int)
    (hBare : ∀ column, (token column).bare = bare)
    (hText : ∀ line column,
      readTokens line column depth text =
        (token column).before
          (readTokens line (column + width) later rest))
    (hRest : ReadsAs later rest bares) :
    ReadsAs depth text (bare :: bares) := by
  intro line column
  rcases hRest line (column + width) with
    ⟨tokens, hTokens, rfl⟩
  refine ⟨token column :: tokens, ?_, ?_⟩
  · rw [hText, hTokens]
    rfl
  · rw [List.map_cons, hBare]

theorem blank
    (hBlank : isBlank c = true)
    (hRest : ReadsAs depth rest bares) :
    ReadsAs depth (c :: rest) bares := by
  intro line column
  rw [readTokens.eq_def]
  simp only [if_pos hBlank]
  exact hRest line (column + 1)

theorem escape
    (hRest : ReadsAs depth rest bares) :
    ReadsAs depth ('\\' :: c :: rest)
      ((.escape, String.ofList [c]) :: bares) := by
  have hBlank : ¬isBlank '\\' = true := by decide
  refine
    .of_before (Token.ofChar .escape c) 2
      (fun _ => rfl) (fun line column => ?_) hRest
  rw [readTokens.eq_def]
  simp only [if_neg hBlank, if_true]

theorem doubleStar
    (hRest : ReadsAs depth rest bares) :
    ReadsAs depth ('*' :: '*' :: rest)
      ((.doubleStar, "**") :: bares) := by
  have hBlank : ¬isBlank '*' = true := by decide
  refine
    .of_before (Token.mk .doubleStar "**") 2
      (fun _ => rfl) (fun line column => ?_) hRest
  rw [readTokens.eq_def]
  simp [hBlank]

theorem star
    (hNext : rest.head? ≠ some '*')
    (hRest : ReadsAs depth rest bares) :
    ReadsAs depth ('*' :: rest)
      ((.star, String.ofList ['*']) :: bares) := by
  have hBlank : ¬isBlank '*' = true := by decide
  refine
    .of_before (Token.ofChar .star '*') 1
      (fun _ => rfl) (fun line column => ?_) hRest
  rw [readTokens.eq_def]
  simp [hBlank, hNext]

theorem plus
    (hDepth : 0 < depth)
    (hRest : ReadsAs depth rest bares) :
    ReadsAs depth ('+' :: rest)
      ((.plus, String.ofList ['+']) :: bares) := by
  have hBlank : ¬isBlank '+' = true := by decide
  refine
    .of_before (Token.ofChar .plus '+') 1
      (fun _ => rfl) (fun line column => ?_) hRest
  rw [readTokens.eq_def]
  simp [hBlank, hDepth]

theorem sign
    {kind : TokenKind}
    (hKind : TokenKind.ofChar? c = some kind)
    (hBlank : isBlank c = false)
    (hRest : ReadsAs (braceDepth depth c) rest bares) :
    ReadsAs depth (c :: rest)
      ((kind, String.ofList [c]) :: bares) :=
  .of_before (Token.ofChar kind c) 1 (fun _ => rfl)
    (fun _ _ => readTokens_sign hKind hBlank) hRest

theorem run
    {run : List Char}
    (hOrdinary : ∀ d ∈ c :: run, isOrdinary depth d = true)
    (hSeparate : ∀ d ∈ rest.head?, isOrdinary depth d = false)
    (hRest : ReadsAs depth rest bares) :
    ReadsAs depth (c :: (run ++ rest))
      ((.text, String.ofList (c :: run)) :: bares) :=
  .of_before (Token.mk .text (String.ofList (c :: run)))
    (1 + run.length)
    (fun _ => rfl)
    (fun line column => by
      rw [readTokens_run hOrdinary hSeparate, Int.add_assoc])
    hRest

end ReadsAs

namespace ReadsAs

variable {depth last : Nat}
variable {front rest : List Char}
variable {firsts others : List (TokenKind × String)}
variable {c : Char}

/- A text is read as the same tokens wherever it stands. -/
theorem unique
    (hFirsts : ReadsAs depth front firsts)
    (hOthers : ReadsAs depth front others) :
    firsts = others := by
  rcases hFirsts 0 0 with ⟨tokens, hTokens, rfl⟩
  rcases hOthers 0 0 with ⟨same, hSame, rfl⟩
  cases hTokens.symm.trans hSame
  rfl

end ReadsAs

/- Where a run of ordinary text begins. -/
theorem ordinary_run
    {depth : Nat}
    {c : Char}
    (hBlank : ¬isBlank c = true)
    (hEscape : ¬c = '\\')
    (hStar : ¬c = '*')
    (hPlus : ¬(c = '+' ∧ 0 < depth))
    (hKind : TokenKind.ofChar? c = none)
    (more : List Char) :
    ∀ d ∈ c :: more.takeWhile (isOrdinary depth),
      isOrdinary depth d = true := by
  refine List.forall_mem_cons.mpr
    ⟨?_, fun d hMem => List.mem_takeWhile_imp hMem⟩
  simp only [isOrdinary, isControl, hKind, hStar, hEscape,
    hBlank]
  simpa using Decidable.not_and_iff_or_not.mp hPlus

section Braces

variable {depth : Nat}
variable {rest : List Char}
variable {c : Char}

theorem bracesAfter_plain
    (hPlain : c ≠ '\\') :
    bracesAfter depth (c :: rest) =
      bracesAfter (braceDepth depth c) rest := by
  rw [bracesAfter.eq_def]
  split
  · rename_i hNil
    cases hNil
  · rename_i hCons
    cases hCons
    exact absurd rfl hPlain
  · rename_i hCons
    cases hCons
    rfl

theorem bracesAfter_other
    (hOther : ∀ d ∈ ['\\', '{', '}'], c ≠ d) :
    bracesAfter depth (c :: rest) = bracesAfter depth rest := by
  simp only [List.forall_mem_cons] at hOther
  rw [bracesAfter_plain hOther.1, braceDepth,
    if_neg hOther.2.1, if_neg hOther.2.2.1]

/- No bracket and no backslash is ordinary. -/
theorem ne_of_ordinary
    {d : Char}
    (hOrdinary : isOrdinary depth c = true)
    (hMem : d ∈ ['\\', '[', '(', '{', ']', ')', '}']) :
    c ≠ d := by
  have hControl :
      ∀ d ∈ ['\\', '[', '(', '{', ']', ')', '}'],
        isControl d = true :=
    forall_mem_of_all (by decide)
  rintro rfl
  rw [isOrdinary, hControl c hMem] at hOrdinary
  cases hOrdinary

theorem bracketDepth_of_ordinary
    (hOrdinary : isOrdinary depth c = true)
    (level : Int) :
    bracketDepth level c = level := by
  have hOpening : isOpening c = false := by
    simp [isOpening, ne_of_ordinary hOrdinary]
  have hClosing : openingOf? c = none := by
    unfold openingOf?
    split
    all_goals
      first
      | rfl
      | exact absurd rfl (ne_of_ordinary hOrdinary (by decide))
  simp [bracketDepth, hOpening, hClosing]

theorem bracesAfter_run
    {run : List Char}
    (hRun : ∀ c ∈ run, isOrdinary depth c = true) :
    bracesAfter depth (run ++ rest) =
      bracesAfter depth rest := by
  induction run with
  | nil => rfl
  | cons c run ih =>
      rcases List.forall_mem_cons.mp hRun with
        ⟨hFirst, hLater⟩
      have hOther : ∀ d ∈ ['\\', '{', '}'], c ≠ d := by
        simp [ne_of_ordinary hFirst]
      rw [List.cons_append, bracesAfter_other hOther, ih hLater]

end Braces

theorem Separate.nil :
    Separate [] :=
  fun _ hMem => (Option.not_mem_none _ hMem).elim

/- A run of ordinary text ends before such a text. -/
theorem Separate.stop
    {rest : List Char}
    (hSeparate : Separate rest)
    (depth : Nat)
    (more : List Char) :
    ∀ c ∈ (more.dropWhile (isOrdinary depth) ++ rest).head?,
      isOrdinary depth c = false := by
  intro c hMem
  rw [List.head?_append] at hMem
  rcases Option.or_eq_some_iff.mp hMem with hHere | hBehind
  · have hStop :=
      List.head?_dropWhile_not (isOrdinary depth) more
    rw [hHere] at hStop
    exact hStop
  · exact (hSeparate c hBehind.2).2 depth

/-
  A part is read by itself, if what follows it cannot extend
  its last token.
-/
theorem readTokens_append
    {line column : Int}
    {depth : Nat}
    {front rest : List Char}
    {first : List Token}
    {bares : List (TokenKind × String)}
    (hSeparate : Separate rest)
    (hFront : readTokens line column depth front = .ok first)
    (hRest : ReadsAs (bracesAfter depth front) rest bares) :
    ReadsAs depth (front ++ rest)
      (first.map Token.bare ++ bares) := by
  fun_induction readTokens line column depth front
      generalizing first
  case case1 =>
    cases hFront
    exact hRest
  case case2 c _ hBlank ih =>
    have hOther : ∀ d ∈ ['\\', '{', '}'], isBlank d = false :=
      forall_mem_of_all (by decide)
    rw [bracesAfter_other fun d hMem =>
      ne_of_blank hBlank (hOther d hMem)] at hRest
    exact .blank hBlank (ih hFront hRest)
  case case3 => cases hFront
  case case4 ih =>
    rcases Token.before_eq_ok hFront with ⟨others, hOthers, rfl⟩
    exact .escape (ih hOthers hRest)
  case case5 hStars ih =>
    rcases hStars with ⟨rfl, hNext⟩
    rcases List.head?_eq_some_iff.mp hNext with ⟨more, rfl⟩
    rcases Token.before_eq_ok hFront with ⟨others, hOthers, rfl⟩
    rw [bracesAfter_other (forall_mem_of_all (by decide)),
      bracesAfter_other (forall_mem_of_all (by decide))] at hRest
    exact .doubleStar (ih hOthers hRest)
  case case6 more _ _ hNext ih =>
    rcases Token.before_eq_ok hFront with ⟨others, hOthers, rfl⟩
    rw [bracesAfter_other (forall_mem_of_all (by decide))] at hRest
    refine .star (fun hStar => ?_) (ih hOthers hRest)
    replace hStar :
        (more ++ rest).head? = some '*' := hStar
    rw [List.head?_append] at hStar
    rcases Option.or_eq_some_iff.mp hStar with hHere | hBehind
    · exact hNext ⟨rfl, hHere⟩
    · exact (hSeparate _ hBehind.2).1 rfl
  case case7 hPlus ih =>
    rcases hPlus with ⟨rfl, hDepth⟩
    rcases Token.before_eq_ok hFront with ⟨others, hOthers, rfl⟩
    rw [bracesAfter_other (forall_mem_of_all (by decide))] at hRest
    exact .plus hDepth (ih hOthers hRest)
  case case8 hBlank hEscape _ _ _ _ hKind ih =>
    rcases Token.before_eq_ok hFront with ⟨others, hOthers, rfl⟩
    rw [bracesAfter_plain hEscape] at hRest
    exact
      .sign hKind (Bool.eq_false_iff.mpr hBlank)
        (ih hOthers hRest)
  case case9 depth c more hBlank hEscape _ hStar hPlus hKind _
      run ih =>
    rcases Token.before_eq_ok hFront with ⟨others, hOthers, rfl⟩
    have hParts :
        run ++ more.dropWhile (isOrdinary depth) = more :=
      List.takeWhile_append_dropWhile
    have hOrdinary :=
      ordinary_run hBlank hEscape hStar hPlus hKind more
    have hBraces :
        bracesAfter depth (c :: more) =
          bracesAfter depth
            (more.dropWhile (isOrdinary depth)) := by
      conv_lhs => rw [← hParts]
      exact bracesAfter_run hOrdinary
    have hWhole :
        c :: more ++ rest =
          c :: (run ++
            (more.dropWhile (isOrdinary depth) ++ rest)) := by
      rw [← List.append_assoc, hParts]
      rfl
    rw [hBraces] at hRest
    rw [hWhole]
    exact
      .run hOrdinary (hSeparate.stop depth more)
        (ih hOthers hRest)

theorem Token.isOk_before
    (token : Token)
    (later : Except SourceError (List Token)) :
    (token.before later).isOk = later.isOk := by
  cases later <;> rfl

/- A text can be read if no backslash at its end escapes nothing. -/
theorem readTokens_isOk
    {line column level : Int}
    {depth : Nat}
    {text : List Char} :
    (readTokens line column depth text).isOk =
      (depthAfter level text).isSome := by
  fun_induction readTokens line column depth text
      generalizing level
  case case1 => rfl
  case case2 hBlank ih =>
    rw [depthAfter_plain (ne_of_blank hBlank (by decide))]
    exact ih
  case case3 => rfl
  case case4 ih =>
    rw [Token.isOk_before, depthAfter_escape]
    exact ih
  case case5 hStars ih =>
    rcases hStars with ⟨rfl, hNext⟩
    rcases List.head?_eq_some_iff.mp hNext with ⟨more, rfl⟩
    rw [Token.isOk_before, depthAfter_plain (by decide),
      depthAfter_plain (by decide)]
    exact ih
  case case6 ih =>
    rw [Token.isOk_before, depthAfter_plain (by decide)]
    exact ih
  case case7 hPlus ih =>
    rw [Token.isOk_before, hPlus.1, depthAfter_plain (by decide)]
    exact ih
  case case8 hEscape _ _ _ _ _ ih =>
    rw [Token.isOk_before, depthAfter_plain hEscape]
    exact ih
  case case9 depth c more hBlank hEscape _ hStar hPlus hKind _
      run ih =>
    have hOrdinary :=
      ordinary_run hBlank hEscape hStar hPlus hKind more
    have hParts :
        run ++ more.dropWhile (isOrdinary depth) = more :=
      List.takeWhile_append_dropWhile
    rw [Token.isOk_before, @ih level]
    conv_rhs => rw [← hParts, ← List.cons_append]
    rw [depthAfter_level
      (fun d hMem => ne_of_ordinary (hOrdinary d hMem) (by decide))
      (fun d hMem =>
        bracketDepth_of_ordinary (hOrdinary d hMem) level)]

namespace ReadsAs

variable {depth : Nat}
variable {level : Int}
variable {front rest : List Char}
variable {firsts later : List (TokenKind × String)}

theorem of_readTokens
    {line column : Int}
    {tokens : List Token}
    (hRead : readTokens line column depth front = .ok tokens) :
    ReadsAs depth front (tokens.map Token.bare) := by
  have hRest : ReadsAs (bracesAfter depth front) [] [] := .nil
  simpa using readTokens_append .nil hRead hRest

/- A text can be read if it does not end inside an escape. -/
theorem exists_of_closed
    (hClosed : (depthAfter level front).isSome = true) :
    ∃ firsts, ReadsAs depth front firsts := by
  have hOk :
      (readTokens 0 0 depth front).isOk = true := by
    rw [readTokens_isOk, hClosed]
  cases hRead : readTokens 0 0 depth front with
  | ok tokens => exact ⟨_, .of_readTokens hRead⟩
  | error e =>
      rw [hRead] at hOk
      cases hOk

theorem closed
    (hFront : ReadsAs depth front firsts)
    (level : Int) :
    (depthAfter level front).isSome = true := by
  rcases hFront 0 0 with ⟨tokens, hTokens, -⟩
  rw [← @readTokens_isOk 0 0 level depth, hTokens]
  rfl

theorem append
    (hSeparate : Separate rest)
    (hFront : ReadsAs depth front firsts)
    (hRest : ReadsAs (bracesAfter depth front) rest later) :
    ReadsAs depth (front ++ rest) (firsts ++ later) := by
  rcases hFront 0 0 with ⟨tokens, hTokens, rfl⟩
  exact readTokens_append hSeparate hTokens hRest

/- A text in parts is read part by part. -/
theorem exists_parts
    {bares : List (TokenKind × String)}
    {last : Int}
    (hSeparate : Separate rest)
    (hClosed : depthAfter level front = some last)
    (hRead : ReadsAs depth (front ++ rest) bares) :
    ∃ firsts later,
      ReadsAs depth front firsts ∧
        ReadsAs (bracesAfter depth front) rest later ∧
        bares = firsts ++ later := by
  have hRest := hRead.closed level
  rw [depthAfter_append hClosed] at hRest
  have hFront : (depthAfter level front).isSome = true := by
    rw [hClosed]
    rfl
  rcases exists_of_closed hFront with ⟨firsts, hFirsts⟩
  rcases exists_of_closed hRest with ⟨later, hLater⟩
  exact
    ⟨firsts, later, hFirsts, hLater,
      hRead.unique (hFirsts.append hSeparate hLater)⟩

/- What follows a part can be written in another way. -/
theorem replace
    {other : List Char}
    {bares : List (TokenKind × String)}
    {last : Int}
    (hSeparate : Separate rest)
    (hOther : Separate other)
    (hClosed : depthAfter level front = some last)
    (hSame : ∀ {later},
      ReadsAs (bracesAfter depth front) rest later →
        ReadsAs (bracesAfter depth front) other later)
    (hRead : ReadsAs depth (front ++ rest) bares) :
    ReadsAs depth (front ++ other) bares := by
  rcases hRead.exists_parts hSeparate hClosed with
    ⟨firsts, later, hFront, hRest, rfl⟩
  exact hFront.append hOther (hSame hRest)

/- What follows a character that is a token by itself. -/
theorem exists_behind
    {c : Char}
    {kind : TokenKind}
    {bares : List (TokenKind × String)}
    (hKind : TokenKind.ofChar? c = some kind)
    (hBlank : isBlank c = false)
    (hRead : ReadsAs depth (c :: rest) bares) :
    ∃ later,
      bares = (kind, String.ofList [c]) :: later ∧
        ReadsAs (braceDepth depth c) rest later := by
  have hPlain : c ≠ '\\' := by
    rintro rfl
    cases hKind
  have hClosed := hRead.closed 0
  rw [depthAfter_plain hPlain] at hClosed
  rcases exists_of_closed hClosed with ⟨later, hLater⟩
  exact ⟨later, hRead.unique (hLater.sign hKind hBlank), hLater⟩

end ReadsAs

------------------------------------------------------------
-- Columns
------------------------------------------------------------

theorem columns_cons
    {column next : Int}
    {token : Token}
    {others : List Token}
    (hToken : token.column = column)
    (hNext : column < next)
    (hLater : ∀ other ∈ others, next ≤ other.column)
    (hNodup : (others.map Token.column).Nodup) :
    (∀ other ∈ token :: others, column ≤ other.column) ∧
      ((token :: others).map Token.column).Nodup := by
  have hBehind : ∀ other ∈ others, column < other.column :=
    fun other hMem => Int.lt_of_lt_of_le hNext (hLater other hMem)
  refine ⟨List.forall_mem_cons.mpr ⟨?_, ?_⟩, ?_⟩
  · exact Int.le_of_eq hToken.symm
  · exact fun other hMem => Int.le_of_lt (hBehind other hMem)
  · refine List.nodup_cons.mpr ⟨fun hMem => ?_, hNodup⟩
    rcases List.mem_map.mp hMem with ⟨other, hOther, hColumn⟩
    have := hBehind other hOther
    omega

/- Each token of a text begins in a column of its own. -/
theorem readTokens_columns
    {line column : Int}
    {depth : Nat}
    {text : List Char}
    {tokens : List Token}
    (hRead : readTokens line column depth text = .ok tokens) :
    (∀ token ∈ tokens, column ≤ token.column) ∧
      (tokens.map Token.column).Nodup := by
  fun_induction readTokens line column depth text
      generalizing tokens
  case case1 =>
    cases hRead
    exact ⟨List.forall_mem_nil _, .nil⟩
  case case2 ih =>
    refine ⟨fun token hMem => ?_, (ih hRead).2⟩
    have := (ih hRead).1 token hMem
    omega
  case case3 => cases hRead
  all_goals
    rename_i ih
    rcases Token.before_eq_ok hRead with ⟨others, hOthers, rfl⟩
    rcases ih hOthers with ⟨hLater, hNodup⟩
    exact columns_cons rfl (by omega) hLater hNodup

/- Tokens in columns of their own can be moved anywhere. -/
theorem exists_moveBy
    {tokens others : List Token}
    (hColumns : (tokens.map Token.column).Nodup)
    (hSame : tokens.map Token.bare = others.map Token.bare) :
    ∃ move, others = tokens.map (Token.moveBy move) := by
  induction tokens generalizing others with
  | nil => exact ⟨id, (List.map_eq_nil_iff.mp hSame.symm)⟩
  | cons token tokens ih =>
      rcases List.map_eq_cons_iff.mp hSame.symm with
        ⟨other, later, rfl, hOther, hLater⟩
      rw [List.map_cons, List.nodup_cons] at hColumns
      rcases ih hColumns.2 hLater.symm with ⟨move, rfl⟩
      refine
        ⟨fun column =>
          if column = token.column then other.column
          else move column, ?_⟩
      refine List.cons_eq_cons.mpr ⟨?_, ?_⟩
      · rcases token with ⟨kind, text, column⟩
        rcases other with ⟨_, _, _⟩
        cases hOther
        simp [Token.moveBy]
      · refine List.map_congr_left fun next hMem => ?_
        have hOther : next.column ≠ token.column := fun hColumn =>
          hColumns.1 (List.mem_map.mpr ⟨next, hMem, hColumn⟩)
        simp only [Token.moveBy, if_neg hOther]

end Diachrony
