import Diachrony.Proofs.Source.Readers
import Diachrony.Source.Line
import Mathlib.Data.List.DropRight

/-
  Where errors point to.

  A text that stands in another one does so at some offset,
  and an error that points into the part points into the
  whole, as far to the right as the part stands there. A
  bracket or a token that an error names is found where the
  error points to. Whatever refuses a text points into it,
  unless it is a number that cannot be converted.

  Key definitions include:
    * `StandsIn`
    * `Token.spelling`
    * `SourceError.PointsAt`
    * `Place.Faults`

  Key theorems include:
    * `SourceError.PointsAt.of_part`
    * `Place.Faults.of_part`
    * `checkBalanced_pointsAt`
    * `TokenText.read_foundIn`
    * `TokenText.read_pointsAt`
-/

namespace Diachrony

open Unicode

------------------------------------------------------------
-- Parts of a text
------------------------------------------------------------

/- A part of a text that stands there at an offset. -/
def StandsIn
    (text : List Char)
    (offset : Nat)
    (part : List Char) : Prop :=
  ∃ before after,
    before.length = offset ∧ text = before ++ (part ++ after)

namespace StandsIn

variable {text part inner : List Char}
variable {offset shift : Nat}

theorem of_isPrefix
    (hPart : part <+: text) :
    StandsIn text 0 part := by
  rcases hPart with ⟨after, rfl⟩
  exact ⟨[], after, rfl, rfl⟩

theorem of_suffix
    (hPart : part <:+ text) :
    StandsIn text (text.length - part.length) part := by
  rcases hPart with ⟨before, rfl⟩
  refine ⟨before, [], ?_, by rw [List.append_nil]⟩
  rw [List.length_append, Nat.add_sub_cancel]

theorem self :
    StandsIn text 0 text :=
  of_isPrefix List.prefix_rfl

/- A part of a part is a part of the whole. -/
theorem trans
    (hPart : StandsIn text shift part)
    (hInner : StandsIn part offset inner) :
    StandsIn text (shift + offset) inner := by
  rcases hPart with ⟨before, after, rfl, rfl⟩
  rcases hInner with ⟨first, last, rfl, rfl⟩
  refine ⟨before ++ first, last ++ after, ?_, ?_⟩
  · rw [List.length_append]
  · simp only [List.append_assoc]

theorem cons
    (c : Char)
    (hPart : StandsIn text offset part) :
    StandsIn (c :: text) (offset + 1) part := by
  rcases hPart with ⟨before, after, rfl, rfl⟩
  exact ⟨c :: before, after, rfl, rfl⟩

theorem left
    (hPart : StandsIn text offset (part ++ inner)) :
    StandsIn text offset part := by
  rcases hPart with ⟨before, after, rfl, rfl⟩
  exact ⟨before, inner ++ after, rfl, by rw [List.append_assoc]⟩

theorem right
    (hPart : StandsIn text offset (part ++ inner)) :
    StandsIn text (offset + part.length) inner := by
  rcases hPart with ⟨before, after, rfl, rfl⟩
  refine ⟨before ++ part, after, List.length_append, ?_⟩
  simp only [List.append_assoc]

theorem head
    {c : Char}
    (hPart : StandsIn text offset (c :: part)) :
    StandsIn text offset [c] :=
  @left _ [c] part _ hPart

theorem tail
    {c : Char}
    (hPart : StandsIn text offset (c :: part)) :
    StandsIn text (offset + 1) part :=
  @right _ [c] part _ hPart

theorem length_le
    (hPart : StandsIn text offset part) :
    offset + part.length ≤ text.length := by
  rcases hPart with ⟨before, after, rfl, rfl⟩
  simp only [List.length_append]
  omega

theorem subset
    (hPart : StandsIn text offset part) :
    part ⊆ text := by
  rcases hPart with ⟨before, after, rfl, rfl⟩
  exact
    List.subset_append_of_subset_right before
      (List.subset_append_left part after)

theorem take
    (i : Nat) :
    StandsIn text 0 (text.take i) :=
  of_isPrefix (List.take_prefix i text)

theorem drop
    {i : Nat}
    (hLength : i ≤ text.length) :
    StandsIn text i (text.drop i) := by
  have hSuffix := of_suffix (List.drop_suffix i text)
  rwa [List.length_drop, Nat.sub_sub_self hLength] at hSuffix

end StandsIn

theorem trimRight_isPrefix
    (text : List Char) :
    trimRight text <+: text :=
  List.rdropWhile_prefix isBlank text

theorem trimLeft_suffix
    (text : List Char) :
    trimLeft text <:+ text :=
  List.dropWhile_suffix isBlank

theorem trimLeft_trimLeft
    (text : List Char) :
    trimLeft (trimLeft text) = trimLeft text :=
  List.dropWhile_idempotent isBlank text

/- A text without outer blanks begins with none. -/
theorem trimLeft_trim
    (text : List Char) :
    trimLeft (trim text) = trim text := by
  cases hTrim : trim text with
  | nil => rfl
  | cons c rest =>
      rcases trimRight_isPrefix (trimLeft text) with ⟨after, hAll⟩
      have hWhole : trimLeft text = c :: (rest ++ after) := by
        rw [← hAll, ← trim, hTrim, List.cons_append]
      have hFirst := trimLeft_trimLeft text
      rw [hWhole, trimLeft, List.dropWhile_cons] at hFirst
      cases hBlank : isBlank c with
      | false => simp [trimLeft, hBlank]
      | true =>
          rw [if_pos hBlank] at hFirst
          have hLength :=
            (trimLeft_suffix (rest ++ after)).length_le
          rw [trimLeft, hFirst, List.length_cons] at hLength
          omega

theorem trim_trim
    (text : List Char) :
    trim (trim text) = trim text := by
  rw [trim, trimLeft_trim, trim]
  exact List.rdropWhile_idempotent isBlank (trimLeft text)

theorem trim_trimLeft
    (text : List Char) :
    trim (trimLeft text) = trim text := by
  rw [trim, trimLeft_trimLeft, ← trim]

/- A text without outer blanks stands behind the first ones. -/
theorem StandsIn.of_trimLeft
    {text part : List Char}
    (hRest : trimLeft part <:+ text) :
    StandsIn text (text.length - (trimLeft part).length)
      (trim part) := by
  have hTrim : StandsIn (trimLeft part) 0 (trim part) :=
    of_isPrefix (trimRight_isPrefix (trimLeft part))
  exact (of_suffix hRest).trans hTrim

------------------------------------------------------------
-- Errors
------------------------------------------------------------

/- How a token is written. -/
def Token.spelling
    (token : Token) : List Char :=
  if token.kind = .escape then
    '\\' :: token.text.toList
  else
    token.text.toList

theorem Token.spelling_escape
    (c : Char)
    (column : Int) :
    (Token.ofChar .escape c column).spelling = ['\\', c] := by
  have hText : (Token.ofChar .escape c column).text.toList = [c] :=
    String.toList_ofList
  rw [Token.spelling, hText]
  rfl

/-
  An error that points at an offset into a text which begins
  at a place. A bracket that the error names stands there,
  and so does a token that it names, which is one of those
  that the text may have.
-/
structure SourceError.PointsAt
    (e : SourceError)
    (place : Place)
    (text : List Char)
    (isToken : Token → Prop)
    (offset : Nat) : Prop where
  line_eq : e.line = place.line
  column_eq : e.column = place.column + offset
  offset_le : offset ≤ text.length
  bracket :
    ∀ bracket ∈ e.cause.namedBracket?,
      StandsIn text offset [bracket]
  token :
    ∀ named ∈ e.cause.namedToken?,
      ∃ token,
        isToken token ∧ token.text = named ∧
          token.column = e.column ∧
          StandsIn text offset token.spelling

/- The place at which the text of a line begins. -/
def SourceLine.place
    (line : SourceLine) : Place where
  line := line.number
  column := line.column

/- The place that is some columns further to the right. -/
def Place.shift
    (place : Place)
    (columns : Nat) : Place :=
  { place with column := place.column + columns }

theorem Place.shift_zero
    (place : Place) :
    place.shift 0 = place := by
  rw [Place.shift, Int.natCast_zero, Int.add_zero]

namespace SourceError.PointsAt

variable {e : SourceError}
variable {place : Place}
variable {text part : List Char}
variable {isToken : Token → Prop}
variable {offset shift : Nat}

/- It is enough to be in the text if nothing is named. -/
theorem of_namesNothing
    (hCause : e.cause.NamesNothing)
    (hLine : e.line = place.line)
    (hColumn : e.column = place.column + offset)
    (hOffset : offset ≤ text.length) :
    e.PointsAt place text isToken offset where
  line_eq := hLine
  column_eq := hColumn
  offset_le := hOffset
  bracket := by
    rw [hCause.bracket]
    nofun
  token := by
    rw [hCause.token]
    nofun

/- A bracket that is named is to stand there. -/
theorem of_bracket
    {bracket : Char}
    (hCause : e.cause.namedBracket? = some bracket)
    (hToken : e.cause.namedToken? = none)
    (hLine : e.line = place.line)
    (hColumn : e.column = place.column + offset)
    (hBracket : StandsIn text offset [bracket]) :
    e.PointsAt place text isToken offset where
  line_eq := hLine
  column_eq := hColumn
  offset_le := Nat.le_of_add_right_le hBracket.length_le
  bracket := by
    rw [hCause]
    rintro _ ⟨⟩
    exact hBracket
  token := by
    rw [hToken]
    nofun

/- What points into a part points into the whole. -/
theorem of_part
    (hPart : StandsIn text shift part)
    (hPoints :
      e.PointsAt (place.shift shift) part isToken offset) :
    e.PointsAt place text isToken (shift + offset) where
  line_eq := hPoints.line_eq
  column_eq := by
    rw [hPoints.column_eq, Int.natCast_add, ← Int.add_assoc]
    rfl
  offset_le := by
    have hInner := hPoints.offset_le
    have hOuter := hPart.length_le
    omega
  bracket bracket hBracket :=
    hPart.trans (hPoints.bracket bracket hBracket)
  token := by
    intro named hNamed
    rcases hPoints.token named hNamed with
      ⟨token, hIs, hText, hColumn, hStands⟩
    exact ⟨token, hIs, hText, hColumn, hPart.trans hStands⟩

end SourceError.PointsAt

/-
  How a text that begins at a place can be refused: with an
  error that points into it, for a digit that is not
  decimal, or for a number of too many digits.
-/
inductive Place.Faults
    (place : Place)
    (limit : DigitLimit)
    (text : List Char)
    (isToken : Token → Prop) : ReadError → Prop
  | malformed
      {e : SourceError}
      {offset : Nat}
      (hPoints : e.PointsAt place text isToken offset) :
      Faults place limit text isToken (.malformed e)
  | notDecimal
      {c : Char}
      {number : String}
      (hMem : c ∈ text)
      (hDigit : isDigit c = true)
      (hOther : isDecimal c = false) :
      Faults place limit text isToken (.notDecimal number)
  | tooManyDigits
      {digits : List Char}
      (hLong : limit.admits digits.length = false) :
      Faults place limit text isToken
        (.tooManyDigits (String.ofList digits))

namespace Place.Faults

variable {place : Place}
variable {limit : DigitLimit}
variable {text part : List Char}
variable {isToken : Token → Prop}
variable {e : ReadError}

theorem of_part
    {shift : Nat}
    (hPart : StandsIn text shift part)
    (hFaults : (place.shift shift).Faults limit part isToken e) :
    place.Faults limit text isToken e := by
  cases hFaults with
  | malformed hPoints => exact .malformed (hPoints.of_part hPart)
  | notDecimal hMem hDigit hOther =>
      exact .notDecimal (hPart.subset hMem) hDigit hOther
  | tooManyDigits hLong => exact .tooManyDigits hLong

theorem of_isPrefix
    (hPart : part <+: text)
    (hFaults : place.Faults limit part isToken e) :
    place.Faults limit text isToken e := by
  rw [← place.shift_zero] at hFaults
  exact .of_part (.of_isPrefix hPart) hFaults

/- An error that names nothing, where the text begins. -/
theorem of_start
    {cause : Cause}
    (hCause : cause.NamesNothing) :
    place.Faults limit text isToken
      (.at cause place.line place.column) :=
  .malformed
    (.of_namesNothing hCause rfl (Int.add_zero _).symm
      (Nat.zero_le _))

/- An error at a place in the text, whatever follows it. -/
theorem of_shift
    {columns : Nat}
    (hColumns : columns ≤ text.length)
    (hFaults :
      ∀ {part}, (place.shift columns).Faults limit part isToken e) :
    place.Faults limit text isToken e :=
  .of_part (.drop hColumns) hFaults

/- A number of digits in the text that cannot be converted. -/
theorem of_readNumber
    {digits : List Char}
    (hSome : digits ≠ [])
    (hDigits : ∀ c ∈ digits, c ∈ text ∧ isDigit c = true)
    (hRead : readNumber limit digits = .error e) :
    place.Faults limit text isToken e := by
  rcases readNumber_error hRead with
    ⟨hLong, rfl⟩ | ⟨hNumeral, rfl⟩
  · exact .tooManyDigits hLong
  rw [isNumeral, List.isEmpty_eq_false_iff.mpr hSome,
    Bool.not_false, Bool.true_and,
    List.all_eq_false] at hNumeral
  rcases hNumeral with ⟨c, hMem, hOther⟩
  exact
    .notDecimal (hDigits c hMem).1 (hDigits c hMem).2
      (by simpa using hOther)

/- A decimal number can only have too many digits. -/
theorem of_isNumeral
    {digits : List Char}
    (hNumeral : isNumeral digits = true)
    (hRead : readNumber limit digits = .error e) :
    place.Faults limit text isToken e := by
  rcases readNumber_error_of_isNumeral hNumeral hRead with
    ⟨hLong, rfl⟩
  exact .tooManyDigits hLong

end Place.Faults

------------------------------------------------------------
-- Brackets
------------------------------------------------------------

/- Where an open bracket was, it stands in the text. -/
def OpenedIn
    (place : Place)
    (text : List Char)
    (entry : Char × Int) : Prop :=
  ∃ offset : Nat,
    entry.2 = place.column + offset ∧
      StandsIn text offset [entry.1]

theorem checkBrackets_pointsAt
    {place : Place}
    {isToken : Token → Prop}
    {whole text : List Char}
    {column : Int}
    {offset : Nat}
    {opened : List (Char × Int)}
    {e : SourceError}
    (hText : StandsIn whole offset text)
    (hColumn : column = place.column + offset)
    (hOpened : ∀ entry ∈ opened, OpenedIn place whole entry)
    (hCheck :
      checkBrackets place.line column opened text = .error e) :
    ∃ offset, e.PointsAt place whole isToken offset := by
  fun_induction checkBrackets place.line column opened text
      generalizing offset
  case case1 => cases hCheck
  case case2 bracket column outer =>
    cases hCheck
    rcases List.forall_mem_cons.mp hOpened with
      ⟨⟨i, hPlace, hBracket⟩, _⟩
    exact ⟨i, .of_bracket rfl rfl rfl hPlace hBracket⟩
  case case3 ih =>
    refine ih hText.tail.tail ?_ hOpened hCheck
    omega
  case case4 ih =>
    refine ih hText.tail (by omega) ?_ hCheck
    exact
      List.forall_mem_cons.mpr
        ⟨⟨offset, hColumn, hText.head⟩, hOpened⟩
  case case5 ih => exact ih hText.tail (by omega) hOpened hCheck
  case case6 ih =>
    exact
      ih hText.tail (by omega)
        (List.forall_mem_cons.mp hOpened).2 hCheck
  case case7 =>
    cases hCheck
    exact ⟨offset, .of_bracket rfl rfl rfl hColumn hText.head⟩
  case case8 =>
    cases hCheck
    exact ⟨offset, .of_bracket rfl rfl rfl hColumn hText.head⟩

/- Unbalanced brackets are refused where they stand. -/
theorem checkBalanced_pointsAt
    {place : Place}
    {isToken : Token → Prop}
    {text : List Char}
    {e : SourceError}
    (hCheck :
      checkBalanced text place.line place.column = .error e) :
    ∃ offset, e.PointsAt place text isToken offset :=
  checkBrackets_pointsAt .self (Int.add_zero _).symm
    (List.forall_mem_nil _) hCheck

------------------------------------------------------------
-- Tokens
------------------------------------------------------------

/- A token that is found where it says it is. -/
def Token.FoundIn
    (token : Token)
    (place : Place)
    (text : List Char) : Prop :=
  ∃ offset : Nat,
    token.column = place.column + offset ∧
      StandsIn text offset token.spelling

/- A token that is no escape is spelled as its text. -/
theorem Token.FoundIn.of_text
    {place : Place}
    {kind : TokenKind}
    {text : String}
    {column : Int}
    {whole spelled : List Char}
    {offset : Nat}
    (hKind : kind ≠ .escape)
    (hText : text.toList = spelled)
    (hColumn : column = place.column + offset)
    (hStands : StandsIn whole offset spelled) :
    Token.FoundIn ⟨kind, text, column⟩ place whole := by
  refine ⟨offset, hColumn, ?_⟩
  rw [Token.spelling, if_neg hKind, hText]
  exact hStands

theorem TokenKind.ofChar?_ne_escape
    {c : Char}
    {kind : TokenKind}
    (hKind : TokenKind.ofChar? c = some kind) :
    kind ≠ .escape := by
  rintro rfl
  unfold TokenKind.ofChar? at hKind
  split at hKind <;> cases hKind

theorem Token.before_eq_error
    {token : Token}
    {later : Except SourceError (List Token)}
    {e : SourceError}
    (hBefore : token.before later = .error e) :
    later = .error e := by
  cases later with
  | error e => exact hBefore
  | ok others => cases hBefore

theorem Token.FoundIn.of_before
    {place : Place}
    {whole : List Char}
    {token : Token}
    {tokens : List Token}
    {later : Except SourceError (List Token)}
    (hBefore : token.before later = .ok tokens)
    (hToken : token.FoundIn place whole)
    (hLater :
      ∀ {others},
        later = .ok others →
          ∀ token ∈ others, token.FoundIn place whole) :
    ∀ token ∈ tokens, token.FoundIn place whole := by
  rcases Token.before_eq_ok hBefore with ⟨others, hOthers, rfl⟩
  exact List.forall_mem_cons.mpr ⟨hToken, hLater hOthers⟩

/- All tokens are found where they say they are. -/
theorem readTokens_foundIn
    {place : Place}
    {line column : Int}
    {depth : Nat}
    {whole text : List Char}
    {offset : Nat}
    {tokens : List Token}
    (hText : StandsIn whole offset text)
    (hColumn : column = place.column + offset)
    (hRead : readTokens line column depth text = .ok tokens) :
    ∀ token ∈ tokens, token.FoundIn place whole := by
  fun_induction readTokens line column depth text
      generalizing offset tokens
  case case1 =>
    cases hRead
    exact List.forall_mem_nil _
  case case2 ih => exact ih hText.tail (by omega) hRead
  case case3 => cases hRead
  case case4 column depth escaped more _ ih =>
    refine .of_before hRead ⟨offset, hColumn, ?_⟩
      (ih hText.tail.tail (by omega))
    rw [Token.spelling_escape]
    exact @StandsIn.left _ ['\\', escaped] more _ hText
  case case5 column depth c more _ _ hStars ih =>
    rcases hStars with ⟨rfl, hNext⟩
    rcases List.head?_eq_some_iff.mp hNext with ⟨rest, rfl⟩
    have hStands : StandsIn whole offset ['*', '*'] :=
      @StandsIn.left _ _ rest _ hText
    exact
      .of_before hRead
        (.of_text (fun hKind => by cases hKind) (by decide)
          hColumn hStands)
        (ih hText.tail.tail (by omega))
  case case6 ih =>
    exact
      .of_before hRead
        (.of_text (fun hKind => by cases hKind)
          String.toList_ofList hColumn hText.head)
        (ih hText.tail (by omega))
  case case7 ih =>
    exact
      .of_before hRead
        (.of_text (fun hKind => by cases hKind)
          String.toList_ofList hColumn hText.head)
        (ih hText.tail (by omega))
  case case8 hKind ih =>
    exact
      .of_before hRead
        (.of_text (TokenKind.ofChar?_ne_escape hKind)
          String.toList_ofList hColumn hText.head)
        (ih hText.tail (by omega))
  case case9 column depth c more _ _ _ _ _ _ _ run ih =>
    have hParts : run ++ more.dropWhile (isOrdinary depth) = more :=
      List.takeWhile_append_dropWhile
    rw [← hParts] at hText
    have hRun : StandsIn whole offset (c :: run) :=
      @StandsIn.left _ (c :: run) _ _ hText
    have hRest :
        StandsIn whole (offset + 1 + run.length)
          (more.dropWhile (isOrdinary depth)) :=
      hText.tail.right
    exact
      .of_before hRead
        (.of_text (fun hKind => by cases hKind)
          String.toList_ofList hColumn hRun)
        (ih hRest (by omega))

/- A text is only refused for an escape at its end. -/
theorem readTokens_pointsAt
    {place : Place}
    {isToken : Token → Prop}
    {column : Int}
    {depth : Nat}
    {whole text : List Char}
    {offset : Nat}
    {e : SourceError}
    (hText : StandsIn whole offset text)
    (hColumn : column = place.column + offset)
    (hRead :
      readTokens place.line column depth text = .error e) :
    ∃ offset, e.PointsAt place whole isToken offset := by
  fun_induction readTokens place.line column depth text
      generalizing offset
  case case1 => cases hRead
  case case2 ih => exact ih hText.tail (by omega) hRead
  case case3 =>
    cases hRead
    exact
      ⟨offset,
        .of_namesNothing ⟨rfl, rfl⟩ rfl hColumn
          (Nat.le_of_add_right_le hText.length_le)⟩
  case case4 ih =>
    exact
      ih hText.tail.tail (by omega) (Token.before_eq_error hRead)
  case case5 hStars ih =>
    rcases List.head?_eq_some_iff.mp hStars.2 with ⟨rest, rfl⟩
    exact
      ih hText.tail.tail (by omega) (Token.before_eq_error hRead)
  case case6 ih =>
    exact ih hText.tail (by omega) (Token.before_eq_error hRead)
  case case7 ih =>
    exact ih hText.tail (by omega) (Token.before_eq_error hRead)
  case case8 ih =>
    exact ih hText.tail (by omega) (Token.before_eq_error hRead)
  case case9 column depth c more _ _ _ _ _ _ _ run ih =>
    have hParts : run ++ more.dropWhile (isOrdinary depth) = more :=
      List.takeWhile_append_dropWhile
    rw [← hParts] at hText
    have hRest :
        StandsIn whole (offset + 1 + run.length)
          (more.dropWhile (isOrdinary depth)) :=
      hText.tail.right
    exact ih hRest (by omega) (Token.before_eq_error hRead)

theorem TokenText.read_foundIn
    {place : Place}
    {text : List Char}
    {all : TokenText}
    (hRead :
      TokenText.read text place.line place.column = .ok all) :
    all.finish = place.column + text.length ∧
      ∀ token ∈ all.tokens, token.FoundIn place text := by
  unfold TokenText.read at hRead
  split at hRead
  · cases hRead
  · rename_i hTokens
    cases hRead
    exact
      ⟨rfl,
        readTokens_foundIn .self (Int.add_zero _).symm hTokens⟩

theorem TokenText.read_pointsAt
    {place : Place}
    {isToken : Token → Prop}
    {text : List Char}
    {e : SourceError}
    (hRead :
      TokenText.read text place.line place.column = .error e) :
    ∃ offset, e.PointsAt place text isToken offset := by
  unfold TokenText.read at hRead
  split at hRead
  · rename_i hTokens
    cases hRead
    exact
      readTokens_pointsAt .self (Int.add_zero _).symm hTokens
  · cases hRead

end Diachrony
