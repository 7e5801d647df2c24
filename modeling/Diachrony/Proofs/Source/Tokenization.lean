import Diachrony.Proofs.Source.Places
import Diachrony.Proofs.Source.Readings

/-
  How a text is cut into tokens.

  A text is cut into tokens and the blanks between them, from
  left to right. Which tokens those are is said here by the
  cuts that are allowed, apart from how the text is scanned.
  Nothing but blanks is lost, and each token can be found at
  its column again.

  Key definitions include:
    * `isEscapedAt`
    * `Token.Fits`
    * `Tokenizes`
    * `TokenText.Covers`

  Key theorems include:
    * `readTokens_eq_iff`
    * `Tokenizes.isOk_eq`
    * `TokenText.read_covers`
-/

namespace Diachrony

open Unicode

------------------------------------------------------------
-- Escapes
------------------------------------------------------------

/-
  Whether a place of a text is escaped: it is behind a
  backslash that is not escaped itself.
-/
def isEscapedAt
    (text : List Char) : Nat → Bool
  | 0 => false
  | i + 1 => text[i]? = some '\\' && !isEscapedAt text i

theorem isEscapedAt_plain
    {c : Char}
    (hPlain : c ≠ '\\')
    (text : List Char)
    (i : Nat) :
    isEscapedAt (c :: text) (i + 1) = isEscapedAt text i := by
  induction i with
  | zero => simp [isEscapedAt, hPlain]
  | succ i ih =>
      rw [isEscapedAt, List.getElem?_cons_succ, ih, isEscapedAt]

theorem isEscapedAt_escape
    (c : Char)
    (text : List Char)
    (i : Nat) :
    isEscapedAt ('\\' :: c :: text) (i + 2) =
      isEscapedAt text i := by
  induction i with
  | zero => simp [isEscapedAt]
  | succ i ih =>
      rw [isEscapedAt, List.getElem?_cons_succ,
        List.getElem?_cons_succ, ih, isEscapedAt]

theorem isEscapedAt_run
    {run : List Char}
    (hRun : ∀ c ∈ run, c ≠ '\\')
    (text : List Char)
    (i : Nat) :
    isEscapedAt (run ++ text) (run.length + i) =
      isEscapedAt text i := by
  induction run with
  | nil => rw [List.nil_append, List.length_nil, Nat.zero_add]
  | cons c run ih =>
      rcases List.forall_mem_cons.mp hRun with ⟨hFirst, hLater⟩
      rw [List.cons_append, List.length_cons,
        Nat.add_right_comm, isEscapedAt_plain hFirst, ih hLater]

------------------------------------------------------------
-- Tokens in their places
------------------------------------------------------------

/-
  The tokens that can stand in a column inside a depth of
  braces with a text behind them. What could be a part of a
  token is not left over behind it.
-/
inductive Token.Fits
    (depth : Nat)
    (behind : List Char)
    (column : Int) : Token → Prop
  | text
      {c : Char}
      {run : List Char}
      (hRun : ∀ d ∈ c :: run, isOrdinary depth d = true)
      (hBehind : ∀ d ∈ behind.head?, isOrdinary depth d = false) :
      Fits depth behind column
        ⟨.text, String.ofList (c :: run), column⟩
  | escape
      (c : Char) :
      Fits depth behind column (.ofChar .escape c column)
  | doubleStar :
      Fits depth behind column ⟨.doubleStar, "**", column⟩
  | star
      (hBehind : behind.head? ≠ some '*') :
      Fits depth behind column (.ofChar .star '*' column)
  | plus
      (hDepth : 0 < depth) :
      Fits depth behind column (.ofChar .plus '+' column)
  | sign
      {c : Char}
      {kind : TokenKind}
      (hKind : TokenKind.ofChar? c = some kind) :
      Fits depth behind column (.ofChar kind c column)

theorem Token.spelling_of_ne
    {kind : TokenKind}
    (hKind : kind ≠ .escape)
    (run : List Char)
    (column : Int) :
    (⟨kind, String.ofList run, column⟩ : Token).spelling =
      run := by
  rw [Token.spelling, if_neg hKind, String.toList_ofList]

theorem Token.spelling_doubleStar
    (column : Int) :
    (⟨.doubleStar, "**", column⟩ : Token).spelling =
      ['*', '*'] :=
  spelling_of_ne (by decide) ['*', '*'] column

theorem TokenKind.plain_of_ofChar?
    {c : Char}
    {kind : TokenKind}
    (hKind : TokenKind.ofChar? c = some kind) :
    c ≠ '\\' ∧ isBlank c = false := by
  unfold TokenKind.ofChar? at hKind
  split at hKind
  all_goals
    first
    | exact ⟨by decide, by decide⟩
    | cases hKind

namespace Token.Fits

variable {depth : Nat}
variable {behind : List Char}
variable {column : Int}
variable {token : Token}

theorem column_eq
    (hFits : token.Fits depth behind column) :
    token.column = column := by
  cases hFits <;> rfl

/-
  A token is spelled by an escape of a character or by
  characters of which none is a backslash.
-/
theorem spelling_cases
    (hFits : token.Fits depth behind column) :
    (∃ c, token.spelling = ['\\', c]) ∨
      token.spelling ≠ [] ∧
        ∀ c ∈ token.spelling, c ≠ '\\' := by
  cases hFits with
  | text hRun =>
      rw [spelling_of_ne (by decide)]
      refine .inr ⟨List.cons_ne_nil _ _, fun d hMem => ?_⟩
      exact ne_of_ordinary (hRun d hMem) (by decide)
  | escape c => exact .inl ⟨c, spelling_escape c column⟩
  | doubleStar =>
      rw [spelling_doubleStar]
      exact .inr ⟨List.cons_ne_nil _ _, by simp⟩
  | star =>
      rw [ofChar, spelling_of_ne (by decide)]
      exact .inr ⟨List.cons_ne_nil _ _, by simp⟩
  | plus =>
      rw [ofChar, spelling_of_ne (by decide)]
      exact .inr ⟨List.cons_ne_nil _ _, by simp⟩
  | sign hKind =>
      rw [ofChar,
        spelling_of_ne (TokenKind.ofChar?_ne_escape hKind)]
      refine .inr ⟨List.cons_ne_nil _ _, ?_⟩
      simpa using (TokenKind.plain_of_ofChar? hKind).1

theorem length_pos
    (hFits : token.Fits depth behind column) :
    0 < token.spelling.length := by
  rcases hFits.spelling_cases with ⟨c, hSpelling⟩ | ⟨hSome, _⟩
  · rw [hSpelling]
    exact Nat.zero_lt_two
  · exact List.length_pos_of_ne_nil hSome

/- No token ends inside an escape. -/
theorem isEscapedAt_append
    (hFits : token.Fits depth behind column)
    (rest : List Char)
    (i : Nat) :
    isEscapedAt (token.spelling ++ rest)
        (token.spelling.length + i) =
      isEscapedAt rest i := by
  rcases hFits.spelling_cases with ⟨c, hSpelling⟩ | ⟨_, hPlain⟩
  · rw [hSpelling, Nat.add_comm]
    exact isEscapedAt_escape c rest i
  · exact isEscapedAt_run hPlain rest i

/- So the braces of a token are counted before those behind it. -/
theorem bracesAfter_append
    (hFits : token.Fits depth behind column)
    (level : Nat)
    (rest : List Char) :
    bracesAfter level (token.spelling ++ rest) =
      bracesAfter (bracesAfter level token.spelling) rest := by
  rcases hFits.spelling_cases with ⟨c, hSpelling⟩ | ⟨_, hPlain⟩
  · rw [hSpelling]
    rfl
  · clear hFits
    generalize token.spelling = spelling at hPlain
    induction spelling generalizing level with
    | nil => rfl
    | cons c run ih =>
        rcases List.forall_mem_cons.mp hPlain with
          ⟨hFirst, hLater⟩
        rw [List.cons_append, bracesAfter_plain hFirst,
          bracesAfter_plain hFirst, ih _ hLater]

end Token.Fits

------------------------------------------------------------
-- Cuts
------------------------------------------------------------

/-
  What a text in a column inside a depth of braces is cut
  into: it begins with a blank or with a token, or it is a
  backslash that escapes nothing.
-/
inductive Tokenizes
    (line : Int) :
    Int → Nat → List Char →
      Except SourceError (List Token) → Prop
  | nil
      {column : Int}
      {depth : Nat} :
      Tokenizes line column depth [] (.ok [])
  | dangling
      {column : Int}
      {depth : Nat} :
      Tokenizes line column depth ['\\']
        (.error
          { cause := .danglingEscape
            line := line
            column := column })
  | blank
      {column : Int}
      {depth : Nat}
      {c : Char}
      {rest : List Char}
      {result : Except SourceError (List Token)}
      (hBlank : isBlank c = true)
      (hRest : Tokenizes line (column + 1) depth rest result) :
      Tokenizes line column depth (c :: rest) result
  | token
      {column : Int}
      {depth : Nat}
      {token : Token}
      {rest : List Char}
      {result : Except SourceError (List Token)}
      (hFits : token.Fits depth rest column)
      (hRest :
        Tokenizes line (column + token.spelling.length)
          (bracesAfter depth token.spelling) rest result) :
      Tokenizes line column depth (token.spelling ++ rest)
        (token.before result)

section Cuts

variable {line column : Int}
variable {depth : Nat}
variable {text rest spelled : List Char}
variable {token : Token}
variable {tokens : List Token}
variable {result : Except SourceError (List Token)}

theorem Tokenizes.of_spelling
    (hFits : token.Fits depth rest column)
    (hSpelling : token.spelling = spelled)
    (hRest :
      Tokenizes line (column + spelled.length)
        (bracesAfter depth spelled) rest result) :
    Tokenizes line column depth (spelled ++ rest)
      (token.before result) := by
  subst hSpelling
  exact .token hFits hRest

/- What is read is such a cut. -/
theorem tokenizes_readTokens
    (line column : Int)
    (depth : Nat)
    (text : List Char) :
    Tokenizes line column depth text
      (readTokens line column depth text) := by
  fun_induction readTokens line column depth text
  case case1 => exact .nil
  case case2 hBlank ih => exact .blank hBlank ih
  case case3 => exact .dangling
  case case4 column depth escaped more _ ih =>
    exact
      .of_spelling (.escape escaped)
        (Token.spelling_escape escaped column) ih
  case case5 hStars ih =>
    rcases hStars with ⟨rfl, hNext⟩
    rcases List.head?_eq_some_iff.mp hNext with ⟨more, rfl⟩
    exact
      .of_spelling .doubleStar (Token.spelling_doubleStar _) ih
  case case6 hNext ih =>
    exact
      .of_spelling
        (.star fun hStar => hNext ⟨rfl, hStar⟩)
        (Token.spelling_of_ne (by decide) _ _) ih
  case case7 hPlus ih =>
    rcases hPlus with ⟨rfl, hDepth⟩
    exact
      .of_spelling (.plus hDepth)
        (Token.spelling_of_ne (by decide) _ _) ih
  case case8 c _ _ hEscape _ _ _ _ hKind ih =>
    refine
      .of_spelling (.sign hKind)
        (Token.spelling_of_ne
          (TokenKind.ofChar?_ne_escape hKind) _ _) ?_
    rw [bracesAfter_plain hEscape]
    exact ih
  case case9 column depth c more hBlank hEscape _ hStar hPlus
      hKind _ run ih =>
    have hParts :
        run ++ more.dropWhile (isOrdinary depth) = more :=
      List.takeWhile_append_dropWhile
    have hOrdinary :=
      ordinary_run hBlank hEscape hStar hPlus hKind more
    have hBraces : bracesAfter depth (c :: run) = depth := by
      rw [← List.append_nil (c :: run)]
      exact bracesAfter_run hOrdinary
    have hNext : ∀ d ∈ (more.dropWhile (isOrdinary depth)).head?,
        isOrdinary depth d = false := by
      have hStop := List.head?_dropWhile_not (isOrdinary depth) more
      intro d hMem
      rw [Option.mem_def.mp hMem] at hStop
      exact hStop
    conv => lhs; rw [← hParts]
    refine
      .of_spelling (.text hOrdinary hNext)
        (Token.spelling_of_ne (by decide) _ _) ?_
    have hColumn :
        column + (c :: run).length = column + 1 + run.length := by
      rw [List.length_cons]
      omega
    rw [hBraces, hColumn]
    exact ih

/- A token that fits is read before what is behind it. -/
theorem Token.Fits.readTokens_eq
    (hFits : token.Fits depth rest column) :
    readTokens line column depth (token.spelling ++ rest) =
      token.before
        (readTokens line (column + token.spelling.length)
          (bracesAfter depth token.spelling) rest) := by
  cases hFits with
  | @text c run hRun hBehind =>
      have hBraces : bracesAfter depth (c :: run) = depth := by
        rw [← List.append_nil (c :: run)]
        exact bracesAfter_run hRun
      have hColumn :
          column + (c :: run).length = column + 1 + run.length := by
        rw [List.length_cons]
        omega
      rw [spelling_of_ne (by decide), hBraces, hColumn]
      exact readTokens_run hRun hBehind
  | escape c =>
      have hBlank : ¬isBlank '\\' = true := by decide
      have hBraces : bracesAfter depth ['\\', c] = depth := rfl
      rw [spelling_escape, hBraces, List.cons_append,
        readTokens.eq_def]
      simp [hBlank]
  | doubleStar =>
      have hBlank : ¬isBlank '*' = true := by decide
      have hBraces : bracesAfter depth ['*', '*'] = depth := rfl
      rw [spelling_doubleStar, hBraces, List.cons_append,
        readTokens.eq_def]
      simp [hBlank]
  | star hBehind =>
      have hBlank : ¬isBlank '*' = true := by decide
      have hBraces : bracesAfter depth ['*'] = depth := rfl
      rw [ofChar, spelling_of_ne (by decide), hBraces,
        List.cons_append, readTokens.eq_def]
      simp [hBlank, hBehind, ofChar]
  | plus hDepth =>
      have hBlank : ¬isBlank '+' = true := by decide
      have hBraces : bracesAfter depth ['+'] = depth := rfl
      rw [ofChar, spelling_of_ne (by decide), hBraces,
        List.cons_append, readTokens.eq_def]
      simp [hBlank, hDepth, ofChar]
  | sign hKind =>
      rcases TokenKind.plain_of_ofChar? hKind with
        ⟨hEscape, hBlank⟩
      rw [ofChar,
        spelling_of_ne (TokenKind.ofChar?_ne_escape hKind),
        bracesAfter_plain hEscape]
      exact readTokens_sign hKind hBlank

/- What is read is the only cut of a text that there is. -/
theorem readTokens_eq_iff :
    readTokens line column depth text = result ↔
      Tokenizes line column depth text result := by
  constructor
  · rintro rfl
    exact tokenizes_readTokens line column depth text
  · intro hCut
    induction hCut with
    | nil => rw [readTokens.eq_def]
    | dangling =>
        rw [readTokens.eq_def]
        rfl
    | blank hBlank _ ih =>
        rw [readTokens.eq_def]
        simpa [hBlank] using ih
    | token hFits _ ih => rw [hFits.readTokens_eq, ih]

------------------------------------------------------------
-- What cuts keep
------------------------------------------------------------

theorem Token.before_eq_error_iff
    (token : Token)
    (later : Except SourceError (List Token))
    (e : SourceError) :
    token.before later = .error e ↔ later = .error e := by
  cases later with
  | error f => rfl
  | ok others => exact iff_of_false nofun nofun

/-
  A text is refused if and only if it ends in a backslash
  that is not escaped, and then at this backslash.
-/
theorem Tokenizes.error_iff
    (hCut : Tokenizes line column depth text result)
    (e : SourceError) :
    result = .error e ↔
      isEscapedAt text text.length = true ∧
        e =
          { cause := .danglingEscape
            line := line
            column := column + (text.length - 1) } := by
  induction hCut with
  | nil => simp [isEscapedAt]
  | dangling => simp [isEscapedAt, eq_comm]
  | blank hBlank _ ih =>
      rw [List.length_cons,
        isEscapedAt_plain (ne_of_blank hBlank (by decide)), ih,
        Int.natCast_succ, Int.add_assoc, Int.add_comm 1,
        Int.sub_add_cancel, Int.add_sub_cancel]
  | token hFits _ ih =>
      rw [List.length_append, hFits.isEscapedAt_append,
        Token.before_eq_error_iff, ih, Int.natCast_add,
        Int.add_assoc, Int.add_sub_assoc]

/- The column at which what a token spells ends. -/
def Token.finish
    (token : Token) : Int :=
  token.column + token.spelling.length

/- Tokens stand one behind another from the first column on. -/
theorem Tokenizes.apart
    (hCut : Tokenizes line column depth text result)
    (hTokens : result = .ok tokens) :
    (∀ token ∈ tokens,
        column ≤ token.column ∧ token.column < token.finish) ∧
      tokens.Pairwise fun token next =>
        token.finish ≤ next.column := by
  induction hCut generalizing tokens with
  | nil =>
      cases hTokens
      exact ⟨List.forall_mem_nil _, .nil⟩
  | dangling => cases hTokens
  | blank _ _ ih =>
      rcases ih hTokens with ⟨hLater, hApart⟩
      refine ⟨fun token hMem => ?_, hApart⟩
      have := hLater token hMem
      omega
  | token hFits _ ih =>
      rcases Token.before_eq_ok hTokens with
        ⟨others, hOthers, rfl⟩
      rcases ih hOthers with ⟨hLater, hApart⟩
      have hColumn := hFits.column_eq
      have hLength := hFits.length_pos
      refine
        ⟨List.forall_mem_cons.mpr ⟨?_, fun other hMem => ?_⟩,
          List.pairwise_cons.mpr ⟨fun other hMem => ?_, hApart⟩⟩
      · rw [Token.finish]
        omega
      · have := hLater other hMem
        omega
      · have := hLater other hMem
        rw [Token.finish]
        omega

/- Each token fits where it stands. -/
theorem Tokenizes.standing
    (hCut : Tokenizes line column depth text result)
    (hTokens : result = .ok tokens) :
    ∀ token ∈ tokens,
      ∃ before behind,
        text = before ++ (token.spelling ++ behind) ∧
          token.Fits (bracesAfter depth before) behind
            (column + before.length) := by
  induction hCut generalizing tokens with
  | nil =>
      cases hTokens
      exact List.forall_mem_nil _
  | dangling => cases hTokens
  | @blank column depth c rest result hBlank _ ih =>
      intro token hMem
      rcases ih hTokens token hMem with
        ⟨before, behind, rfl, hFits⟩
      refine ⟨c :: before, behind, rfl, ?_⟩
      have hOther : ∀ d ∈ ['\\', '{', '}'], isBlank d = false :=
        forall_mem_of_all (by decide)
      rw [bracesAfter_other fun d hMem =>
        ne_of_blank hBlank (hOther d hMem)]
      rwa [List.length_cons, Int.natCast_succ, Int.add_comm _ 1,
        ← Int.add_assoc]
  | @token column depth first rest result hFirst _ ih =>
      rcases Token.before_eq_ok hTokens with
        ⟨others, hOthers, rfl⟩
      refine List.forall_mem_cons.mpr ⟨?_, fun token hMem => ?_⟩
      · refine ⟨[], rest, rfl, ?_⟩
        rwa [List.length_nil, Int.natCast_zero, Int.add_zero]
      · rcases ih hOthers token hMem with
          ⟨before, behind, rfl, hFits⟩
        refine
          ⟨first.spelling ++ before, behind,
            (List.append_assoc _ _ _).symm, ?_⟩
        rwa [hFirst.bracesAfter_append, List.length_append,
          Int.natCast_add, ← Int.add_assoc]

/- What no token spells is blank. -/
theorem Tokenizes.blank_of_uncovered
    (hCut : Tokenizes line column depth text result)
    (hTokens : result = .ok tokens)
    {i : Nat}
    {c : Char}
    (hChar : text[i]? = some c)
    (hUncovered :
      ∀ token ∈ tokens,
        ¬(token.column ≤ column + i ∧
          column + i < token.finish)) :
    isBlank c = true := by
  induction hCut generalizing tokens i with
  | nil => cases hChar
  | dangling => cases hTokens
  | blank hBlank _ ih =>
      cases i with
      | zero =>
          cases hChar
          exact hBlank
      | succ i =>
          refine ih hTokens hChar fun token hMem => ?_
          have := hUncovered token hMem
          omega
  | @token column depth first rest result hFirst _ ih =>
      rcases Token.before_eq_ok hTokens with
        ⟨others, hOthers, rfl⟩
      rcases List.forall_mem_cons.mp hUncovered with
        ⟨hBeyond, hLater⟩
      have hColumn := hFirst.column_eq
      rw [Token.finish] at hBeyond
      have hLength : first.spelling.length ≤ i := by omega
      rw [List.getElem?_append_right hLength] at hChar
      refine ih hOthers hChar fun token hMem => ?_
      have := hLater token hMem
      omega

end Cuts

------------------------------------------------------------
-- Runs
------------------------------------------------------------

/-
  A token of ordinary text that is as long as it can be: it
  holds no blank, no operator and inside braces no plus sign,
  and one of those or nothing is behind it.
-/
structure Token.IsRun
    (token : Token)
    (depth : Nat)
    (behind : List Char) : Prop where
  nonempty : token.text ≠ ""
  ordinary :
    ∀ c ∈ token.text.toList,
      isBlank c = false ∧ isControl c = false ∧
        (c = '+' → depth = 0)
  ended :
    ∀ c ∈ behind.head?,
      isBlank c = true ∨ isControl c = true ∨
        (c = '+' ∧ 0 < depth)

theorem isOrdinary_iff
    {depth : Nat}
    {c : Char} :
    isOrdinary depth c = true ↔
      isBlank c = false ∧ isControl c = false ∧
        (c = '+' → depth = 0) := by
  grind [isOrdinary]

theorem TokenKind.ofChar?_ne_text
    {c : Char}
    {kind : TokenKind}
    (hKind : TokenKind.ofChar? c = some kind) :
    kind ≠ .text := by
  rintro rfl
  unfold TokenKind.ofChar? at hKind
  split at hKind <;> cases hKind

theorem Token.Fits.isRun
    {depth : Nat}
    {behind : List Char}
    {column : Int}
    {token : Token}
    (hFits : token.Fits depth behind column)
    (hKind : token.kind = .text) :
    token.IsRun depth behind := by
  cases hFits with
  | text hRun hBehind =>
      refine ⟨by simp, fun c hMem => ?_, fun c hMem => ?_⟩
      · rw [String.toList_ofList] at hMem
        exact isOrdinary_iff.mp (hRun c hMem)
      · have hStop :=
          isOrdinary_iff.not.mp
            (Bool.eq_false_iff.mp (hBehind c hMem))
        grind
  | escape => cases hKind
  | doubleStar => cases hKind
  | star => cases hKind
  | plus => cases hKind
  | sign hSign =>
      exact absurd hKind (TokenKind.ofChar?_ne_text hSign)

------------------------------------------------------------
-- Texts
------------------------------------------------------------

/-
  Tokens that cover a text in a column up to its blanks. They
  stand one behind another, each in the column of what it
  spells, and the depth of braces that counts for it is told
  from what is before it.
-/
structure TokenText.Covers
    (all : TokenText)
    (text : List Char)
    (column : Int) : Prop where
  finish_eq : all.finish = column + text.length
  increasing : (all.tokens.map Token.column).Pairwise (· < ·)
  apart :
    all.tokens.Pairwise fun token next =>
      token.finish ≤ next.column
  standing :
    ∀ token ∈ all.tokens,
      ∃ before behind,
        text = before ++ (token.spelling ++ behind) ∧
          token.column = column + before.length ∧
          token.Fits (bracesAfter 0 before) behind token.column ∧
          (token.kind = .text →
            token.IsRun (bracesAfter 0 before) behind)
  blank :
    ∀ (i : Nat) (c : Char),
      text[i]? = some c →
        (∀ token ∈ all.tokens,
            ¬(token.column ≤ column + i ∧
              column + i < token.finish)) →
          isBlank c = true

/-
  A text is refused if and only if it ends in a backslash
  that is not escaped. All others are covered by what is read.
-/
theorem TokenText.read_covers
    (text : List Char)
    (line column : Int) :
    (∀ e,
        TokenText.read text line column = .error e ↔
          isEscapedAt text text.length = true ∧
            e =
              { cause := .danglingEscape
                line := line
                column := column + (text.length - 1) }) ∧
      ∀ all,
        TokenText.read text line column = .ok all →
          all.Covers text column := by
  have hCut := tokenizes_readTokens line column 0 text
  unfold TokenText.read
  cases hTokens : readTokens line column 0 text with
  | error f =>
      refine ⟨fun e => ?_, nofun⟩
      rw [← hCut.error_iff, hTokens]
      simp
  | ok tokens =>
      refine ⟨fun e => ?_, ?_⟩
      · rw [← hCut.error_iff, hTokens]
        simp
      rintro _ ⟨⟩
      rcases hCut.apart hTokens with ⟨hColumns, hApart⟩
      constructor
      case finish_eq => rfl
      case apart => exact hApart
      case increasing =>
        refine List.pairwise_map.mpr
          (hApart.imp_of_mem fun hToken _ hFinish => ?_)
        have := (hColumns _ hToken).2
        omega
      case standing =>
        intro token hMem
        rcases hCut.standing hTokens token hMem with
          ⟨before, behind, hText, hFits⟩
        have hColumn := hFits.column_eq
        refine
          ⟨before, behind, hText, hColumn, ?_, hFits.isRun⟩
        rwa [hColumn]
      case blank =>
        intro i c hChar hUncovered
        exact
          hCut.blank_of_uncovered hTokens hChar hUncovered

/-
  An escaped blank is kept, a plus sign is ordinary outside of
  braces, and a brace too many closes nothing.
-/
theorem bracesAndEscapes_covered :
    ∃ all,
      TokenText.read "a+ \x7d\x7bb+\\ \x7d***".toList 2 3 = .ok all ∧
        all.tokens.map Token.column =
          [3, 6, 7, 8, 9, 10, 12, 13, 15] ∧
        all.finish = 16 ∧
        all.Covers "a+ \x7d\x7bb+\\ \x7d***".toList 3 := by
  have hRead :
      TokenText.read "a+ \x7d\x7bb+\\ \x7d***".toList 2 3 =
        .ok
          { tokens :=
              [ ⟨.text, "a+", 3⟩, ⟨.rightBrace, "\x7d", 6⟩,
                ⟨.leftBrace, "\x7b", 7⟩, ⟨.text, "b", 8⟩,
                ⟨.plus, "+", 9⟩, ⟨.escape, " ", 10⟩,
                ⟨.rightBrace, "\x7d", 12⟩,
                ⟨.doubleStar, "**", 13⟩, ⟨.star, "*", 15⟩ ]
            finish := 16 } := by
    decide +kernel
  exact
    ⟨_, hRead, rfl, rfl, (TokenText.read_covers _ 2 3).2 _ hRead⟩

end Diachrony
