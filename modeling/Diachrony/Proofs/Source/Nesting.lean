import Diachrony.Proofs.Source.Readings

/-
  How deep tokens are nested.

  The brackets of a phrase are closed inside of it. The
  signs before replacements, environments and exceptions
  stand between phrases and never in one. So such a sign
  stands outside brackets, and where it is read from the
  text has it outside brackets as well.

  Key definitions include:
    * `TokenKind.nesting`
    * `nesting`
    * `clauseSigns`
    * `Enclosed`
    * `HasSigns`

  Key theorems include:
    * `DerivesTarget.enclosed`
    * `DerivesPredicate.nesting_eq`
    * `readTokens_hasSigns`
-/

namespace Diachrony

open Unicode

------------------------------------------------------------
-- Nesting
------------------------------------------------------------

/- By how much a token changes the depth of brackets. -/
def TokenKind.nesting : TokenKind → Int
  | .leftBracket => 1
  | .leftParen => 1
  | .leftBrace => 1
  | .rightBracket => -1
  | .rightParen => -1
  | .rightBrace => -1
  | _ => 0

/- By how much tokens change it. -/
def nesting
    (tokens : List Token) : Int :=
  tokens.foldr (fun token depth => token.kind.nesting + depth) 0

/- The signs before the clauses of a rule. -/
def clauseSigns : List TokenKind :=
  [.greater, .slash, .bang]

/- The brackets of tokens, opening and closing. -/
def bracketPairs : List (TokenKind × TokenKind) :=
  [(.leftBracket, .rightBracket), (.leftParen, .rightParen),
    (.leftBrace, .rightBrace)]

/- Tokens without such signs that close what they open. -/
structure Enclosed
    (tokens : List Token) : Prop where
  unsigned : ∀ token ∈ tokens, token.kind ∉ clauseSigns
  nesting_eq : nesting tokens = 0

variable {context : ReadContext}
variable {tokens others : List Token}
variable {token opening closing : Token}

theorem nesting_cons
    (token : Token)
    (tokens : List Token) :
    nesting (token :: tokens) =
      token.kind.nesting + nesting tokens :=
  rfl

theorem nesting_append
    (tokens others : List Token) :
    nesting (tokens ++ others) =
      nesting tokens + nesting others := by
  induction tokens with
  | nil => exact (Int.zero_add _).symm
  | cons token tokens ih =>
      rw [List.cons_append, nesting_cons, ih, nesting_cons,
        Int.add_assoc]

namespace Enclosed

theorem nil :
    Enclosed [] :=
  ⟨nofun, rfl⟩

theorem append
    (hTokens : Enclosed tokens)
    (hOthers : Enclosed others) :
    Enclosed (tokens ++ others) where
  unsigned :=
    List.forall_mem_append.mpr
      ⟨hTokens.unsigned, hOthers.unsigned⟩
  nesting_eq := by
    rw [nesting_append, hTokens.nesting_eq,
      hOthers.nesting_eq, Int.add_zero]

/- A token that is neither such a sign nor a bracket. -/
theorem of_kind
    {kind : TokenKind}
    (hKind : token.kind = kind)
    (hNesting : kind.nesting = 0)
    (hSign : kind ∉ clauseSigns) :
    Enclosed [token] := by
  refine ⟨List.forall_mem_singleton.mpr ?_, ?_⟩
  · rw [hKind]
    exact hSign
  · rw [nesting_cons, hKind, hNesting]
    rfl

theorem cons
    (hToken : Enclosed [token])
    (hTokens : Enclosed tokens) :
    Enclosed (token :: tokens) :=
  hToken.append hTokens

/- Brackets and what they enclose. -/
theorem around
    (hPair : (opening.kind, closing.kind) ∈ bracketPairs)
    (hTokens : Enclosed tokens) :
    Enclosed (opening :: (tokens ++ [closing])) := by
  have hPairs :
      ∀ pair ∈ bracketPairs,
        pair.1 ∉ clauseSigns ∧ pair.2 ∉ clauseSigns ∧
          pair.1.nesting = 1 ∧ pair.2.nesting = -1 := by
    decide
  rcases hPairs _ hPair with
    ⟨hOpening, hClosing, hOpens, hCloses⟩
  refine
    ⟨List.forall_mem_cons.mpr
      ⟨hOpening, List.forall_mem_append.mpr
        ⟨hTokens.unsigned,
          List.forall_mem_singleton.mpr hClosing⟩⟩, ?_⟩
  rw [nesting_cons, nesting_append, hTokens.nesting_eq,
    nesting_cons]
  dsimp only at hOpens hCloses
  rw [hOpens, hCloses]
  rfl

theorem bracketed
    (hOpening : opening.kind = .leftBracket)
    (hTokens : Enclosed tokens)
    (hClosing : closing.kind = .rightBracket) :
    Enclosed (opening :: (tokens ++ [closing])) :=
  .around (by rw [hOpening, hClosing]; decide) hTokens

end Enclosed

------------------------------------------------------------
-- Patterns
------------------------------------------------------------

theorem DerivesRun.enclosed
    {member : Member}
    (hRun : DerivesRun context tokens member) :
    Enclosed tokens := by
  induction hRun with
  | nil => exact .nil
  | text _ hKind _ ih =>
      exact ih.append (.of_kind hKind rfl (by decide))
  | escape _ hKind ih =>
      exact ih.append (.of_kind hKind rfl (by decide))
  | edge _ hKind ih =>
      exact ih.append (.of_kind hKind rfl (by decide))

theorem DerivesMember.enclosed
    {members : List Member}
    (hMember : DerivesMember context tokens members) :
    Enclosed tokens := by
  cases hMember with
  | run hRun _ => exact hRun.enclosed
  | nested hOpening hName hClosing =>
      exact
        .bracketed hOpening (.of_kind hName rfl (by decide))
          hClosing

theorem DerivesMembers.enclosed
    {members : List Member}
    (hMembers : DerivesMembers context tokens members) :
    Enclosed tokens := by
  induction hMembers with
  | one hMember => exact hMember.enclosed
  | more hMember hComma _ ih =>
      exact
        hMember.enclosed.append
          ((Enclosed.of_kind hComma rfl (by decide)).cons ih)

theorem DerivesBracket.enclosed
    {ref : CategoryRef}
    (hBracket : DerivesBracket context tokens ref) :
    Enclosed tokens := by
  cases hBracket with
  | named hOpening hKind _ hClosing =>
      exact
        .bracketed hOpening (.of_kind hKind rfl (by decide))
          hClosing
  | listed hOpening hMembers _ hClosing =>
      exact .bracketed hOpening hMembers.enclosed hClosing

theorem DerivesTag.enclosed
    {ref tagged : CategoryRef}
    (hTag : DerivesTag context ref tokens tagged) :
    Enclosed tokens := by
  cases hTag with
  | untagged => exact .nil
  | tagged hCaret hNumber =>
      exact
        (Enclosed.of_kind hCaret rfl (by decide)).cons
          (.of_kind hNumber.kind_eq rfl (by decide))

theorem DerivesMark.enclosed
    {isLazy : Bool}
    (hMark : DerivesMark tokens isLazy) :
    Enclosed tokens := by
  cases hMark with
  | missing => exact .nil
  | lazy hMark => exact .of_kind hMark rfl (by decide)

theorem DerivesBounds.enclosed
    {min : Int}
    {max : Option Int}
    (hBounds : DerivesBounds context token min max) :
    Enclosed [token] := by
  cases hBounds with
  | number hNumber _ =>
      exact .of_kind hNumber.kind_eq rfl (by decide)
  | star hKind => exact .of_kind hKind rfl (by decide)
  | doubleStar hKind => exact .of_kind hKind rfl (by decide)
  | plus hKind => exact .of_kind hKind rfl (by decide)

theorem DerivesQuantifier.enclosed
    {wrap : Element → Element}
    (hQuantifier : DerivesQuantifier context tokens wrap) :
    Enclosed tokens := by
  cases hQuantifier with
  | braces hOpening hBounds hMark hClosing =>
      exact
        .around (by rw [hOpening, hClosing]; decide)
          (hBounds.enclosed.cons hMark.enclosed)

theorem DerivesSign.enclosed
    {element : Element}
    (hSign : DerivesSign token.kind element) :
    Enclosed [token] := by
  generalize hKind : token.kind = kind at hSign
  cases hSign
  all_goals exact .of_kind hKind rfl (by decide)

/- A phrase closes what it opens. -/
theorem Derives.enclosed
    {phrase : Phrase}
    {elements : Pattern}
    (hDerives : Derives context phrase tokens elements) :
    Enclosed tokens := by
  induction hDerives with
  | none => exact .nil
  | more _ _ ihUnit ihLater => exact ihUnit.append ihLater
  | plain _ ih => exact ih
  | quantified _ _ hQuantifier ih =>
      exact ih.append hQuantifier.enclosed
  | text hKind _ => exact .of_kind hKind rfl (by decide)
  | escape hKind => exact .of_kind hKind rfl (by decide)
  | sign hSign => exact hSign.enclosed
  | wildcard hStar hMark =>
      exact
        (Enclosed.of_kind hStar rfl (by decide)).cons
          hMark.enclosed
  | gap hStar hMark =>
      exact
        (Enclosed.of_kind hStar rfl (by decide)).cons
          hMark.enclosed
  | @group opening closing tokens mark _ _ hOpening _ _
      hClosing hMark ih =>
      have hGroup :
          Enclosed (opening :: (tokens ++ [closing])) :=
        .around (by rw [hOpening, hClosing]; decide) ih
      have hAll := hGroup.append hMark.enclosed
      simpa using hAll
  | nothing hOpening hClosing =>
      exact .bracketed hOpening .nil hClosing
  | category hBracket hTag =>
      exact hBracket.enclosed.append hTag.enclosed

------------------------------------------------------------
-- Lists
------------------------------------------------------------

theorem DerivesSeparated.enclosed
    {α : Type}
    {separator : TokenKind}
    {derives : List Token → α → Prop}
    {values : List α}
    (hNesting : separator.nesting = 0)
    (hSign : separator ∉ clauseSigns)
    (hItems : ∀ {tokens value},
      derives tokens value → Enclosed tokens)
    (hList : DerivesSeparated separator derives tokens values) :
    Enclosed tokens := by
  induction hList with
  | one hItem => exact hItems hItem
  | more hItem hSeparator _ ih =>
      exact
        (hItems hItem).append
          ((Enclosed.of_kind hSeparator hNesting hSign).cons ih)

theorem DerivesIndex.enclosed
    {index : Int}
    (hIndex : DerivesIndex context tokens index) :
    Enclosed tokens := by
  cases hIndex with
  | single hKind _ => exact .of_kind hKind rfl (by decide)

theorem DerivesSelection.enclosed
    {indices : Option (List Int)}
    (hSelection : DerivesSelection context tokens indices) :
    Enclosed tokens := by
  cases hSelection with
  | missing => exact .nil
  | given hSign hIndices =>
      exact
        (Enclosed.of_kind hSign rfl (by decide)).cons
          (hIndices.enclosed rfl (by decide)
            DerivesIndex.enclosed)

theorem DerivesTarget.enclosed
    {branch : Branch}
    (hTarget : DerivesTarget context tokens branch) :
    Enclosed tokens := by
  cases hTarget with
  | target hPattern _ hSelection =>
      exact hPattern.enclosed.append hSelection.enclosed

theorem DerivesReplacement.enclosed
    {replacement : Pattern}
    (hReplacement :
      DerivesReplacement context tokens replacement) :
    Enclosed tokens := by
  cases hReplacement with
  | replacement hPattern _ => exact hPattern.enclosed

theorem DerivesEnvironment.enclosed
    {environment : Environment}
    (hEnvironment :
      DerivesEnvironment context tokens environment) :
    Enclosed tokens := by
  cases hEnvironment with
  | around hLeft hUnderscore hRight =>
      exact
        hLeft.enclosed.append
          ((Enclosed.of_kind hUnderscore rfl (by decide)).cons
            hRight.enclosed)
  | anywhere hPattern _ hSelection =>
      exact hPattern.enclosed.append hSelection.enclosed

theorem DerivesEnvironments.enclosed
    {groups : List EnvironmentGroup}
    (hGroups : DerivesEnvironments context tokens groups) :
    Enclosed tokens :=
  DerivesSeparated.enclosed rfl (by decide)
    (fun hGroup =>
      DerivesSeparated.enclosed rfl (by decide)
        DerivesEnvironment.enclosed hGroup)
    hGroups

------------------------------------------------------------
-- Clauses
------------------------------------------------------------

/- A sign before environments is no bracket. -/
theorem DerivesConditions.nesting_eq
    {sign : TokenKind}
    {groups : List EnvironmentGroup}
    (hSign : sign ∈ clauseSigns)
    (hConditions :
      DerivesConditions context sign tokens groups) :
    nesting tokens = 0 := by
  have hSigns : ∀ sign ∈ clauseSigns, sign.nesting = 0 := by
    decide
  cases hConditions with
  | missing => rfl
  | given hKind hGroups =>
      rw [nesting_cons, hKind, hSigns sign hSign,
        (DerivesEnvironments.enclosed hGroups).nesting_eq]
      rfl

theorem DerivesPredicate.nesting_eq
    {predicate : Predicate}
    (hPredicate : DerivesPredicate context tokens predicate) :
    nesting tokens = 0 := by
  cases hPredicate with
  | predicate hReplacements hClauses =>
      cases hClauses with
      | clauses hEnvironments hExceptions =>
          rw [nesting_append, nesting_append,
            (hReplacements.enclosed rfl (by decide)
              DerivesReplacement.enclosed).nesting_eq,
            hEnvironments.nesting_eq (by decide),
            hExceptions.nesting_eq (by decide)]
          rfl

------------------------------------------------------------
-- Texts
------------------------------------------------------------

/- A bracket is a token that changes the depth as it does. -/
theorem bracketDepth_of_kind
    {c : Char}
    {kind : TokenKind}
    (hKind : TokenKind.ofChar? c = some kind)
    (level : Int) :
    bracketDepth level c = level + kind.nesting := by
  unfold TokenKind.ofChar? at hKind
  split at hKind
  all_goals
    first
    | cases hKind
      simp [bracketDepth, isOpening, openingOf?,
        TokenKind.nesting, Int.sub_eq_add_neg]
    | cases hKind

/-
  A text in which the signs among some tokens can be found,
  each as deep as its token.
-/
def HasSigns
    (level : Int)
    (text : List Char)
    (tokens : List Token) : Prop :=
  ∀ before sign after,
    tokens = before ++ sign :: after →
      sign.kind ∈ clauseSigns →
        ∃ front c back,
          text = front ++ c :: back ∧
            TokenKind.ofChar? c = some sign.kind ∧
            depthAfter level front =
              some (level + nesting before)

namespace HasSigns

variable {level : Int}
variable {part rest : List Char}

theorem nil :
    HasSigns level [] [] := by
  intro before sign after hTokens
  cases before <;> cases hTokens

/- The part of a text that is read as its first token. -/
theorem cons
    (hPart : ∀ front,
      depthAfter level (part ++ front) =
        depthAfter (level + token.kind.nesting) front)
    (hSign : token.kind ∈ clauseSigns →
      ∃ c, part = [c] ∧ TokenKind.ofChar? c = some token.kind)
    (hRest : HasSigns (level + token.kind.nesting) rest others) :
    HasSigns level (part ++ rest) (token :: others) := by
  intro before sign after hTokens hKind
  rcases List.append_eq_cons_iff.mp hTokens.symm with
    ⟨rfl, hFirst⟩ | ⟨inner, rfl, hInner⟩
  · cases hFirst
    rcases hSign hKind with ⟨c, rfl, hChar⟩
    exact ⟨[], c, rest, rfl, hChar, by simp [depthAfter, nesting]⟩
  · rcases hRest inner sign after hInner hKind with
      ⟨front, c, back, rfl, hChar, hFront⟩
    refine
      ⟨part ++ front, c, back, (List.append_assoc _ _ _).symm,
        hChar, ?_⟩
    rw [hPart, hFront, nesting_cons, Int.add_assoc]

/- A token that is no sign and no bracket. -/
theorem cons_plain
    {kind : TokenKind}
    (hKind : token.kind = kind)
    (hNesting : kind.nesting = 0)
    (hSign : kind ∉ clauseSigns)
    (hPart : ∀ front,
      depthAfter level (part ++ front) = depthAfter level front)
    (hRest : HasSigns level rest others) :
    HasSigns level (part ++ rest) (token :: others) := by
  have hLevel : level + token.kind.nesting = level := by
    rw [hKind, hNesting, Int.add_zero]
  refine cons ?_ ?_ ?_
  · rw [hLevel]
    exact hPart
  · rw [hKind]
    exact fun hMem => absurd hMem hSign
  · rw [hLevel]
    exact hRest

theorem blank
    {c : Char}
    (hBlank : isBlank c = true)
    (hRest : HasSigns level rest tokens) :
    HasSigns level (c :: rest) tokens := by
  intro before sign after hTokens hKind
  rcases hRest before sign after hTokens hKind with
    ⟨front, d, back, rfl, hChar, hFront⟩
  refine ⟨c :: front, d, back, rfl, hChar, ?_⟩
  rw [depthAfter_plain (ne_of_blank hBlank (by decide)),
    bracketDepth_of_blank hBlank, hFront]

end HasSigns

/- A sign stands in the text as deep as among the tokens. -/
theorem readTokens_hasSigns
    {line column level : Int}
    {depth : Nat}
    {text : List Char}
    (hRead : readTokens line column depth text = .ok tokens) :
    HasSigns level text tokens := by
  fun_induction readTokens line column depth text
      generalizing level tokens
  case case1 =>
    cases hRead
    exact .nil
  case case2 hBlank ih => exact .blank hBlank (ih hRead)
  case case3 => cases hRead
  case case4 escaped _ _ ih =>
    rcases Token.before_eq_ok hRead with ⟨others, hOthers, rfl⟩
    exact
      @HasSigns.cons_plain _ _ level ['\\', escaped] _ .escape
        rfl rfl (by decide) (fun _ => depthAfter_escape)
        (ih hOthers)
  case case5 hStars ih =>
    rcases hStars with ⟨rfl, hNext⟩
    rcases List.head?_eq_some_iff.mp hNext with ⟨more, rfl⟩
    rcases Token.before_eq_ok hRead with ⟨others, hOthers, rfl⟩
    refine
      @HasSigns.cons_plain _ _ level ['*', '*'] _
        .doubleStar rfl rfl (by decide) (fun _ => ?_) (ih hOthers)
    exact (depthAfter_plain (by decide)).trans
      (depthAfter_plain (by decide))
  case case6 ih =>
    rcases Token.before_eq_ok hRead with ⟨others, hOthers, rfl⟩
    exact
      @HasSigns.cons_plain _ _ level ['*'] _ .star rfl rfl
        (by decide) (fun _ => depthAfter_plain (by decide))
        (ih hOthers)
  case case7 hPlus ih =>
    rcases hPlus with ⟨rfl, -⟩
    rcases Token.before_eq_ok hRead with ⟨others, hOthers, rfl⟩
    exact
      @HasSigns.cons_plain _ _ level ['+'] _ .plus rfl rfl
        (by decide) (fun _ => depthAfter_plain (by decide))
        (ih hOthers)
  case case8 c more _ hEscape _ _ _ kind hKind ih =>
    rcases Token.before_eq_ok hRead with ⟨others, hOthers, rfl⟩
    refine
      @HasSigns.cons _ _ level [c] _ (fun front => ?_)
        (fun _ => ⟨c, rfl, hKind⟩) (ih hOthers)
    rw [List.singleton_append, depthAfter_plain hEscape,
      bracketDepth_of_kind hKind]
    rfl
  case case9 depth c more hBlank hEscape _ hStar hPlus hKind _
      run ih =>
    rcases Token.before_eq_ok hRead with ⟨others, hOthers, rfl⟩
    have hOrdinary :=
      ordinary_run hBlank hEscape hStar hPlus hKind more
    have hParts :
        c :: more =
          (c :: run) ++ more.dropWhile (isOrdinary depth) := by
      rw [List.cons_append, List.takeWhile_append_dropWhile]
    rw [hParts]
    exact
      @HasSigns.cons_plain _ _ level (c :: run) _ .text rfl rfl
        (by decide)
        (fun _ => depthAfter_level
          (fun d hMem =>
            ne_of_ordinary (hOrdinary d hMem) (by decide))
          (fun d hMem =>
            bracketDepth_of_ordinary (hOrdinary d hMem) level))
        (ih hOthers)

end Diachrony
