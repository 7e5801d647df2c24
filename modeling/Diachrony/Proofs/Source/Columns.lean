import Diachrony.Proofs.Source.BodyGrammar

/-
  Tokens in other columns.

  The columns of tokens, and the place and the name of what
  they are read for, are only used to report. What a phrase
  of the grammar stands for depends on the kinds and the
  texts of its tokens, and on the categories and graphs in
  force.

  Key definitions include:
    * `Token.moveBy`
    * `ReadContext.relocate`

  Key theorems include:
    * `Derives.relocate`
    * `DerivesBody.relocate`
-/

namespace Diachrony

/- A token of the same kind and text in another column. -/
def Token.moveBy
    (move : Int → Int)
    (token : Token) : Token :=
  { token with column := move token.column }

/- The same categories and graphs, used for another text. -/
def ReadContext.relocate
    (line finish : Int)
    (rule : Option String)
    (context : ReadContext) : ReadContext :=
  { context with line := line, finish := finish, rule := rule }

variable {move : Int → Int}
variable {line finish : Int}
variable {rule : Option String}
variable {context : ReadContext}
variable {tokens : List Token}

------------------------------------------------------------
-- Categories
------------------------------------------------------------

theorem ReadContext.Spells.relocate
    {token : Token}
    {n : Nat}
    (hNumber : context.Spells token n) :
    (context.relocate line finish rule).Spells
      (token.moveBy move) n :=
  ⟨hNumber.kind_eq, hNumber.admitted, hNumber.number_eq⟩

theorem DerivesRun.relocate
    {member : Member}
    (hRun : DerivesRun context tokens member) :
    DerivesRun (context.relocate line finish rule)
      (tokens.map (Token.moveBy move)) member := by
  induction hRun with
  | nil => exact .nil
  | @text _ _ token _ hKind hText ih =>
      rw [List.map_append]
      exact
        @DerivesRun.text _ _ _ (token.moveBy move) ih hKind hText
  | @escape _ _ token _ hKind ih =>
      rw [List.map_append]
      exact @DerivesRun.escape _ _ _ (token.moveBy move) ih hKind
  | @edge _ _ token _ hKind ih =>
      rw [List.map_append]
      exact @DerivesRun.edge _ _ _ (token.moveBy move) ih hKind

/- The column of a name only tells where it is missing. -/
theorem ReadContext.nestedMembers_relocate
    (name : Token) :
    ((context.relocate line finish rule).nestedMembers
        (name.moveBy move)).1 =
      (context.nestedMembers name).1 := by
  simp only [nestedMembers, relocate, Token.moveBy]
  cases context.table.resolve? name.text <;> rfl

theorem ReadContext.named_relocate
    (name : Token) :
    ((context.relocate line finish rule).named
        (name.moveBy move)).1 =
      (context.named name).1 := by
  simp only [named, relocate, Token.moveBy]
  cases context.table.resolve? name.text <;> rfl

theorem DerivesMember.relocate
    {members : List Member}
    (hMember : DerivesMember context tokens members) :
    DerivesMember (context.relocate line finish rule)
      (tokens.map (Token.moveBy move)) members := by
  cases hMember with
  | run hRun hSome =>
      exact .run hRun.relocate (fun hNone =>
        hSome (List.map_eq_nil_iff.mp hNone))
  | @nested opening name closing hOpening hName hClosing =>
      rw [← ReadContext.nestedMembers_relocate]
      exact
        @DerivesMember.nested _ (opening.moveBy move)
          (name.moveBy move) (closing.moveBy move) hOpening
          hName hClosing

theorem DerivesMembers.relocate
    {members : List Member}
    (hMembers : DerivesMembers context tokens members) :
    DerivesMembers (context.relocate line finish rule)
      (tokens.map (Token.moveBy move)) members := by
  induction hMembers with
  | one hMember => exact .one hMember.relocate
  | @more _ _ comma _ _ hMember hComma _ ih =>
      rw [List.map_append]
      exact
        @DerivesMembers.more _ _ _ (comma.moveBy move) _ _
          hMember.relocate hComma ih

theorem IsLoneName.of_moveBy
    (hLone : IsLoneName (tokens.map (Token.moveBy move))) :
    IsLoneName tokens := by
  rcases hLone with ⟨name, hTokens, hKind, hName⟩
  rcases List.map_eq_singleton_iff.mp hTokens with
    ⟨token, rfl, rfl⟩
  exact ⟨token, rfl, hKind, hName⟩

theorem DerivesBracket.relocate
    {ref : CategoryRef}
    (hBracket : DerivesBracket context tokens ref) :
    DerivesBracket (context.relocate line finish rule)
      (tokens.map (Token.moveBy move)) ref := by
  cases hBracket with
  | @named opening name closing hOpening hKind hName
      hClosing =>
      rw [← ReadContext.named_relocate]
      exact
        @DerivesBracket.named _ (opening.moveBy move)
          (name.moveBy move) (closing.moveBy move) hOpening
          hKind hName hClosing
  | @listed opening closing _ _ hOpening hMembers hNotLone
      hClosing =>
      rw [List.map_cons, List.map_append]
      exact
        @DerivesBracket.listed _ (opening.moveBy move)
          (closing.moveBy move) _ _ hOpening hMembers.relocate
          (fun hLone => hNotLone hLone.of_moveBy) hClosing

theorem DerivesTag.relocate
    {ref tagged : CategoryRef}
    (hTag : DerivesTag context ref tokens tagged) :
    DerivesTag (context.relocate line finish rule) ref
      (tokens.map (Token.moveBy move)) tagged := by
  cases hTag with
  | untagged => exact .untagged
  | tagged hCaret hNumber => exact .tagged hCaret hNumber.relocate

------------------------------------------------------------
-- Patterns
------------------------------------------------------------

theorem DerivesMark.relocate
    {isLazy : Bool}
    (hMark : DerivesMark tokens isLazy) :
    DerivesMark (tokens.map (Token.moveBy move)) isLazy := by
  cases hMark with
  | missing => exact .missing
  | lazy hMark => exact .lazy hMark

theorem DerivesBounds.relocate
    {token : Token}
    {min : Int}
    {max : Option Int}
    (hBounds : DerivesBounds context token min max) :
    DerivesBounds (context.relocate line finish rule)
      (token.moveBy move) min max := by
  cases hBounds with
  | number hNumber hPositive =>
      exact .number hNumber.relocate hPositive
  | star hKind => exact .star hKind
  | doubleStar hKind => exact .doubleStar hKind
  | plus hKind => exact .plus hKind

theorem DerivesQuantifier.relocate
    {wrap : Element → Element}
    (hQuantifier : DerivesQuantifier context tokens wrap) :
    DerivesQuantifier (context.relocate line finish rule)
      (tokens.map (Token.moveBy move)) wrap := by
  cases hQuantifier with
  | @braces opening _ closing _ _ _ _ hOpening hBounds hMark
      hClosing =>
      rw [List.map_cons, List.map_cons, List.map_append]
      exact
        @DerivesQuantifier.braces _ (opening.moveBy move) _
          (closing.moveBy move) _ _ _ _ hOpening
          hBounds.relocate hMark.relocate hClosing

/- Moved tokens stand for the same elements. -/
theorem Derives.relocate
    {phrase : Phrase}
    {elements : Pattern}
    (hDerives : Derives context phrase tokens elements) :
    Derives (context.relocate line finish rule) phrase
      (tokens.map (Token.moveBy move)) elements := by
  induction hDerives with
  | none => exact .none
  | more _ _ ihUnit ihLater =>
      rw [List.map_append]
      exact .more ihUnit ihLater
  | plain _ ih => exact .plain ih
  | quantified _ hLast hQuantifier ih =>
      rw [List.map_append]
      exact .quantified ih hLast hQuantifier.relocate
  | @text token hKind hText =>
      exact
        @Derives.text (context.relocate line finish rule)
          (token.moveBy move) hKind hText
  | @escape token hKind =>
      exact @Derives.escape _ (token.moveBy move) hKind
  | @sign token _ hSign =>
      exact @Derives.sign _ (token.moveBy move) _ hSign
  | @wildcard star _ _ hStar hMark =>
      exact
        @Derives.wildcard _ (star.moveBy move) _ _ hStar
          hMark.relocate
  | @gap star _ _ hStar hMark =>
      exact
        @Derives.gap _ (star.moveBy move) _ _ hStar
          hMark.relocate
  | @group opening closing _ _ _ _ hOpening _ hSome hClosing
      hMark ih =>
      rw [List.map_cons, List.map_append, List.map_cons]
      exact
        @Derives.group _ (opening.moveBy move)
          (closing.moveBy move) _ _ _ _ hOpening ih
          (fun hNone => hSome (List.map_eq_nil_iff.mp hNone))
          hClosing hMark.relocate
  | @nothing opening closing hOpening hClosing =>
      exact
        @Derives.nothing _ (opening.moveBy move)
          (closing.moveBy move) hOpening hClosing
  | category hBracket hTag =>
      rw [List.map_append]
      exact .category hBracket.relocate hTag.relocate

------------------------------------------------------------
-- Clauses
------------------------------------------------------------

theorem DerivesSeparated.relocate
    {α : Type}
    {separator : TokenKind}
    {derives moved : List Token → α → Prop}
    {values : List α}
    (hItems : ∀ {tokens value},
      derives tokens value →
        moved (tokens.map (Token.moveBy move)) value)
    (hList : DerivesSeparated separator derives tokens values) :
    DerivesSeparated separator moved
      (tokens.map (Token.moveBy move)) values := by
  induction hList with
  | one hItem => exact .one (hItems hItem)
  | @more _ _ token _ _ hItem hSeparator _ ih =>
      rw [List.map_append]
      exact
        @DerivesSeparated.more _ _ _ _ _ (token.moveBy move) _ _
          (hItems hItem) hSeparator ih

theorem DerivesIndex.relocate
    {index : Int}
    (hIndex : DerivesIndex context tokens index) :
    DerivesIndex (context.relocate line finish rule)
      (tokens.map (Token.moveBy move)) index := by
  cases hIndex with
  | @single token _ hKind hInteger =>
      exact
        @DerivesIndex.single _ (token.moveBy move) _ hKind
          hInteger

theorem DerivesSelection.relocate
    {indices : Option (List Int)}
    (hSelection : DerivesSelection context tokens indices) :
    DerivesSelection (context.relocate line finish rule)
      (tokens.map (Token.moveBy move)) indices := by
  cases hSelection with
  | missing => exact .missing
  | @given sign _ _ hSign hIndices =>
      exact
        @DerivesSelection.given _ (sign.moveBy move) _ _ hSign
          (hIndices.relocate DerivesIndex.relocate)

theorem DerivesTarget.relocate
    {branch : Branch}
    (hTarget : DerivesTarget context tokens branch) :
    DerivesTarget (context.relocate line finish rule)
      (tokens.map (Token.moveBy move)) branch := by
  cases hTarget with
  | target hPattern hSome hSelection =>
      rw [List.map_append]
      exact .target hPattern.relocate hSome hSelection.relocate

theorem DerivesReplacement.relocate
    {replacement : Pattern}
    (hReplacement :
      DerivesReplacement context tokens replacement) :
    DerivesReplacement (context.relocate line finish rule)
      (tokens.map (Token.moveBy move)) replacement := by
  cases hReplacement with
  | replacement hPattern hSome =>
      exact .replacement hPattern.relocate hSome

theorem DerivesEnvironment.relocate
    {environment : Environment}
    (hEnvironment :
      DerivesEnvironment context tokens environment) :
    DerivesEnvironment (context.relocate line finish rule)
      (tokens.map (Token.moveBy move)) environment := by
  cases hEnvironment with
  | @around _ _ underscore _ _ hLeft hUnderscore hRight =>
      rw [List.map_append]
      exact
        @DerivesEnvironment.around _ _ _
          (underscore.moveBy move) _ _ hLeft.relocate
          hUnderscore hRight.relocate
  | anywhere hPattern hSome hSelection =>
      rw [List.map_append]
      exact .anywhere hPattern.relocate hSome hSelection.relocate

theorem DerivesConditions.relocate
    {sign : TokenKind}
    {groups : List EnvironmentGroup}
    (hConditions :
      DerivesConditions context sign tokens groups) :
    DerivesConditions (context.relocate line finish rule) sign
      (tokens.map (Token.moveBy move)) groups := by
  cases hConditions with
  | missing => exact .missing
  | @given token _ _ hSign hGroups =>
      exact
        @DerivesConditions.given _ _ (token.moveBy move) _ _
          hSign
          (hGroups.relocate fun hGroup =>
            hGroup.relocate DerivesEnvironment.relocate)

theorem DerivesClauses.relocate
    {replacements : List Pattern}
    {predicate : Predicate}
    (hClauses :
      DerivesClauses context replacements tokens predicate) :
    DerivesClauses (context.relocate line finish rule)
      replacements (tokens.map (Token.moveBy move))
      predicate := by
  cases hClauses with
  | clauses hEnvironments hExceptions =>
      rw [List.map_append]
      exact .clauses hEnvironments.relocate hExceptions.relocate

theorem DerivesPredicate.relocate
    {predicate : Predicate}
    (hPredicate : DerivesPredicate context tokens predicate) :
    DerivesPredicate (context.relocate line finish rule)
      (tokens.map (Token.moveBy move)) predicate := by
  cases hPredicate with
  | predicate hReplacements hClauses =>
      rw [List.map_append]
      exact
        .predicate
          (hReplacements.relocate DerivesReplacement.relocate)
          hClauses.relocate

theorem DerivesTargets.relocate
    {form : RuleForm}
    {branches : List Branch}
    (hTargets : DerivesTargets context form tokens branches) :
    DerivesTargets (context.relocate line finish rule) form
      (tokens.map (Token.moveBy move)) branches := by
  cases hTargets with
  | listed hForm hTargets =>
      exact .listed hForm (hTargets.relocate DerivesTarget.relocate)
  | insertion => exact .insertion

theorem DerivesChanges.relocate
    {form : RuleForm}
    {predicates : List Predicate}
    (hChanges :
      DerivesChanges context form tokens predicates) :
    DerivesChanges (context.relocate line finish rule) form
      (tokens.map (Token.moveBy move)) predicates := by
  cases hChanges with
  | @substitution arrow _ _ hArrow hPredicates =>
      exact
        @DerivesChanges.substitution _ (arrow.moveBy move) _ _
          hArrow
          (hPredicates.relocate DerivesPredicate.relocate)
  | insertion hPredicate => exact .insertion hPredicate.relocate
  | deletion hClauses => exact .deletion hClauses.relocate

/- So a body in other columns is the same body. -/
theorem DerivesBody.relocate
    {form : RuleForm}
    {body : RuleBody}
    (hBody : DerivesBody context form tokens body) :
    DerivesBody (context.relocate line finish rule) form
      (tokens.map (Token.moveBy move)) body := by
  cases hBody with
  | body hTargets hChanges =>
      rw [List.map_append]
      exact .body hTargets.relocate hChanges.relocate

end Diachrony
