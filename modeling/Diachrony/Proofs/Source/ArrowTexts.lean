import Diachrony.Proofs.Source.EmptyBrackets
import Diachrony.Proofs.Source.TargetTexts

/-
  Texts on both sides of an arrow.

  The text of a substitution spells what its targets and the
  text behind its first arrow spell. Neither side depends on
  the other: flags are searched behind the arrow in the same
  way whatever the targets are.

  Key definitions include:
    * `StandsAlone`
    * `SpellsTargets`
    * `SpellsChanges`

  Key theorems include:
    * `standsFor_arrow_iff`
    * `spellsRule_arrow_iff`
-/

namespace Diachrony

open Unicode

variable {limit : DigitLimit}
variable {targets rest bodyText : List Char}

------------------------------------------------------------
-- Flags
------------------------------------------------------------

/- The search for flags behind an arrow. -/
def flagsBehindArrow
    (limit : DigitLimit)
    (rest : List Char) : Except ReadError (Option Nat) :=
  flagsStartFrom (isFlagList limit) 0 none ['>'] rest

/- No flags start in the targets, nor between them and it. -/
theorem flagsStart?_arrow
    (hTargets : IsTargetText limit targets) :
    flagsStart? (isFlagList limit)
        (targets ++ [' ', '>'] ++ rest) =
      (flagsBehindArrow limit rest).map
        (Option.map (· + (targets.length + 1))) := by
  have hBang : ¬StandsOutside '!' targets :=
    hTargets.unsigned '!' (by decide)
  rw [flagsStart?, List.append_assoc,
    flagsStartFrom_append hTargets.closed,
    flagsStartFrom_targets hBang hTargets.flagless]
  simp only [List.cons_append, List.nil_append]
  rw [flagsStartFrom_blank (by decide),
    flagsStartFrom_operator (by decide)]
  have hAlike :
      EndsAlike ['>'] ('>' :: ' ' :: (targets.reverse ++ [])) :=
    .of_escape_iff (by simp)
  exact flagsStartFrom_alike rfl hAlike (by simp; omega)

theorem divides_arrow_iff
    {flagText : Option (List Char)}
    (hTargets : IsTargetText limit targets) :
    Divides limit (targets ++ [' ', '>'] ++ rest) bodyText
        flagText ↔
      ∃ middle,
        bodyText = targets ++ [' ', '>'] ++ middle ∧
          rest = middle ++ flagText.getD [] ∧
          flagsBehindArrow limit rest =
            .ok (flagText.map fun _ => 1 + middle.length) :=
  divides_searched_iff (by simp; omega)
    (fun _ hStart => flagsStartFrom_ge hStart)
    (flagsStart?_arrow hTargets)

------------------------------------------------------------
-- Tokens
------------------------------------------------------------

section Tokens

variable {context : ReadContext}
variable {body : RuleBody}

/- Tokens that stand for targets in whatever columns they are. -/
def SpellsTargets
    (context : ReadContext)
    (bares : List (TokenKind × String))
    (branches : List Branch) : Prop :=
  ∀ line finish rule tokens,
    tokens.map Token.bare = bares →
      DerivesTargets (context.relocate line finish rule)
        .substitution tokens branches

/- Tokens that stand for what follows the first arrow. -/
def SpellsPredicates
    (context : ReadContext)
    (bares : List (TokenKind × String))
    (predicates : List Predicate) : Prop :=
  ∀ line finish rule tokens,
    tokens.map Token.bare = bares →
      DerivesSeparated .greater
        (DerivesPredicate (context.relocate line finish rule))
        tokens predicates

theorem exists_tokens
    (bares : List (TokenKind × String)) :
    ∃ tokens : List Token, tokens.map Token.bare = bares := by
  refine
    ⟨bares.map fun bare => Token.mk bare.1 bare.2 0, ?_⟩
  rw [List.map_map]
  exact List.map_id _

/- The two sides stand for their parts of a body. -/
theorem standsFor_arrow_iff
    {depth : Nat}
    {first later : List (TokenKind × String)}
    {arrow : String}
    (hFirst : ReadsAs depth targets first)
    (hSigns : ∀ c ∈ signCharacters, ¬StandsOutside c targets) :
    StandsFor context .substitution
        (first ++ (.greater, arrow) :: later) body ↔
      SpellsTargets context first body.branches ∧
        SpellsPredicates context later body.predicates := by
  constructor
  · intro hStands
    have hSplit : ∀ line finish rule front back,
        front.map Token.bare = first →
          back.map Token.bare = later →
            DerivesTargets (context.relocate line finish rule)
                .substitution front body.branches ∧
              DerivesSeparated .greater
                (DerivesPredicate
                  (context.relocate line finish rule))
                back body.predicates := by
      intro line finish rule front back hFront hBack
      let sign := Token.mk .greater arrow 0
      have hTokens :
          (front ++ sign :: back).map Token.bare =
            first ++ (.greater, arrow) :: later := by
        rw [List.map_append, hFront, List.map_cons, hBack]
        rfl
      have hSign : sign.kind = .greater := rfl
      exact
        (DerivesBody.arrow_iff hSign
            (unsigned_tokens hFirst hSigns hFront)).mp
          (hStands line finish rule _ hTokens)
    rcases exists_tokens first with ⟨front, hFront⟩
    rcases exists_tokens later with ⟨back, hBack⟩
    exact
      ⟨fun line finish rule tokens hTokens =>
          (hSplit line finish rule tokens back hTokens hBack).1,
        fun line finish rule tokens hTokens =>
          (hSplit line finish rule front tokens hFront
            hTokens).2⟩
  · rintro ⟨hTargets, hPredicates⟩ line finish rule tokens
      hTokens
    rcases List.map_eq_append_iff.mp hTokens with
      ⟨front, others, rfl, hFront, hOthers⟩
    rcases List.map_eq_cons_iff.mp hOthers with
      ⟨sign, back, rfl, hSign, hBack⟩
    exact
      (DerivesBody.arrow_iff (congrArg Prod.fst hSign)
          (unsigned_tokens hFirst hSigns hFront)).mpr
        ⟨hTargets line finish rule front hFront,
          hPredicates line finish rule back hBack⟩

end Tokens

------------------------------------------------------------
-- Texts
------------------------------------------------------------

/- Targets that close all brackets they open, and no others. -/
structure StandsAlone
    (limit : DigitLimit)
    (targets : List Char) : Prop
    extends IsTargetText limit targets where
  balances_eq : ∀ rest,
    balances [] (targets ++ rest) = balances [] rest
  braces_eq : bracesAfter 0 targets = 0

/-
  What a text behind the first arrow of a rule spells. It is
  not asked what stands in front of the arrow.
-/
structure SpellsChanges
    (setting : RuleSetting)
    (text : List Char)
    (flags : Flags)
    (predicates : List Predicate) : Prop where
  balanced : balances [] text = true
  divided :
    ∃ middle flagText bares,
      text = middle ++ flagText.getD [] ∧
        flagsBehindArrow setting.digitLimit text =
          .ok (flagText.map fun _ => 1 + middle.length) ∧
        SpellsFlags setting.digitLimit flagText flags ∧
        ReadsAs 0 middle bares ∧
        SpellsPredicates setting.grammar bares predicates

theorem balances_arrow
    (hAlone : StandsAlone limit targets) :
    balances [] (targets ++ [' ', '>'] ++ rest) =
      balances [] rest := by
  rw [List.append_assoc, hAlone.balances_eq]
  simp only [List.cons_append, List.nil_append]
  rw [balances_blank (by decide),
    balances_of_operator (by decide)]

theorem readsAs_arrow_iff
    {middle : List Char}
    {first bares : List (TokenKind × String)}
    (hAlone : StandsAlone limit targets)
    (hFirst : ReadsAs 0 targets first) :
    ReadsAs 0 (targets ++ [' ', '>'] ++ middle) bares ↔
      ∃ later,
        ReadsAs 0 middle later ∧
          bares =
            first ++ (.greater, String.ofList ['>']) :: later := by
  have hBlank : isBlank ' ' = true := by decide
  have hSeparate : Separate (' ' :: '>' :: middle) :=
    separate_of_blank hBlank
  rw [List.append_assoc]
  simp only [List.cons_append, List.nil_append]
  constructor
  · intro hRead
    rcases hRead.exists_parts hSeparate hAlone.closed with
      ⟨firsts, later, hFirsts, hLater, rfl⟩
    rw [hAlone.braces_eq] at hLater
    have hGap : ∀ c ∈ [' '], isBlank c = true :=
      List.forall_mem_singleton.mpr hBlank
    have hArrow : ReadsAs 0 ('>' :: middle) later :=
      (readsAs_blanks_iff hGap).mp hLater
    rcases hArrow.exists_behind rfl (by decide) with
      ⟨behind, rfl, hBehind⟩
    exact ⟨behind, hBehind, by rw [hFirsts.unique hFirst]⟩
  · rintro ⟨later, hLater, rfl⟩
    refine hFirst.append hSeparate ?_
    rw [hAlone.braces_eq]
    exact .blank hBlank (.sign rfl (by decide) hLater)

/- The sides of an arrow spell their parts of a rule. -/
theorem spellsRule_arrow_iff
    {setting : RuleSetting}
    {first : List (TokenKind × String)}
    {flags : Flags}
    {body : RuleBody}
    (hAlone : StandsAlone setting.digitLimit targets)
    (hFirst : ReadsAs 0 targets first) :
    SpellsRule setting .substitution
        (targets ++ [' ', '>'] ++ rest) flags body ↔
      SpellsTargets setting.grammar first body.branches ∧
        SpellsChanges setting rest flags body.predicates := by
  have hTargets := hAlone.toIsTargetText
  constructor
  · rintro ⟨hBalanced, bodyText, flagText, bares, hDivides,
      hFlags, hReads, hStands⟩
    rw [balances_arrow hAlone] at hBalanced
    rcases (divides_arrow_iff hTargets).mp hDivides with
      ⟨middle, rfl, hText, hStart⟩
    rcases (readsAs_arrow_iff hAlone hFirst).mp hReads with
      ⟨later, hLater, rfl⟩
    rcases
      (standsFor_arrow_iff hFirst hTargets.unsigned).mp
        hStands with
      ⟨hBranches, hPredicates⟩
    exact
      ⟨hBranches, hBalanced, middle, flagText, later, hText,
        hStart, hFlags, hLater, hPredicates⟩
  · rintro ⟨hBranches, hBalanced, middle, flagText, later, hText,
      hStart, hFlags, hLater, hPredicates⟩
    rw [← balances_arrow hAlone] at hBalanced
    exact
      ⟨hBalanced, _, flagText, _,
        (divides_arrow_iff hTargets).mpr
          ⟨middle, rfl, hText, hStart⟩,
        hFlags,
        (readsAs_arrow_iff hAlone hFirst).mpr
          ⟨later, hLater, rfl⟩,
        (standsFor_arrow_iff hFirst hTargets.unsigned).mpr
          ⟨hBranches, hPredicates⟩⟩

end Diachrony
