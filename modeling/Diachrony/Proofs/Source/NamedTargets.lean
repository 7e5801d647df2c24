import Diachrony.Proofs.Source.ArrowTexts
import Diachrony.Proofs.Source.MemberLists

/-
  Targets that name a category.

  A name in brackets is a target by itself. It refers to the
  category of that name, and what can follow it is what can
  follow empty brackets. An underscore is a token of its own
  that no target contains, so a name with an underscore
  cannot be used in this way.

  Key definitions include:
    * `bracketed`
    * `namedBranch`

  Key theorems include:
    * `DerivesTargets.no_underscore`
    * `Rule.read_named`
-/

namespace Diachrony

open Unicode

------------------------------------------------------------
-- Underscores
------------------------------------------------------------

section Underscores

variable {context : ReadContext}
variable {tokens : List Token}
variable {token : Token}

/- Tokens without underscores. -/
def HasNoUnderscore
    (tokens : List Token) : Prop :=
  ∀ token ∈ tokens, token.kind ≠ .underscore

theorem hasNoUnderscore_append
    {others : List Token} :
    HasNoUnderscore (tokens ++ others) ↔
      HasNoUnderscore tokens ∧ HasNoUnderscore others :=
  List.forall_mem_append

theorem hasNoUnderscore_cons :
    HasNoUnderscore (token :: tokens) ↔
      token.kind ≠ .underscore ∧ HasNoUnderscore tokens :=
  List.forall_mem_cons

theorem hasNoUnderscore_nil :
    HasNoUnderscore [] :=
  List.forall_mem_nil _

theorem DerivesRun.no_underscore
    {member : Member}
    (hRun : DerivesRun context tokens member) :
    HasNoUnderscore tokens := by
  induction hRun with
  | nil => exact hasNoUnderscore_nil
  | text _ hKind _ ih | escape _ hKind ih | edge _ hKind ih =>
      refine
        hasNoUnderscore_append.mpr
          ⟨ih, List.forall_mem_singleton.mpr ?_⟩
      rw [hKind]
      exact TokenKind.noConfusion

theorem DerivesMembers.no_underscore
    {members : List Member}
    (hMembers : DerivesMembers context tokens members) :
    HasNoUnderscore tokens := by
  have hMember : ∀ {tokens members},
      DerivesMember context tokens members →
        HasNoUnderscore tokens := by
    intro tokens members hMember
    cases hMember with
    | run hRun _ => exact hRun.no_underscore
    | nested hOpening hName hClosing =>
        simp [HasNoUnderscore, hOpening, hName, hClosing]
  induction hMembers with
  | one hFirst => exact hMember hFirst
  | more hFirst hComma _ ih =>
      refine
        hasNoUnderscore_append.mpr
          ⟨hMember hFirst, hasNoUnderscore_cons.mpr ⟨?_, ih⟩⟩
      rw [hComma]
      exact TokenKind.noConfusion

theorem DerivesBracket.no_underscore
    {ref : CategoryRef}
    (hBracket : DerivesBracket context tokens ref) :
    HasNoUnderscore tokens := by
  cases hBracket with
  | named hOpening hKind _ hClosing =>
      simp [HasNoUnderscore, hOpening, hKind, hClosing]
  | listed hOpening hMembers _ hClosing =>
      simp only [hasNoUnderscore_cons, hasNoUnderscore_append,
        hOpening, hClosing]
      exact
        ⟨TokenKind.noConfusion, hMembers.no_underscore,
          TokenKind.noConfusion, hasNoUnderscore_nil⟩

theorem DerivesTag.no_underscore
    {ref tagged : CategoryRef}
    (hTag : DerivesTag context ref tokens tagged) :
    HasNoUnderscore tokens := by
  cases hTag with
  | untagged => exact hasNoUnderscore_nil
  | tagged hCaret hNumber =>
      simp [HasNoUnderscore, hCaret, hNumber.kind_eq]

theorem DerivesMark.no_underscore
    {isLazy : Bool}
    (hMark : DerivesMark tokens isLazy) :
    HasNoUnderscore tokens := by
  cases hMark with
  | missing => exact hasNoUnderscore_nil
  | lazy hMark => simp [HasNoUnderscore, hMark]

theorem DerivesQuantifier.no_underscore
    {wrap : Element → Element}
    (hQuantifier : DerivesQuantifier context tokens wrap) :
    HasNoUnderscore tokens := by
  cases hQuantifier with
  | @braces _ bounds _ _ _ _ _ hOpening hBounds hMark hClosing =>
      have hKind : bounds.kind ≠ .underscore := by
        cases hBounds with
        | number hNumber _ => simp [hNumber.kind_eq]
        | star hKind | doubleStar hKind | plus hKind =>
            simp [hKind]
      simp only [hasNoUnderscore_cons, hasNoUnderscore_append,
        hOpening, hClosing]
      exact
        ⟨TokenKind.noConfusion, hKind, hMark.no_underscore,
          TokenKind.noConfusion, hasNoUnderscore_nil⟩

/- No phrase of a pattern contains an underscore. -/
theorem Derives.no_underscore
    {phrase : Phrase}
    {elements : Pattern}
    (hDerives : Derives context phrase tokens elements) :
    HasNoUnderscore tokens := by
  induction hDerives with
  | none => exact hasNoUnderscore_nil
  | more _ _ ihUnit ihLater =>
      exact hasNoUnderscore_append.mpr ⟨ihUnit, ihLater⟩
  | plain _ ih => exact ih
  | quantified _ _ hQuantifier ih =>
      exact
        hasNoUnderscore_append.mpr
          ⟨ih, hQuantifier.no_underscore⟩
  | text hKind | escape hKind => simp [HasNoUnderscore, hKind]
  | @sign token _ hSign =>
      refine List.forall_mem_singleton.mpr fun hKind => ?_
      rw [hKind] at hSign
      cases hSign
  | wildcard hStar hMark | gap hStar hMark =>
      refine hasNoUnderscore_cons.mpr ⟨?_, hMark.no_underscore⟩
      rw [hStar]
      exact TokenKind.noConfusion
  | group hOpening _ _ hClosing hMark ih =>
      simp only [hasNoUnderscore_cons, hasNoUnderscore_append,
        hOpening, hClosing]
      exact
        ⟨TokenKind.noConfusion, ih, TokenKind.noConfusion,
          hMark.no_underscore⟩
  | nothing hOpening hClosing =>
      simp [HasNoUnderscore, hOpening, hClosing]
  | category hBracket hTag =>
      exact
        hasNoUnderscore_append.mpr
          ⟨hBracket.no_underscore, hTag.no_underscore⟩

theorem DerivesSeparated.no_underscore
    {α : Type}
    {separator : TokenKind}
    {derives : List Token → α → Prop}
    {values : List α}
    (hSeparator : separator ≠ .underscore)
    (hItem : ∀ {tokens value},
      derives tokens value → HasNoUnderscore tokens)
    (hValues :
      DerivesSeparated separator derives tokens values) :
    HasNoUnderscore tokens := by
  induction hValues with
  | one hFirst => exact hItem hFirst
  | more hFirst hKind _ ih =>
      refine
        hasNoUnderscore_append.mpr
          ⟨hItem hFirst, hasNoUnderscore_cons.mpr ⟨?_, ih⟩⟩
      rwa [hKind]

theorem DerivesTarget.no_underscore
    {branch : Branch}
    (hTarget : DerivesTarget context tokens branch) :
    HasNoUnderscore tokens := by
  cases hTarget with
  | target hPattern _ hSelection =>
      refine
        hasNoUnderscore_append.mpr ⟨hPattern.no_underscore, ?_⟩
      cases hSelection with
      | missing => exact hasNoUnderscore_nil
      | given hSign hIndices =>
          have hIndex : ∀ {tokens index},
              DerivesIndex context tokens index →
                HasNoUnderscore tokens := by
            intro tokens index hIndex
            cases hIndex with
            | single hKind => simp [HasNoUnderscore, hKind]
          refine
            hasNoUnderscore_cons.mpr
              ⟨?_, hIndices.no_underscore (by decide) hIndex⟩
          rw [hSign]
          exact TokenKind.noConfusion

/- So no targets of a rule contain one. -/
theorem DerivesTargets.no_underscore
    {form : RuleForm}
    {branches : List Branch}
    (hTargets : DerivesTargets context form tokens branches) :
    HasNoUnderscore tokens := by
  cases hTargets with
  | listed _ hTargets =>
      exact
        hTargets.no_underscore (by decide)
          DerivesTarget.no_underscore
  | insertion => exact hasNoUnderscore_nil

end Underscores

------------------------------------------------------------
-- Names in brackets
------------------------------------------------------------

section Names

variable {limit : DigitLimit}
variable {name rest : List Char}
variable {c : Char}

/- A name, or nothing, in brackets. -/
def bracketed
    (name : List Char) : List Char :=
  '[' :: (name ++ [']'])

theorem isName_iff :
    isName name = true ↔
      name ≠ [] ∧ ∀ c ∈ name, isNameCharacter c = true := by
  simp [isName]

theorem ne_of_isNameCharacter
    {d : Char}
    (hName : isNameCharacter c = true)
    (hMem :
      d ∈ ['\\', '[', '(', '{', ']', ')', '}', '>', '/', '!']) :
    c ≠ d := by
  have hOther :
      ∀ d ∈ ['\\', '[', '(', '{', ']', ')', '}', '>', '/', '!'],
        isNameCharacter d = false :=
    forall_mem_of_all (by decide +kernel)
  rintro rfl
  rw [hOther c hMem] at hName
  cases hName

theorem bracketDepth_of_isNameCharacter
    (hName : isNameCharacter c = true)
    (depth : Int) :
    bracketDepth depth c = depth := by
  by_cases hOther : c = '_'
  · rw [hOther]
    rfl
  · exact
      bracketDepth_of_ordinary
        (isOrdinary_of_isNameCharacter hName hOther) depth

theorem not_isBlank_of_isNameCharacter
    (hName : isNameCharacter c = true) :
    isBlank c = false := by
  by_contra hBlank
  rw [isNameCharacter_of_blank (by simpa using hBlank)] at hName
  cases hName

/- The characters of a name are no brackets. -/
theorem balances_name
    {brackets : List Char}
    (hName : ∀ c ∈ name, isNameCharacter c = true) :
    balances brackets (name ++ rest) =
      balances brackets rest := by
  induction name with
  | nil => rfl
  | cons c name ih =>
      rcases List.forall_mem_cons.mp hName with
        ⟨hFirst, hLater⟩
      have hOpening : isOpening c = false := by
        simp [isOpening, ne_of_isNameCharacter hFirst]
      have hClosing : openingOf? c = none := by
        unfold openingOf?
        split
        all_goals
          first
          | rfl
          | exact
              absurd rfl
                (ne_of_isNameCharacter hFirst (by decide))
      rw [List.cons_append,
        balances_plain (ne_of_isNameCharacter hFirst (by decide)),
        hOpening, hClosing]
      exact ih hLater

theorem bracesAfter_name
    {depth : Nat}
    (hName : ∀ c ∈ name, isNameCharacter c = true) :
    bracesAfter depth (name ++ rest) =
      bracesAfter depth rest := by
  induction name with
  | nil => rfl
  | cons c name ih =>
      rcases List.forall_mem_cons.mp hName with
        ⟨hFirst, hLater⟩
      rw [List.cons_append, bracesAfter_other, ih hLater]
      simp [ne_of_isNameCharacter hFirst]

theorem depthAfter_name
    {depth : Int}
    (hName : ∀ c ∈ name, isNameCharacter c = true) :
    depthAfter depth (name ++ rest) =
      depthAfter depth rest :=
  depthAfter_level
    (fun c hMem =>
      ne_of_isNameCharacter (hName c hMem) (by decide))
    (fun c hMem =>
      bracketDepth_of_isNameCharacter (hName c hMem) depth)

/- No flags start in a text without blanks. -/
theorem flagsStartFrom_unspaced
    {ε : Type}
    {isFlagList : List Char → Except ε Bool}
    {depth : Int}
    {passed text : List Char}
    (hText : ∀ c ∈ text, isBlank c = false) :
    flagsStartFrom isFlagList depth none passed text =
      .ok none := by
  fun_induction depthAfter depth text generalizing passed
  case case1 => rfl
  case case2 => rfl
  case case3 ih =>
    rcases List.forall_mem_cons.mp hText with ⟨_, hMore⟩
    exact ih (List.forall_mem_cons.mp hMore).2
  case case4 hPlain ih =>
    rcases List.forall_mem_cons.mp hText with ⟨hFirst, hLater⟩
    rw [flagsStartFrom_plain hPlain]
    simp only [hFirst, Bool.false_eq_true, if_false,
      Option.any_none, Bool.false_and]
    exact ih hLater

/- Brackets around a name stand alone. -/
theorem standsAlone_bracketed
    (hName : ∀ c ∈ name, isNameCharacter c = true) :
    StandsAlone limit (bracketed name) where
  starts := ⟨'[', rfl, by decide⟩
  closed := by
    rw [bracketed, depthAfter_plain (by decide),
      depthAfter_name hName]
    rfl
  unsigned := by
    intro c hSign hStands
    have hMem : c ∈ bracketed name := hStands.mem
    simp only [bracketed, List.mem_cons, List.mem_append,
      List.not_mem_nil, or_false] at hMem
    rcases hMem with rfl | hInside | rfl
    · exact absurd hSign (by decide)
    · refine ne_of_isNameCharacter (hName c hInside) ?_ rfl
      simp only [signCharacters, List.mem_cons] at hSign ⊢
      tauto
    · exact absurd hSign (by decide)
  flagless := by
    refine flagsStartFrom_unspaced ?_
    refine List.forall_mem_cons.mpr ⟨by decide, ?_⟩
    exact
      List.forall_mem_append.mpr
        ⟨fun c hMem =>
            not_isBlank_of_isNameCharacter (hName c hMem),
          List.forall_mem_singleton.mpr (by decide)⟩
  balances_eq := by
    intro rest
    rw [bracketed, List.cons_append, List.append_assoc,
      balances_plain (by decide), if_pos (by decide),
      balances_name hName, List.singleton_append,
      balances_plain (by decide), if_neg (by decide)]
    rfl
  braces_eq := by
    have hOpening : ∀ d ∈ ['\\', '{', '}'], '[' ≠ d :=
      forall_mem_of_all (by decide)
    rw [bracketed, bracesAfter_other hOpening,
      bracesAfter_name hName]
    rfl

/- The tokens of a name without underscores in brackets. -/
def nameBares
    (name : List Char) : List (TokenKind × String) :=
  [(.leftBracket, String.ofList ['[']),
    (.text, String.ofList name),
    (.rightBracket, String.ofList [']'])]

theorem readsAs_name
    (hName : isName name = true)
    (hOther : '_' ∉ name) :
    ReadsAs 0 (bracketed name) (nameBares name) := by
  rcases isName_iff.mp hName with ⟨hSome, hAll⟩
  rcases List.exists_cons_of_ne_nil hSome with
    ⟨c, run, rfl⟩
  have hOrdinary : ∀ d ∈ c :: run, isOrdinary 0 d = true :=
    isOrdinary_of_name fun d hMem =>
      ⟨hAll d hMem, ne_of_mem_of_not_mem hMem hOther⟩
  have hClosing : ∀ d ∈ [']'].head?, isOrdinary 0 d = false := by
    rintro d ⟨⟩
    decide
  exact
    .sign rfl (by decide)
      (.run hOrdinary hClosing (.sign rfl (by decide) .nil))

/- Those of other names contain an underscore. -/
theorem underscore_mem_bares
    {bares : List (TokenKind × String)}
    (hName : ∀ c ∈ name, isNameCharacter c = true)
    (hMem : '_' ∈ name)
    (hRead : ReadsAs 0 (bracketed name) bares) :
    (.underscore, String.ofList ['_']) ∈ bares := by
  rcases List.append_of_mem hMem with ⟨front, back, rfl⟩
  have hFront : ∀ c ∈ front, isNameCharacter c = true :=
    (List.forall_mem_append.mp hName).1
  have hWhole :
      bracketed (front ++ '_' :: back) =
        ('[' :: front) ++ ('_' :: (back ++ [']'])) := by
    simp [bracketed]
  have hSeparate : Separate ('_' :: (back ++ [']'])) := by
    rintro d ⟨⟩
    exact ⟨by decide, fun _ => rfl⟩
  have hClosed : depthAfter 0 ('[' :: front) = some 1 := by
    rw [depthAfter_plain (by decide), ← List.append_nil front,
      depthAfter_name hFront]
    rfl
  rw [hWhole] at hRead
  rcases hRead.exists_parts hSeparate hClosed with
    ⟨firsts, later, _, hLater, rfl⟩
  rcases hLater.exists_behind rfl (by decide) with
    ⟨others, rfl, _⟩
  exact List.mem_append_right _ List.mem_cons_self

end Names

------------------------------------------------------------
-- Targets
------------------------------------------------------------

section Targets

variable {context : ReadContext}
variable {name : List Char}
variable {category : Category}

/- Empty brackets are the target that matches nothing. -/
theorem spellsTargets_nothing :
    SpellsTargets context
      [(.leftBracket, String.ofList ['[']),
        (.rightBracket, String.ofList [']'])]
      [{ target := nothing }] := by
  intro line finish rule tokens hTokens
  rcases List.map_eq_cons_iff.mp hTokens with
    ⟨opening, ends, rfl, hOpening, hEnds⟩
  rcases List.map_eq_singleton_iff.mp hEnds with
    ⟨closing, rfl, hClosing⟩
  have hPattern :=
    @nothing_derives (context.relocate line finish rule) _ _
      (congrArg Prod.fst hOpening) (congrArg Prod.fst hClosing)
  exact
    .listed (by decide)
      (.one (.target hPattern (List.cons_ne_nil _ _) .missing))

/- The target that refers to a named category. -/
def namedTarget
    (category : Category)
    (name : List Char) : Branch where
  target :=
    [.category
      { category := some category, name := String.ofList name }]

theorem spellsTargets_name
    (hName : isName name = true)
    (hResolve :
      context.table.resolve? (String.ofList name) =
        some category) :
    SpellsTargets context (nameBares name)
      [namedTarget category name] := by
  intro line finish rule tokens hTokens
  rcases List.map_eq_cons_iff.mp hTokens with
    ⟨opening, inside, rfl, hOpening, hInside⟩
  rcases List.map_eq_cons_iff.mp hInside with
    ⟨token, ends, rfl, hToken, hEnds⟩
  rcases List.map_eq_singleton_iff.mp hEnds with
    ⟨closing, rfl, hClosing⟩
  have hText : token.text = String.ofList name :=
    congrArg Prod.snd hToken
  have hWord : isName token.text.toList = true := by
    rw [hText, String.toList_ofList]
    exact hName
  have hBracket :=
    @DerivesBracket.named (context.relocate line finish rule) _ _
      _ (congrArg Prod.fst hOpening) (congrArg Prod.fst hToken)
      hWord (congrArg Prod.fst hClosing)
  have hRef :
      ((context.relocate line finish rule).named token).1 =
        { category := some category
          name := String.ofList name } := by
    have hHere :
        (context.relocate line finish rule).table.resolve?
            token.text =
          some category := by
      rw [hText]
      exact hResolve
    rw [ReadContext.named, hHere, hText]
  rw [hRef] at hBracket
  have hUnits := (Derives.plain (.category hBracket .untagged)).of_unit
  exact
    .listed (by decide)
      (.one (.target hUnits (List.cons_ne_nil _ _) .missing))

/- No targets are spelled by tokens with an underscore. -/
theorem SpellsTargets.no_underscore
    {bares : List (TokenKind × String)}
    {branches : List Branch}
    (hSpells : SpellsTargets context bares branches) :
    ∀ bare ∈ bares, bare.1 ≠ .underscore := by
  rcases exists_tokens bares with ⟨tokens, rfl⟩
  exact
    List.forall_mem_map.mpr
      (hSpells 0 0 none tokens rfl).no_underscore

end Targets

------------------------------------------------------------
-- Rules
------------------------------------------------------------

section Rules

variable {setting : RuleSetting}
variable {name rest : List Char}
variable {category : Category}
variable {first : List (TokenKind × String)}
variable {rule : Rule}

/- The text of a rule with a name in brackets as its target. -/
def namedText
    (name rest : List Char) : List Char :=
  '[' :: (name ++ ']' :: ' ' :: '>' :: rest)

theorem trim_namedText
    (name rest : List Char) :
    trim (namedText name rest) =
      bracketed name ++ [' ', '>'] ++ trimRight rest := by
  have hOpening : isBlank '[' = false := by decide
  have hAround :=
    @trim_around '>' ('[' :: (name ++ [']', ' '])) rest
      (by decide)
  rw [trimLeft, List.dropWhile_cons_of_neg (by simp [hOpening])]
    at hAround
  simpa [namedText, bracketed] using hAround

/- What such a rule is read from. -/
theorem Rule.spells_of_named
    (hName : ∀ c ∈ name, isNameCharacter c = true)
    (hFirst : ReadsAs 0 (bracketed name) first)
    (hRead : Rule.read setting (namedText name rest) = .ok rule) :
    ∃ flags body,
      SpellsTargets setting.grammar first body.branches ∧
        SpellsChanges setting (trimRight rest) flags
          body.predicates ∧
        rule.Alike (Rule.plain flags body) := by
  rcases SpellsRule.of_read hRead with
    ⟨form, text, flags, body, hForm, hSpells, hAlike⟩
  rw [trim_namedText] at hForm
  cases hForm
  rcases
    (spellsRule_arrow_iff (standsAlone_bracketed hName)
      hFirst).mp hSpells with
    ⟨hTargets, hChanges⟩
  exact ⟨flags, body, hTargets, hChanges, hAlike⟩

/- And what is read from its parts. -/
theorem Rule.named_of_spells
    {flags : Flags}
    {body : RuleBody}
    (hName : ∀ c ∈ name, isNameCharacter c = true)
    (hFirst : ReadsAs 0 (bracketed name) first)
    (hTargets :
      SpellsTargets setting.grammar first body.branches)
    (hChanges :
      SpellsChanges setting (trimRight rest) flags
        body.predicates) :
    ∃ rule,
      Rule.read setting (namedText name rest) = .ok rule ∧
        rule.Alike (Rule.plain flags body) := by
  have hSpells :=
    (spellsRule_arrow_iff (standsAlone_bracketed hName)
      hFirst).mpr ⟨hTargets, hChanges⟩
  refine hSpells.read ?_ ?_
  · rw [trim_namedText]
    exact List.cons_ne_nil _ _
  · rw [trim_namedText]
    rfl

/- The branch of a rule that is read from such a target. -/
def namedBranch
    (category : Category)
    (name : List Char) : Branch where
  target :=
    [.category
      { category := some category
        name := String.ofList name
        slot := some (implicitSlot 0) }]

/-
  A rule whose target is the name of a category can be read
  if the name has no underscore and empty brackets could
  stand in its place. It refers to the category that the
  name stands for.
-/
theorem Rule.read_named
    (hName : isName name = true)
    (hResolve :
      setting.table.resolve? (String.ofList name) =
        some category) :
    ((∃ rule,
          Rule.read setting (namedText name rest) = .ok rule) ↔
        '_' ∉ name ∧
          ∃ empty,
            Rule.read setting (namedText [] rest) =
              .ok empty) ∧
      ∀ rule,
        Rule.read setting (namedText name rest) = .ok rule →
          rule.branches = [namedBranch category name] := by
  have hAll := (isName_iff.mp hName).2
  have hNone : ∀ c ∈ ([] : List Char), isNameCharacter c = true :=
    List.forall_mem_nil _
  have hEmpty :
      ReadsAs 0 (bracketed [])
        [(.leftBracket, String.ofList ['[']),
          (.rightBracket, String.ofList [']'])] :=
    .sign rfl (by decide) (.sign rfl (by decide) .nil)
  -- whatever follows the empty brackets can follow the name
  have hForth : '_' ∉ name →
      ∀ empty, Rule.read setting (namedText [] rest) = .ok empty →
        ∃ rule,
          Rule.read setting (namedText name rest) = .ok rule ∧
            rule.branches = [namedBranch category name] := by
    intro hOther empty hRead
    rcases Rule.spells_of_named hNone hEmpty hRead with
      ⟨flags, body, _, hChanges, _⟩
    rcases
      @Rule.named_of_spells setting name rest _ flags
        { branches := [namedTarget category name]
          predicates := body.predicates }
        hAll (readsAs_name hName hOther)
        (spellsTargets_name hName hResolve) hChanges with
      ⟨rule, hRule, hAlike⟩
    exact ⟨rule, hRule, hAlike.branches_eq⟩
  -- and the name must be one token
  have hBack : ∀ rule,
      Rule.read setting (namedText name rest) = .ok rule →
        '_' ∉ name ∧
          ∃ empty,
            Rule.read setting (namedText [] rest) =
              .ok empty := by
    intro rule hRead
    have hClosed :
        (depthAfter 0 (bracketed name)).isSome = true := by
      rw [(@standsAlone_bracketed setting.digitLimit _
        hAll).closed]
      rfl
    rcases ReadsAs.exists_of_closed hClosed with
      ⟨first, hFirst⟩
    rcases Rule.spells_of_named hAll hFirst hRead with
      ⟨flags, body, hTargets, hChanges, _⟩
    rcases
      @Rule.named_of_spells setting [] rest _ flags
        { branches := [{ target := nothing }]
          predicates := body.predicates }
        hNone hEmpty spellsTargets_nothing hChanges with
      ⟨empty, hRule, _⟩
    refine ⟨fun hMem => ?_, empty, hRule⟩
    exact
      hTargets.no_underscore _
        (underscore_mem_bares hAll hMem hFirst) rfl
  constructor
  · constructor
    · rintro ⟨rule, hRead⟩
      exact hBack rule hRead
    · rintro ⟨hOther, empty, hEmpty⟩
      rcases hForth hOther empty hEmpty with ⟨rule, hRule, _⟩
      exact ⟨rule, hRule⟩
  · intro rule hRead
    rcases hBack rule hRead with ⟨hOther, empty, hEmpty⟩
    rcases hForth hOther empty hEmpty with
      ⟨same, hSame, hBranches⟩
    cases hRead.symm.trans hSame
    exact hBranches

end Rules

end Diachrony
