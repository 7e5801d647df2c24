import Diachrony.Proofs.Source.Readers

/-
  Rule bodies are read exactly as the grammar says.

  Each reader of a part of a body reads what that part of
  the grammar derives, provided that what follows may follow
  it. The kinds of tokens that may follow shrink from the
  inside to the outside: after an environment an ampersand
  may come, after a group only a comma, after all
  environments of a predicate only an exclamation mark or
  the next arrow.

  So a body is read if and only if the grammar derives it
  from the tokens, and the branches and predicates are those
  of the derivation. Otherwise the source is malformed, or a
  number in it cannot be read.

  Key theorems include:
    * `readEnvironment_exactly`
    * `readPredicate_exactly`
    * `readTargets_exactly`
    * `readChanges_exactly`
    * `readBody_exact`
-/

namespace Diachrony

open Unicode

variable {context : ReadContext}

------------------------------------------------------------
-- Environments
------------------------------------------------------------

/- The kinds of tokens that may follow an environment. -/
def environmentEnds : List TokenKind :=
  [.ampersand, .comma, .slash, .bang, .greater]

/- The kinds of tokens that may follow a target. -/
def clauseEnds : List TokenKind :=
  [.comma, .slash, .bang, .greater]

theorem readRightSide_eq_ok_iff
    {tokens : List Token}
    {result : Parsed Pattern} :
    readRightSide context tokens = .ok result ↔
      readPattern context environmentStops tokens = .ok result ∧
        skipToken? .underscore result.rest = none ∧
        skipToken? .atSign result.rest = none := by
  unfold readRightSide
  constructor
  · intro hRead
    split at hRead
    · cases hRead
    rename_i hRight
    split at hRead
    · exact absurd hRead ReadContext.failAt_ne_ok
    rename_i hUnderscore
    split at hRead
    · exact absurd hRead ReadContext.failAt_ne_ok
    rename_i hSign
    cases hRead
    exact ⟨hRight, by simpa using hUnderscore, by simpa using hSign⟩
  · rintro ⟨hRight, hUnderscore, hSign⟩
    rw [hRight]
    simp [hUnderscore, hSign]

/- A local environment has one underscore and no indices. -/
theorem readRightSide_faults
    {tokens all : List Token}
    {e : ReadError}
    (hTexts : TextsNonempty all)
    (hTokens : tokens <:+ all)
    (hRead : readRightSide context tokens = .error e) :
    context.BodyFaults all e := by
  have hStops : environmentStops ∈ patternStops := by decide
  unfold readRightSide at hRead
  split at hRead
  · rename_i hRight
    cases hRead
    exact
      (readPattern_exactly hStops).faults hTexts hTokens hRight
  rename_i hRight
  have hRest :=
    (readPattern_exactly hStops).rest_suffix hTexts hTokens
      hRight
  split at hRead
  · exact .pattern (.of_failAt hRest.subset ⟨rfl, rfl⟩ hRead)
  split at hRead
  · exact .pattern (.of_failAt hRest.subset ⟨rfl, rfl⟩ hRead)
  · cases hRead

theorem readEnvironment_sound
    {tokens : List Token}
    {result : Parsed Environment}
    (hTexts : TextsNonempty tokens)
    (hRead : readEnvironment context tokens = .ok result) :
    ∃ used,
      tokens = used ++ result.rest ∧
        DerivesEnvironment context used result.value := by
  have hStops : environmentStops ∈ patternStops := by decide
  unfold readEnvironment at hRead
  split at hRead
  · cases hRead
  rename_i hLeft
  rcases (readPattern_exactly hStops).sound hTexts hLeft with
    ⟨used, hUsed, hUnits⟩
  split at hRead
  · rename_i hSkip
    split at hRead
    · cases hRead
    rename_i hRight
    cases hRead
    rcases skipToken?_eq_some_iff.mp hSkip with
      ⟨underscore, hUnderscore, hRest⟩
    rw [hRest] at hUsed
    have hLater : TextsNonempty _ :=
      hTexts.of_suffix
        (hUsed ▸ skipToken?_suffix
          (List.suffix_append used (underscore :: _))
          (skipToken?_cons hUnderscore))
    rcases (readPattern_exactly hStops).sound hLater
        (readRightSide_eq_ok_iff.mp hRight).1 with
      ⟨after, hAfter, hOthers⟩
    refine
      ⟨used ++ underscore :: after, ?_,
        .around hUnits hUnderscore hOthers⟩
    rw [hUsed, hAfter, List.append_assoc, List.cons_append]
  · split at hRead
    · exact absurd hRead ReadContext.failAt_ne_ok
    rename_i hSome
    split at hRead
    · cases hRead
    rename_i hSelection
    cases hRead
    rcases readIndices?_sound hSelection with
      ⟨selection, hRest, hIndices⟩
    refine
      ⟨used ++ selection, ?_,
        .anywhere hUnits (by simpa using hSome) hIndices⟩
    rw [hUsed, hRest, List.append_assoc]

theorem DerivesEnvironment.reads
    {tokens rest : List Token}
    {environment : Environment}
    (hDerives : DerivesEnvironment context tokens environment)
    (hRest : Follows environmentEnds rest) :
    ∃ reported,
      readEnvironment context (tokens ++ rest) =
        .ok ⟨environment, reported, rest⟩ := by
  have hStops : environmentStops ∈ patternStops := by decide
  have hEnd : Follows environmentStops rest :=
    hRest.mono (by decide)
  cases hDerives with
  | @around before after underscore left right hLeft hUnderscore
      hRight =>
      have hNext :
          Follows environmentStops
            (underscore :: (after ++ rest)) :=
        .cons (by rw [hUnderscore]; decide)
      rcases (readPattern_exactly hStops).complete hLeft hNext
        with ⟨reported, hFirst⟩
      rcases (readPattern_exactly hStops).complete hRight hEnd
        with ⟨more, hLater⟩
      have hSide :=
        readRightSide_eq_ok_iff.mpr
          ⟨hLater, hRest.skipToken?_eq_none (by decide),
            hRest.skipToken?_eq_none (by decide)⟩
      refine ⟨reported ++ more, ?_⟩
      rw [List.append_assoc, List.cons_append, readEnvironment,
        hFirst]
      dsimp only
      rw [skipToken?_cons hUnderscore]
      dsimp only
      rw [hSide]
  | @anywhere tokens selection pattern indices hPattern hSome
      hSelection =>
      have hNext := hSelection.starts.append hRest
      rcases (readPattern_exactly hStops).complete hPattern
          (hNext.mono (by decide)) with
        ⟨reported, hFirst⟩
      refine ⟨reported, ?_⟩
      rw [List.append_assoc, readEnvironment, hFirst]
      dsimp only
      rw [hNext.skipToken?_eq_none (by decide)]
      dsimp only
      rw [hSelection.reads hRest (by decide) (by decide)]
      simp [hSome]

theorem readEnvironment_faults
    {all tokens : List Token}
    {e : ReadError}
    (hTexts : TextsNonempty all)
    (hTokens : tokens <:+ all)
    (hRead : readEnvironment context tokens = .error e) :
    context.BodyFaults all e := by
  have hStops : environmentStops ∈ patternStops := by decide
  unfold readEnvironment at hRead
  split at hRead
  · rename_i hLeft
    cases hRead
    exact
      (readPattern_exactly hStops).faults hTexts hTokens hLeft
  rename_i hLeft
  have hRest :=
    (readPattern_exactly hStops).rest_suffix hTexts hTokens
      hLeft
  split at hRead
  · rename_i hSkip
    split at hRead
    · rename_i hRight
      cases hRead
      exact
        readRightSide_faults hTexts
          (skipToken?_suffix hRest hSkip) hRight
    · cases hRead
  · split at hRead
    · exact
        .pattern (.of_failAt hTokens.subset ⟨rfl, rfl⟩ hRead)
    split at hRead
    · rename_i hSelection
      cases hRead
      exact readIndices?_faults hRest hSelection
    · cases hRead

theorem readEnvironment_exactly :
    ReadsExactly context environmentEnds
      (DerivesEnvironment context) (readEnvironment context) where
  sound := readEnvironment_sound
  complete := DerivesEnvironment.reads
  faults := readEnvironment_faults

/- Groups end where an environment ends but for an ampersand. -/
theorem readGroup_exactly :
    ReadsExactly context clauseEnds (DerivesGroup context)
      (readGroup context) :=
  readEnvironment_exactly.separated (by decide)

theorem readEnvironments_exactly :
    ReadsExactly context [.slash, .bang, .greater]
      (DerivesEnvironments context)
      (readEnvironments context) :=
  readGroup_exactly.separated (by decide)

theorem DerivesConditions.starts
    {sign : TokenKind}
    {tokens : List Token}
    {groups : List EnvironmentGroup}
    (hConditions : DerivesConditions context sign tokens groups) :
    Follows [sign] tokens := by
  cases hConditions with
  | missing => nofun
  | given hSign _ => exact .cons (by simp [hSign])

/- Conditions are read unless their sign may follow them. -/
theorem readConditions_exactly
    {sign : TokenKind}
    {stops : List TokenKind}
    (hSign : sign ∉ stops)
    (hStops : stops ⊆ [.slash, .bang, .greater]) :
    ReadsExactly context stops (DerivesConditions context sign)
      (readConditions context sign) where
  sound := by
    intro tokens result hTexts hRead
    unfold readConditions at hRead
    split at hRead
    · cases hRead
      exact ⟨[], rfl, .missing⟩
    rename_i hSkip
    rcases skipToken?_eq_some_iff.mp hSkip with
      ⟨token, hKind, rfl⟩
    have hLater := hTexts.of_suffix (List.suffix_cons _ _)
    rcases readEnvironments_exactly.sound hLater hRead with
      ⟨used, hUsed, hGroups⟩
    refine ⟨token :: used, ?_, .given hKind hGroups⟩
    rw [hUsed, List.cons_append]
  complete := by
    intro tokens rest groups hDerives hRest
    cases hDerives with
    | missing =>
        refine ⟨[], ?_⟩
        rw [List.nil_append, readConditions,
          hRest.skipToken?_eq_none hSign]
    | given hKind hGroups =>
        rcases readEnvironments_exactly.complete hGroups
            (hRest.mono hStops) with
          ⟨reported, hRead⟩
        refine ⟨reported, ?_⟩
        rw [List.cons_append, readConditions,
          skipToken?_cons hKind]
        exact hRead
  faults := by
    intro all tokens e hTexts hTokens hRead
    unfold readConditions at hRead
    split at hRead
    · cases hRead
    rename_i hSkip
    exact
      readEnvironments_exactly.faults hTexts
        (skipToken?_suffix hTokens hSkip) hRead

------------------------------------------------------------
-- Predicates
------------------------------------------------------------

theorem DerivesClauses.starts
    {replacements : List Pattern}
    {tokens : List Token}
    {predicate : Predicate}
    (hClauses :
      DerivesClauses context replacements tokens predicate) :
    Follows [.slash, .bang] tokens := by
  cases hClauses with
  | clauses hEnvironments hExceptions =>
      exact hEnvironments.starts.append hExceptions.starts

theorem readClauses_exactly
    (replacements : List Pattern) :
    ReadsExactly context [.greater]
      (DerivesClauses context replacements)
      (readClauses context replacements) := by
  have hSlash :
      ReadsExactly context [.bang, .greater]
        (DerivesConditions context .slash)
        (readConditions context .slash) :=
    readConditions_exactly (by decide) (by decide)
  have hBang :
      ReadsExactly context [.greater]
        (DerivesConditions context .bang)
        (readConditions context .bang) :=
    readConditions_exactly (by decide) (by decide)
  constructor
  case sound =>
    intro tokens result hTexts hRead
    unfold readClauses at hRead
    split at hRead
    · cases hRead
    rename_i hFirst
    split at hRead
    · cases hRead
    rename_i hLater
    cases hRead
    rcases hSlash.sound hTexts hFirst with
      ⟨used, hUsed, hEnvironments⟩
    have hRest :=
      hSlash.rest_suffix hTexts List.suffix_rfl hFirst
    rcases hBang.sound (hTexts.of_suffix hRest) hLater with
      ⟨more, hMore, hExceptions⟩
    refine
      ⟨used ++ more, ?_, .clauses hEnvironments hExceptions⟩
    rw [hUsed, hMore, List.append_assoc]
  case complete =>
    rintro tokens rest predicate
      ⟨hEnvironments, hExceptions⟩ hRest
    have hNext := hExceptions.starts.append hRest
    rcases hSlash.complete hEnvironments hNext with
      ⟨reported, hFirst⟩
    rcases hBang.complete hExceptions hRest with ⟨more, hLater⟩
    refine ⟨reported ++ more, ?_⟩
    rw [List.append_assoc, readClauses, hFirst]
    dsimp only
    rw [hLater]
  case faults =>
    intro all tokens e hTexts hTokens hRead
    unfold readClauses at hRead
    split at hRead
    · rename_i hFirst
      cases hRead
      exact hSlash.faults hTexts hTokens hFirst
    rename_i hFirst
    split at hRead
    · rename_i hLater
      cases hRead
      exact
        hBang.faults hTexts
          (hSlash.rest_suffix hTexts hTokens hFirst) hLater
    · cases hRead

theorem readReplacement_exactly :
    ReadsExactly context clauseEnds (DerivesReplacement context)
      (readReplacement context) := by
  have hStops : clauseStops ∈ patternStops := by decide
  have hPattern := @readPattern_exactly context _ hStops
  constructor
  case sound =>
    intro tokens result hTexts hRead
    unfold readReplacement at hRead
    split at hRead
    · cases hRead
    rename_i hFirst
    split at hRead
    · exact absurd hRead ReadContext.failAt_ne_ok
    rename_i hSome
    split at hRead
    · exact absurd hRead ReadContext.failAt_ne_ok
    cases hRead
    rcases hPattern.sound hTexts hFirst with
      ⟨used, hUsed, hUnits⟩
    exact
      ⟨used, hUsed, .replacement hUnits (by simpa using hSome)⟩
  case complete =>
    rintro tokens rest pattern ⟨hUnits, hSome⟩ hRest
    have hEnd : Follows clauseStops rest :=
      hRest.mono (by decide)
    rcases hPattern.complete hUnits hEnd with ⟨reported, hRead⟩
    have hSign : skipToken? .atSign rest = none :=
      hRest.skipToken?_eq_none (by decide)
    refine
      ⟨reported ++ context.unwritable (tokens ++ rest) pattern,
        ?_⟩
    rw [readReplacement, hRead]
    simp [hSome, hSign]
  case faults =>
    intro all tokens e hTexts hTokens hRead
    unfold readReplacement at hRead
    split at hRead
    · rename_i hFirst
      cases hRead
      exact hPattern.faults hTexts hTokens hFirst
    rename_i hFirst
    split at hRead
    · exact
        .pattern (.of_failAt hTokens.subset ⟨rfl, rfl⟩ hRead)
    have hRest := hPattern.rest_suffix hTexts hTokens hFirst
    split at hRead
    · exact
        .pattern (.of_failAt hRest.subset ⟨rfl, rfl⟩ hRead)
    · cases hRead

theorem readReplacements_exactly :
    ReadsExactly context [.slash, .bang, .greater]
      (DerivesSeparated .comma (DerivesReplacement context))
      (readReplacements context) :=
  readReplacement_exactly.separated (by decide)

theorem readPredicate_exactly :
    ReadsExactly context [.greater] (DerivesPredicate context)
      (readPredicate context) where
  sound := by
    intro tokens result hTexts hRead
    unfold readPredicate at hRead
    split at hRead
    · cases hRead
    rename_i hFirst
    split at hRead
    · cases hRead
    rename_i hLater
    cases hRead
    rcases readReplacements_exactly.sound hTexts hFirst with
      ⟨used, hUsed, hReplacements⟩
    have hRest :=
      readReplacements_exactly.rest_suffix hTexts
        List.suffix_rfl hFirst
    rcases (readClauses_exactly _).sound
        (hTexts.of_suffix hRest) hLater with
      ⟨more, hMore, hClauses⟩
    refine
      ⟨used ++ more, ?_, .predicate hReplacements hClauses⟩
    rw [hUsed, hMore, List.append_assoc]
  complete := by
    rintro tokens rest predicate
      ⟨hReplacements, hClauses⟩ hRest
    have hNext := hClauses.starts.append hRest
    rcases readReplacements_exactly.complete hReplacements hNext
      with ⟨reported, hFirst⟩
    rcases (readClauses_exactly _).complete hClauses hRest with
      ⟨more, hLater⟩
    refine ⟨reported ++ more, ?_⟩
    rw [List.append_assoc, readPredicate, hFirst]
    dsimp only
    rw [hLater]
  faults := by
    intro all tokens e hTexts hTokens hRead
    unfold readPredicate at hRead
    split at hRead
    · rename_i hFirst
      cases hRead
      exact
        readReplacements_exactly.faults hTexts hTokens hFirst
    rename_i hFirst
    have hRest :=
      readReplacements_exactly.rest_suffix hTexts hTokens hFirst
    split at hRead
    · rename_i hLater
      cases hRead
      exact (readClauses_exactly _).faults hTexts hRest hLater
    · cases hRead

------------------------------------------------------------
-- Targets
------------------------------------------------------------

theorem readBranch_exactly :
    ReadsExactly context clauseEnds (DerivesTarget context)
      (readBranch context) := by
  have hStops : clauseStops ∈ patternStops := by decide
  have hPattern := @readPattern_exactly context _ hStops
  constructor
  case sound =>
    intro tokens result hTexts hRead
    unfold readBranch at hRead
    split at hRead
    · cases hRead
    rename_i hFirst
    split at hRead
    · exact absurd hRead ReadContext.failAt_ne_ok
    rename_i hSome
    split at hRead
    · cases hRead
    rename_i hSelection
    cases hRead
    rcases hPattern.sound hTexts hFirst with
      ⟨used, hUsed, hUnits⟩
    rcases readIndices?_sound hSelection with
      ⟨selection, hRest, hIndices⟩
    refine
      ⟨used ++ selection, ?_,
        .target hUnits (by simpa using hSome) hIndices⟩
    rw [hUsed, hRest, List.append_assoc]
  case complete =>
    rintro tokens rest branch
      ⟨hUnits, hSome, hSelection⟩ hRest
    have hNext := hSelection.starts.append hRest
    rcases hPattern.complete hUnits (hNext.mono (by decide)) with
      ⟨reported, hRead⟩
    refine ⟨reported, ?_⟩
    rw [List.append_assoc, readBranch, hRead]
    dsimp only
    rw [hSelection.reads hRest (by decide) (by decide)]
    simp [hSome]
  case faults =>
    intro all tokens e hTexts hTokens hRead
    unfold readBranch at hRead
    split at hRead
    · rename_i hFirst
      cases hRead
      exact hPattern.faults hTexts hTokens hFirst
    rename_i hFirst
    split at hRead
    · exact
        .pattern (.of_failAt hTokens.subset ⟨rfl, rfl⟩ hRead)
    have hRest := hPattern.rest_suffix hTexts hTokens hFirst
    split at hRead
    · rename_i hSelection
      cases hRead
      exact readIndices?_faults hRest hSelection
    · cases hRead

theorem readBranches_exactly :
    ReadsExactly context [.slash, .bang, .greater]
      (DerivesSeparated .comma (DerivesTarget context))
      (readBranches context) :=
  readBranch_exactly.separated (by decide)

------------------------------------------------------------
-- Bodies
------------------------------------------------------------

/-
  The kinds of tokens that may follow the targets of a rule.
  Those of an insertion are not written.
-/
def targetsEnds : RuleForm → List TokenKind
  | .insertion => TokenKind.all
  | _ => [.slash, .bang, .greater]

theorem TokenKind.mem_all
    (kind : TokenKind) :
    kind ∈ TokenKind.all := by
  cases kind <;> decide

theorem readTargets_exactly
    (form : RuleForm) :
    ReadsExactly context (targetsEnds form)
      (DerivesTargets context form)
      (readTargets context form) := by
  have hListed : form ≠ .insertion →
      ReadsExactly context (targetsEnds form)
        (DerivesTargets context form)
        (readBranches context) := by
    intro hForm
    have hEnds :
        targetsEnds form = [.slash, .bang, .greater] := by
      cases form with
      | insertion => exact absurd rfl hForm
      | substitution | deletion => rfl
    rw [hEnds]
    constructor
    case sound =>
      intro tokens result hTexts hRead
      rcases readBranches_exactly.sound hTexts hRead with
        ⟨used, hUsed, hBranches⟩
      exact ⟨used, hUsed, .listed hForm hBranches⟩
    case complete =>
      intro tokens rest branches hDerives hRest
      cases hDerives with
      | listed _ hTargets =>
          exact readBranches_exactly.complete hTargets hRest
      | insertion => exact absurd rfl hForm
    case faults => exact readBranches_exactly.faults
  cases form with
  | substitution => exact hListed nofun
  | deletion => exact hListed nofun
  | insertion =>
      constructor
      case sound =>
        intro tokens result _ hRead
        cases hRead
        exact ⟨[], rfl, .insertion⟩
      case complete =>
        intro tokens rest branches hDerives _
        cases hDerives with
        | listed hForm _ => exact absurd rfl hForm
        | insertion => exact ⟨[], rfl⟩
      case faults =>
        intro all tokens e _ _ hRead
        cases hRead

theorem readPredicates_exactly :
    ReadsExactly context []
      (DerivesChanges context .substitution)
      (readPredicates context) := by
  have hList :
      ReadsExactly context []
        (DerivesSeparated .greater (DerivesPredicate context))
        (readSeparated .greater (readPredicate context)) :=
    readPredicate_exactly.separated (by decide)
  constructor
  case sound =>
    intro tokens result hTexts hRead
    unfold readPredicates at hRead
    split at hRead
    · exact absurd hRead ReadContext.failAt_ne_ok
    rename_i hSkip
    rcases skipToken?_eq_some_iff.mp hSkip with
      ⟨arrow, hArrow, rfl⟩
    have hLater := hTexts.of_suffix (List.suffix_cons _ _)
    rcases hList.sound hLater hRead with
      ⟨used, hUsed, hPredicates⟩
    refine ⟨arrow :: used, ?_, .substitution hArrow hPredicates⟩
    rw [hUsed, List.cons_append]
  case complete =>
    intro tokens rest predicates hDerives hRest
    cases hDerives with
    | substitution hArrow hPredicates =>
        rw [List.cons_append, readPredicates,
          skipToken?_cons hArrow]
        exact hList.complete hPredicates hRest
  case faults =>
    intro all tokens e hTexts hTokens hRead
    unfold readPredicates at hRead
    split at hRead
    · exact
        .pattern (.of_failAt hTokens.subset ⟨rfl, rfl⟩ hRead)
    rename_i hSkip
    exact
      hList.faults hTexts (skipToken?_suffix hTokens hSkip)
        hRead

/- A single predicate is read exactly if its reader is exact. -/
theorem ReadsExactly.singleton
    {form : RuleForm}
    {derives : List Token → Predicate → Prop}
    {read : List Token → Except ReadError (Parsed Predicate)}
    (hReader : ReadsExactly context [.greater] derives read)
    (hChanges : ∀ tokens predicates,
      DerivesChanges context form tokens predicates ↔
        ∃ predicate,
          derives tokens predicate ∧ predicates = [predicate])
    (hRead : ∀ tokens,
      readChanges context form tokens =
        match read tokens with
        | .error e => .error e
        | .ok predicate =>
            .ok
              ⟨[predicate.value], predicate.diagnostics,
                predicate.rest⟩) :
    ReadsExactly context [] (DerivesChanges context form)
      (readChanges context form) := by
  constructor
  case sound =>
    intro tokens result hTexts hResult
    rw [hRead] at hResult
    split at hResult
    · cases hResult
    rename_i hPredicate
    cases hResult
    rcases hReader.sound hTexts hPredicate with
      ⟨used, hUsed, hDerives⟩
    exact ⟨used, hUsed, (hChanges _ _).mpr ⟨_, hDerives, rfl⟩⟩
  case complete =>
    intro tokens rest predicates hDerives hRest
    rcases (hChanges _ _).mp hDerives with
      ⟨predicate, hPredicate, rfl⟩
    rcases hReader.complete hPredicate
        (hRest.mono (List.nil_subset _)) with
      ⟨reported, hResult⟩
    exact ⟨reported, by rw [hRead, hResult]⟩
  case faults =>
    intro all tokens e hTexts hTokens hResult
    rw [hRead] at hResult
    split at hResult
    · rename_i hPredicate
      cases hResult
      exact hReader.faults hTexts hTokens hPredicate
    · cases hResult

theorem readChanges_exactly
    (form : RuleForm) :
    ReadsExactly context [] (DerivesChanges context form)
      (readChanges context form) := by
  cases form with
  | substitution => exact readPredicates_exactly
  | insertion =>
      refine readPredicate_exactly.singleton ?_ fun _ => rfl
      intro tokens predicates
      constructor
      · rintro ⟨⟩
        exact ⟨_, ‹_›, rfl⟩
      · rintro ⟨predicate, hPredicate, rfl⟩
        exact .insertion hPredicate
  | deletion =>
      refine (readClauses_exactly [nothing]).singleton ?_
        fun _ => rfl
      intro tokens predicates
      constructor
      · rintro ⟨⟩
        exact ⟨_, ‹_›, rfl⟩
      · rintro ⟨predicate, hClauses, rfl⟩
        exact .deletion hClauses

theorem DerivesChanges.starts
    {form : RuleForm}
    {tokens : List Token}
    {predicates : List Predicate}
    (hChanges : DerivesChanges context form tokens predicates) :
    Follows (targetsEnds form) tokens := by
  cases hChanges with
  | substitution hArrow _ =>
      exact .cons (by rw [hArrow]; decide)
  | insertion => exact fun _ _ => TokenKind.mem_all _
  | deletion hClauses => exact hClauses.starts.mono (by decide)

/- What is read as a body is derived from all the tokens. -/
theorem readBody_sound
    {form : RuleForm}
    {tokens : List Token}
    {result : RuleBody × List Diagnostic}
    (hTexts : TextsNonempty tokens)
    (hRead : readBody context form tokens = .ok result) :
    DerivesBody context form tokens result.1 := by
  unfold readBody at hRead
  split at hRead
  · cases hRead
  rename_i branches hFirst
  split at hRead
  · cases hRead
  rename_i predicates hLater
  split at hRead
  · cases hRead
  rename_i hEnd
  cases hRead
  rcases (readTargets_exactly form).sound hTexts hFirst with
    ⟨used, hUsed, hTargets⟩
  have hRest :=
    (readTargets_exactly form).rest_suffix hTexts
      List.suffix_rfl hFirst
  rcases (readChanges_exactly form).sound
      (hTexts.of_suffix hRest) hLater with
    ⟨more, hMore, hChanges⟩
  rw [hEnd, List.append_nil] at hMore
  rw [hUsed, hMore]
  exact .body hTargets hChanges

/- A body that is derived is read to its end. -/
theorem DerivesBody.reads
    {form : RuleForm}
    {tokens : List Token}
    {body : RuleBody}
    (hDerives : DerivesBody context form tokens body) :
    ∃ reported,
      readBody context form tokens = .ok (body, reported) := by
  rcases hDerives with ⟨hTargets, hChanges⟩
  have hEnd : Follows [] [] := nofun
  rcases (readTargets_exactly form).complete hTargets
      hChanges.starts with
    ⟨reported, hFirst⟩
  rcases (readChanges_exactly form).complete hChanges hEnd with
    ⟨more, hLater⟩
  rw [List.append_nil] at hLater
  refine ⟨reported ++ more, ?_⟩
  rw [readBody, hFirst]
  dsimp only
  rw [hLater]

/- If no body is read then some token is to blame. -/
theorem readBody_faults
    {form : RuleForm}
    {tokens : List Token}
    {e : ReadError}
    (hTexts : TextsNonempty tokens)
    (hRead : readBody context form tokens = .error e) :
    context.BodyFaults tokens e := by
  unfold readBody at hRead
  split at hRead
  · rename_i hFirst
    cases hRead
    exact
      (readTargets_exactly form).faults hTexts List.suffix_rfl
        hFirst
  rename_i hFirst
  have hRest :=
    (readTargets_exactly form).rest_suffix hTexts
      List.suffix_rfl hFirst
  split at hRead
  · rename_i hLater
    cases hRead
    exact
      (readChanges_exactly form).faults hTexts hRest hLater
  rename_i predicates hLater
  have hEnd :=
    (readChanges_exactly form).rest_suffix hTexts hRest hLater
  split at hRead
  · rename_i token more hUnread
    -- what is left over is not expected
    have hMem : token ∈ tokens := by
      rw [hUnread] at hEnd
      exact hEnd.subset List.mem_cons_self
    refine .pattern (.of_unexpected hMem ⟨?_, rfl⟩ hRead)
    rintro named ⟨⟩
    rfl
  · cases hRead

/-
  A body is read if and only if the grammar derives it from
  the tokens. If there is no derivation the tokens are
  malformed, or there is a number among them that cannot be
  read.
-/
theorem readBody_exact
    {form : RuleForm}
    {tokens : List Token}
    (hTexts : TextsNonempty tokens) :
    (∀ body,
        (∃ reported,
          readBody context form tokens =
            .ok (body, reported)) ↔
          DerivesBody context form tokens body) ∧
      ∀ e,
        readBody context form tokens = .error e →
          context.RefusesBody tokens e := by
  refine ⟨fun body => ⟨?_, DerivesBody.reads⟩, ?_⟩
  · rintro ⟨reported, hRead⟩
    exact readBody_sound hTexts hRead
  · intro e hRead
    exact (readBody_faults hTexts hRead).refuses

------------------------------------------------------------
-- A rule with all its clauses
------------------------------------------------------------

/- The tokens of `a@1|-2, b > c / d_ & e@0, _f ! g_h > i`. -/
def clauseTokens : List Token :=
  [ ⟨.text, "a", 0⟩, ⟨.atSign, "@", 1⟩, ⟨.text, "1", 2⟩,
    ⟨.pipe, "|", 3⟩, ⟨.text, "-2", 4⟩, ⟨.comma, ",", 6⟩,
    ⟨.text, "b", 8⟩, ⟨.greater, ">", 10⟩, ⟨.text, "c", 12⟩,
    ⟨.slash, "/", 14⟩, ⟨.text, "d", 16⟩,
    ⟨.underscore, "_", 17⟩, ⟨.ampersand, "&", 19⟩,
    ⟨.text, "e", 21⟩, ⟨.atSign, "@", 22⟩, ⟨.text, "0", 23⟩,
    ⟨.comma, ",", 24⟩, ⟨.underscore, "_", 26⟩,
    ⟨.text, "f", 27⟩, ⟨.bang, "!", 29⟩, ⟨.text, "g", 31⟩,
    ⟨.underscore, "_", 32⟩, ⟨.text, "h", 33⟩,
    ⟨.greater, ">", 35⟩, ⟨.text, "i", 37⟩ ]

def clauseBody : RuleBody where
  branches :=
    [ { target := [.literal "a"], indices := some [0, -2] },
      { target := [.literal "b"] } ]
  predicates :=
    [ { replacements := [[.literal "c"]]
        environments :=
          [ [ .around [.literal "d"] [],
              .anywhere [.literal "e"] (some [0]) ],
            [.around [] [.literal "f"]] ]
        exceptions :=
          [[.around [.literal "g"] [.literal "h"]]] },
      { replacements := [[.literal "i"]]
        environments := []
        exceptions := [] } ]

/- A symbol is a pattern of one literal. -/
theorem symbol_derives
    {context : ReadContext}
    {text : String}
    {column : Int}
    (hSymbols : context.symbols text = [text])
    (hText : text ≠ "") :
    Derives context .units [⟨.text, text, column⟩]
      [.literal text] := by
  have hLiteral :
      Derives context .atom [⟨.text, text, column⟩]
        ((context.symbols text).map Element.literal) :=
    .text rfl hText
  rw [hSymbols] at hLiteral
  exact .of_unit (.plain hLiteral)

theorem clauseTokens_derives :
    DerivesBody plainContext .substitution clauseTokens
      clauseBody := by
  have hSymbols :
      ∀ text ∈ ["a", "b", "c", "d", "e", "f", "g", "h", "i"],
        plainContext.symbols text = [text] ∧ text ≠ "" := by
    decide +kernel
  have hSymbol
      {text : String}
      (column : Int)
      (hMem : text ∈
        ["a", "b", "c", "d", "e", "f", "g", "h", "i"]) :
      Derives plainContext .units [⟨.text, text, column⟩]
        [.literal text] :=
    symbol_derives (hSymbols text hMem).1 (hSymbols text hMem).2
  have hOne : SpellsInteger plainContext.digitLimit ['1'] 1 :=
    @SpellsInteger.plain _ _ 1 (by decide) (by decide)
  have hMinusTwo :
      SpellsInteger plainContext.digitLimit ['-', '2'] (-2) :=
    @SpellsInteger.negative _ _ 2 (by decide) (by decide)
  have hNull : SpellsInteger plainContext.digitLimit ['0'] 0 :=
    @SpellsInteger.plain _ _ 0 (by decide) (by decide)
  have hFirst : DerivesIndex plainContext [⟨.text, "1", 2⟩] 0 :=
    @DerivesIndex.single plainContext _ 1 rfl hOne
  have hSecond :
      DerivesIndex plainContext [⟨.text, "-2", 4⟩] (-2) :=
    @DerivesIndex.single plainContext ⟨.text, "-2", 4⟩ (-2) rfl
      hMinusTwo
  have hZero : DerivesIndex plainContext [⟨.text, "0", 23⟩] 0 :=
    @DerivesIndex.single plainContext _ 0 rfl hNull
  have hSelected :
      DerivesTarget plainContext (clauseTokens.take 5)
        { target := [.literal "a"], indices := some [0, -2] } :=
    .target (hSymbol 0 (by decide)) nofun
      (.given rfl (.more hFirst rfl (.one hSecond)))
  have hPlain :
      DerivesTarget plainContext ([⟨.text, "b", 8⟩] ++ [])
        { target := [.literal "b"] } :=
    .target (hSymbol 8 (by decide)) nofun .missing
  have hTargets :
      DerivesTargets plainContext .substitution
        (clauseTokens.take 7) clauseBody.branches :=
    .listed nofun (.more hSelected rfl (.one hPlain))
  have hLocal :
      DerivesEnvironment plainContext
        [⟨.text, "d", 16⟩, ⟨.underscore, "_", 17⟩]
        (.around [.literal "d"] []) :=
    .around (hSymbol 16 (by decide)) rfl .none
  have hGlobal :
      DerivesEnvironment plainContext
        [⟨.text, "e", 21⟩, ⟨.atSign, "@", 22⟩, ⟨.text, "0", 23⟩]
        (.anywhere [.literal "e"] (some [0])) :=
    .anywhere (hSymbol 21 (by decide)) nofun
      (.given rfl (.one hZero))
  have hRight :
      DerivesEnvironment plainContext
        [⟨.underscore, "_", 26⟩, ⟨.text, "f", 27⟩]
        (.around [] [.literal "f"]) :=
    .around .none rfl (hSymbol 27 (by decide))
  have hBoth :
      DerivesEnvironment plainContext
        [ ⟨.text, "g", 31⟩, ⟨.underscore, "_", 32⟩,
          ⟨.text, "h", 33⟩ ]
        (.around [.literal "g"] [.literal "h"]) :=
    .around (hSymbol 31 (by decide)) rfl
      (hSymbol 33 (by decide))
  have hConditions :
      DerivesClauses plainContext [[.literal "c"]]
        ((clauseTokens.drop 9).take 14) _ :=
    .clauses
      (.given rfl
        (.more (.more hLocal rfl (.one hGlobal)) rfl
          (.one (.one hRight))))
      (.given rfl (.one (.one hBoth)))
  have hFull :
      DerivesPredicate plainContext
        ((clauseTokens.drop 8).take 15) _ :=
    .predicate
      (.one (.replacement (hSymbol 12 (by decide)) nofun))
      hConditions
  have hBare :
      DerivesPredicate plainContext [⟨.text, "i", 37⟩] _ :=
    .predicate
      (.one (.replacement (hSymbol 37 (by decide)) nofun))
      (.clauses .missing .missing)
  have hChanges :
      DerivesChanges plainContext .substitution
        (clauseTokens.drop 7) clauseBody.predicates :=
    .substitution rfl (.more hFull rfl (.one hBare))
  exact .body hTargets hChanges

theorem clauseTokens_read :
    TokenText.read
          "a@1|-2, b > c / d_ & e@0, _f ! g_h > i".toList 1 0 =
        .ok ⟨clauseTokens, 38⟩ ∧
      TextsNonempty clauseTokens ∧
      ∃ reported,
        readBody plainContext .substitution clauseTokens =
          .ok (clauseBody, reported) := by
  have hText :
      TokenText.read
          "a@1|-2, b > c / d_ & e@0, _f ! g_h > i".toList 1 0 =
        .ok ⟨clauseTokens, 38⟩ := by
    decide +kernel
  have hTexts := TokenText.read_textsNonempty hText
  exact
    ⟨hText, hTexts,
      ((readBody_exact hTexts).1 clauseBody).mpr
        clauseTokens_derives⟩

------------------------------------------------------------
-- Indices of too many digits
------------------------------------------------------------

/- The tokens of a substitution whose target has an index. -/
def indexTokens
    (index : List Char) : List Token :=
  [ ⟨.text, "a", 0⟩, ⟨.atSign, "@", 1⟩,
    ⟨.text, String.ofList index, 2⟩,
    ⟨.greater, ">", 2 + index.length⟩,
    ⟨.text, "b", 3 + index.length⟩ ]

def indexBody
    (index : Int) : RuleBody where
  branches :=
    [{ target := [.literal "a"], indices := some [index] }]
  predicates :=
    [ { replacements := [[.literal "b"]]
        environments := []
        exceptions := [] } ]

theorem indexTokens_read
    {index : List Char}
    (hOrdinary : ∀ c ∈ index, isOrdinary 0 c = true)
    (hSome : index ≠ []) :
    TokenText.read ('a' :: '@' :: (index ++ ['>', 'b'])) 1 0 =
      .ok ⟨indexTokens index, 4 + index.length⟩ := by
  rcases List.exists_cons_of_ne_nil hSome with ⟨c, digits, rfl⟩
  have hA : ∀ d ∈ ['a'], isOrdinary 0 d = true := by
    rw [List.forall_mem_singleton]
    decide +kernel
  have hB : ∀ d ∈ ['b'], isOrdinary 0 d = true := by
    rw [List.forall_mem_singleton]
    decide +kernel
  have hSign :
      ∀ d ∈ ('@' :: c :: (digits ++ ['>', 'b'])).head?,
        isOrdinary 0 d = false := by
    rintro d ⟨⟩
    decide +kernel
  have hArrow :
      ∀ d ∈ ['>', 'b'].head?, isOrdinary 0 d = false := by
    rintro d ⟨⟩
    decide +kernel
  have hTarget :
      readTokens 1 0 0
          ('a' :: ([] ++ '@' :: c :: (digits ++ ['>', 'b']))) =
        _ :=
    readTokens_run hA hSign
  have hSelection :
      readTokens 1 1 0 ('@' :: c :: (digits ++ ['>', 'b'])) = _ :=
    readTokens_sign rfl (by decide +kernel)
  have hIndex :
      readTokens 1 2 0 (c :: (digits ++ ['>', 'b'])) = _ :=
    readTokens_run hOrdinary hArrow
  have hChange :
      readTokens 1 (2 + 1 + digits.length) 0 ['>', 'b'] = _ :=
    readTokens_sign rfl (by decide +kernel)
  have hReplacement :
      readTokens 1 (2 + 1 + digits.length + 1) 0
          ('b' :: ([] ++ [])) =
        _ :=
    readTokens_run hB nofun
  have hNext : (0 : Int) + 1 + ([] : List Char).length = 1 := rfl
  have hOutside : braceDepth 0 '@' = 0 ∧ braceDepth 0 '>' = 0 :=
    ⟨rfl, rfl⟩
  have hAfter : (1 : Int) + 1 = 2 := rfl
  rw [List.append_nil] at hReplacement
  rw [List.nil_append, hNext, hSelection, hOutside.1, hAfter,
    hIndex, hChange, hOutside.2, hReplacement,
    readTokens] at hTarget
  have hEnd :
      (2 : Int) + 1 + digits.length =
        2 + (c :: digits).length := by
    rw [List.length_cons]
    omega
  have hLast :
      (2 : Int) + (c :: digits).length + 1 =
        3 + (c :: digits).length := by
    omega
  have hFinish :
      (0 : Int) +
          ('a' :: '@' :: c :: (digits ++ ['>', 'b'])).length =
        4 + (c :: digits).length := by
    simp only [List.length_cons, List.length_append,
      List.length_nil]
    omega
  rw [TokenText.read, List.cons_append, hTarget]
  simp only [Token.before]
  rw [hFinish, hEnd, hLast]
  rfl

theorem indexTokens_derives
    {context : ReadContext}
    {index : List Char}
    {n : Nat}
    (hLimit : context.digitLimit.admits index.length = true)
    (hNumber : number? index = some n)
    (hA : context.symbols "a" = ["a"])
    (hB : context.symbols "b" = ["b"]) :
    DerivesBody context .substitution (indexTokens index)
      (indexBody (keptIndex n)) := by
  have hInteger :
      SpellsInteger context.digitLimit
        (String.ofList index).toList n := by
    rw [String.toList_ofList]
    exact .plain hLimit hNumber
  have hIndex :
      DerivesIndex context [⟨.text, String.ofList index, 2⟩]
        (keptIndex n) :=
    .single rfl hInteger
  have hTarget :
      DerivesTarget context ((indexTokens index).take 3)
        { target := [.literal "a"]
          indices := some [keptIndex n] } :=
    .target (symbol_derives hA (by decide)) nofun
      (.given rfl (.one hIndex))
  have hTargets :
      DerivesTargets context .substitution
        ((indexTokens index).take 3) _ :=
    .listed nofun (.one hTarget)
  have hPredicate :
      DerivesPredicate context
        [⟨.text, "b", 3 + index.length⟩] _ :=
    .predicate
      (.one
        (.replacement (symbol_derives hB (by decide)) nofun))
      (.clauses .missing .missing)
  have hChanges :
      DerivesChanges context .substitution
        ((indexTokens index).drop 3) _ :=
    .substitution rfl (.one hPredicate)
  exact .body hTargets hChanges

/- An index is refused if it has too many digits. -/
theorem indexTokens_refused
    {index : List Char}
    (hNumeral : isNumeral index = true)
    (hLong :
      plainContext.digitLimit.admits index.length = false) :
    readBody plainContext .substitution (indexTokens index) =
      .error (.tooManyDigits (String.ofList index)) := by
  have hSymbols : plainContext.symbols "a" = ["a"] := by
    decide +kernel
  have hLetter :
      Derives plainContext .units [⟨.text, "a", 0⟩]
        [.literal "a"] :=
    symbol_derives hSymbols (by decide)
  have hEnds : Follows clauseStops ((indexTokens index).drop 1) :=
    .cons (by decide)
  rcases (readPattern_exactly (by decide)).complete hLetter
      hEnds with
    ⟨reported, hPattern⟩
  have hDigits :
      indexDigits? (String.ofList index).toList =
        some (false, index) := by
    rw [indexDigits?_eq_some_iff, String.toList_ofList]
    exact ⟨hNumeral, rfl⟩
  have hIndex :
      readIndex plainContext ⟨.text, String.ofList index, 2⟩ =
        .error (.tooManyDigits (String.ofList index)) := by
    simp only [readIndex, hDigits, readNumber, hLong,
      Bool.not_false, if_true]
  have hSelection :
      readIndices? plainContext ((indexTokens index).drop 1) =
        .error (.tooManyDigits (String.ofList index)) := by
    simp only [readIndices?, indexTokens, List.drop_one,
      List.tail_cons, skipToken?, if_true, readIndices, hIndex]
  have hBranch :
      readBranch plainContext (indexTokens index) =
        .error (.tooManyDigits (String.ofList index)) := by
    have hWhole :
        readPattern plainContext clauseStops (indexTokens index) =
          _ :=
      hPattern
    simp only [readBranch, hWhole, hSelection, List.isEmpty_cons,
      Bool.false_eq_true, if_false]
  rw [readBody, readTargets, readBranches, readSeparated, hBranch]

/-
  An index is refused if it has too many digits, although
  the grammar allows for it.
-/
theorem paddedIndex_refused :
    TokenText.read ('a' :: '@' :: (paddedOne 4299 ++ ['>', 'b']))
          1 0 =
        .ok ⟨indexTokens (paddedOne 4299), 4305⟩ ∧
      TextsNonempty (indexTokens (paddedOne 4299)) ∧
      DerivesBody { plainContext with digitLimit := none }
        .substitution (indexTokens (paddedOne 4299))
        (indexBody 0) ∧
      readBody plainContext .substitution
          (indexTokens (paddedOne 4299)) =
        .error
          (.tooManyDigits (String.ofList (paddedOne 4299))) := by
  have hLength : (paddedOne 4299).length = 4301 :=
    length_paddedOne 4299
  have hText :
      TokenText.read
          ('a' :: '@' :: (paddedOne 4299 ++ ['>', 'b'])) 1 0 =
        .ok
          ⟨indexTokens (paddedOne 4299),
            4 + (paddedOne 4299).length⟩ :=
    indexTokens_read
      (fun _ hMem => isOrdinary_outside (isOrdinary_paddedOne hMem))
      nofun
  rw [hLength] at hText
  refine
    ⟨hText, TokenText.read_textsNonempty hText,
      indexTokens_derives rfl (number?_paddedOne 4299)
        (by decide +kernel) (by decide +kernel), ?_⟩
  apply indexTokens_refused (isNumeral_paddedOne 4299)
  rw [hLength]
  rfl

end Diachrony
