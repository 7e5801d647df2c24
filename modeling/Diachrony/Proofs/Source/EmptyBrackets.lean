import Diachrony.Proofs.Source.Signs
import Diachrony.Proofs.Source.Spellings

/-
  Bodies with empty brackets.

  A plus sign stands for a target that matches nothing, and
  a minus sign for a replacement that writes nothing. The
  tokens of the long form stand for the same body as those
  of the short one.

  Key definitions include:
    * `nothingBares`

  Key theorems include:
    * `DerivesBody.arrow_iff`
    * `StandsFor.of_insertion`
    * `standsFor_nothing_iff`
-/

namespace Diachrony

open Unicode

variable {context : ReadContext}
variable {body : RuleBody}

------------------------------------------------------------
-- Derivations
------------------------------------------------------------

section Derivations

variable {first later front back tokens : List Token}
variable {arrow opening closing : Token}

/- Brackets with nothing in between are a target by themselves. -/
theorem nothing_derives
    (hOpening : opening.kind = .leftBracket)
    (hClosing : closing.kind = .rightBracket) :
    Derives context .units [opening, closing] nothing := by
  have hUnit :
      Derives context .unit [opening, closing] nothing :=
    .plain (.nothing hOpening hClosing)
  exact .more hUnit .none

/- An insertion has such a target. -/
theorem DerivesBody.of_insertion
    (hOpening : opening.kind = .leftBracket)
    (hClosing : closing.kind = .rightBracket)
    (hArrow : arrow.kind = .greater)
    (hBody : DerivesBody context .insertion tokens body) :
    DerivesBody context .substitution
      (opening :: closing :: arrow :: tokens) body := by
  have hPattern := @nothing_derives context _ _ hOpening hClosing
  have hTarget :
      DerivesTarget context [opening, closing]
        { target := nothing } :=
    .target hPattern (List.cons_ne_nil _ _) .missing
  cases hBody with
  | body hTargets hChanges =>
      cases hTargets with
      | listed hForm _ => exact absurd rfl hForm
      | insertion =>
          cases hChanges with
          | insertion hPredicate =>
              have hTargets :
                  DerivesTargets context .substitution
                    [opening, closing] [{ target := nothing }] :=
                .listed nofun (.one hTarget)
              exact
                .body hTargets
                  (.substitution hArrow (.one hPredicate))

/-
  Two ways to divide the same tokens before a sign, if the
  first parts contain none outside brackets.
-/
theorem split_before_sign
    (hFirst : Enclosed first)
    (hLater : Follows clauseSigns later)
    (hFront : ∀ before sign after,
      front = before ++ sign :: after →
        sign.kind ∈ clauseSigns → nesting before ≠ 0)
    (hBack : Follows clauseSigns back)
    (hSplit : first ++ later = front ++ back) :
    first = front ∧ later = back := by
  rcases List.append_eq_append_iff.mp hSplit with
    ⟨rest, hRest, hEnd⟩ | ⟨rest, hRest, hEnd⟩
  · cases rest with
    | nil => exact ⟨by simpa using hRest.symm, hEnd⟩
    | cons sign rest =>
        rw [hEnd] at hLater
        exact
          absurd hFirst.nesting_eq
            (hFront first sign rest hRest (hLater sign rfl))
  · cases rest with
    | nil => exact ⟨by simpa using hRest, hEnd.symm⟩
    | cons sign rest =>
        rw [hEnd] at hBack
        have hMem : sign ∈ first := by
          rw [hRest]
          exact List.mem_append_cons_self
        exact absurd (hBack sign rfl) (hFirst.unsigned sign hMem)

/-
  A body is divided at an arrow if no sign stands outside
  brackets in front of it.
-/
theorem DerivesBody.arrow_iff
    (hArrow : arrow.kind = .greater)
    (hFront : ∀ before sign after,
      front = before ++ sign :: after →
        sign.kind ∈ clauseSigns → nesting before ≠ 0) :
    DerivesBody context .substitution (front ++ arrow :: back)
        body ↔
      DerivesTargets context .substitution front
          body.branches ∧
        DerivesSeparated .greater (DerivesPredicate context)
          back body.predicates := by
  constructor
  · intro hBody
    generalize hTokens : front ++ arrow :: back = tokens at hBody
    cases hBody with
    | @body first later branches predicates hTargets hChanges =>
        cases hTargets with
        | listed hForm hTargets =>
            have hEnclosed : Enclosed first :=
              hTargets.enclosed rfl (by decide)
                DerivesTarget.enclosed
            cases hChanges with
            | substitution hSign hPredicates =>
                rcases split_before_sign hEnclosed
                    (.cons (by rw [hSign]; decide)) hFront
                    (.cons (by rw [hArrow]; decide))
                    hTokens.symm with
                  ⟨rfl, hLater⟩
                cases hLater
                exact ⟨.listed hForm hTargets, hPredicates⟩
  · rintro ⟨hTargets, hPredicates⟩
    exact .body hTargets (.substitution hArrow hPredicates)

/- A deletion has a replacement that writes nothing. -/
theorem DerivesBody.of_deletion
    (hArrow : arrow.kind = .greater)
    (hOpening : opening.kind = .leftBracket)
    (hClosing : closing.kind = .rightBracket)
    (hFront : ∀ before sign after,
      front = before ++ sign :: after →
        sign.kind ∈ clauseSigns → nesting before ≠ 0)
    (hBack : Follows [.slash, .bang] back)
    (hBody :
      DerivesBody context .deletion (front ++ back) body) :
    DerivesBody context .substitution
      (front ++ arrow :: opening :: closing :: back) body := by
  have hPattern := @nothing_derives context _ _ hOpening hClosing
  generalize hTokens : front ++ back = tokens at hBody
  cases hBody with
  | @body first later branches predicates hTargets hChanges =>
      cases hTargets with
      | listed hForm hTargets =>
          cases hChanges with
          | deletion hClauses =>
              have hEnclosed : Enclosed first :=
                hTargets.enclosed rfl (by decide)
                  DerivesTarget.enclosed
              rcases split_before_sign hEnclosed
                  (hClauses.starts.mono (by decide)) hFront
                  (hBack.mono (by decide)) hTokens.symm with
                ⟨rfl, rfl⟩
              refine
                .body (.listed nofun hTargets)
                  (.substitution hArrow (.one ?_))
              exact
                .predicate
                  (.one
                    (.replacement hPattern
                      (List.cons_ne_nil _ _)))
                  hClauses

/- Such a replacement stands for nothing else. -/
theorem replacements_eq_nothing
    {replacements : List Pattern}
    (hOpening : opening.kind = .leftBracket)
    (hClosing : closing.kind = .rightBracket)
    (hReplacements :
      DerivesSeparated .comma (DerivesReplacement context)
        [opening, closing] replacements) :
    replacements = [nothing] := by
  have hPattern := @nothing_derives context _ _ hOpening hClosing
  have hNothing :
      DerivesSeparated .comma (DerivesReplacement context)
        [opening, closing] [nothing] :=
    .one (.replacement hPattern (List.cons_ne_nil _ _))
  have hEnd : ∀ {kinds}, Follows kinds [] := nofun
  rcases readReplacements_exactly.complete hReplacements hEnd
    with ⟨reported, hRead⟩
  rcases readReplacements_exactly.complete hNothing hEnd with
    ⟨others, hAgain⟩
  rw [hRead] at hAgain
  cases hAgain
  rfl

/- What one predicate that writes nothing consists of. -/
theorem clauses_of_nothing
    {predicate : Predicate}
    (hOpening : opening.kind = .leftBracket)
    (hClosing : closing.kind = .rightBracket)
    (hBack : Follows [.slash, .bang] back)
    (hPredicate :
      DerivesPredicate context (opening :: closing :: back)
        predicate) :
    DerivesClauses context [nothing] back predicate := by
  have hBrackets : ∀ before sign after,
      [opening, closing] = before ++ sign :: after →
        sign.kind ∈ clauseSigns → nesting before ≠ 0 := by
    intro before sign after hSplit hSign
    have hMem : sign ∈ [opening, closing] := by
      rw [hSplit]
      exact List.mem_append_cons_self
    simp only [List.mem_cons, List.not_mem_nil,
      or_false] at hMem
    rcases hMem with rfl | rfl
    · rw [hOpening] at hSign
      exact absurd hSign (by decide)
    · rw [hClosing] at hSign
      exact absurd hSign (by decide)
  generalize hTokens : opening :: closing :: back = tokens
    at hPredicate
  cases hPredicate with
  | @predicate first later _ _ hReplacements hClauses =>
      have hEnclosed : Enclosed first :=
        hReplacements.enclosed rfl (by decide)
          DerivesReplacement.enclosed
      rcases split_before_sign hEnclosed
          (hClauses.starts.mono (by decide)) hBrackets
          (hBack.mono (by decide)) hTokens.symm with
        ⟨rfl, rfl⟩
      rwa [replacements_eq_nothing hOpening hClosing
        hReplacements] at hClauses

theorem predicates_of_nothing
    {predicates : List Predicate}
    (hOpening : opening.kind = .leftBracket)
    (hClosing : closing.kind = .rightBracket)
    (hBack : Follows [.slash, .bang] back)
    (hLast : ∀ before sign after,
      back = before ++ sign :: after →
        sign.kind = .greater → nesting before ≠ 0)
    (hPredicates :
      DerivesSeparated .greater (DerivesPredicate context)
        (opening :: closing :: back) predicates) :
    ∃ predicate,
      predicates = [predicate] ∧
        DerivesClauses context [nothing] back predicate := by
  generalize hTokens : opening :: closing :: back = tokens
    at hPredicates
  cases hPredicates with
  | one hPredicate =>
      rw [← hTokens] at hPredicate
      exact
        ⟨_, rfl,
          clauses_of_nothing hOpening hClosing hBack hPredicate⟩
  | @more first later arrow _ _ hPredicate hArrow _ =>
      -- another arrow would stand outside brackets
      have hNesting := hPredicate.nesting_eq
      match first with
      | [] =>
          cases hTokens
          rw [hOpening] at hArrow
          cases hArrow
      | [_] =>
          cases hTokens
          rw [hClosing] at hArrow
          cases hArrow
      | _ :: _ :: inner =>
          cases hTokens
          rw [nesting_cons, nesting_cons, hOpening,
            hClosing] at hNesting
          have hInner : nesting inner = 0 := by
            simp only [TokenKind.nesting] at hNesting
            omega
          exact absurd hInner (hLast inner arrow later rfl hArrow)

/- A substitution by nothing, without another predicate. -/
theorem DerivesBody.to_deletion
    (hArrow : arrow.kind = .greater)
    (hOpening : opening.kind = .leftBracket)
    (hClosing : closing.kind = .rightBracket)
    (hFront : ∀ before sign after,
      front = before ++ sign :: after →
        sign.kind ∈ clauseSigns → nesting before ≠ 0)
    (hBack : Follows [.slash, .bang] back)
    (hLast : ∀ before sign after,
      back = before ++ sign :: after →
        sign.kind = .greater → nesting before ≠ 0)
    (hBody :
      DerivesBody context .substitution
        (front ++ arrow :: opening :: closing :: back) body) :
    DerivesBody context .deletion (front ++ back) body := by
  rcases body with ⟨branches, predicates⟩
  rcases (DerivesBody.arrow_iff hArrow hFront).mp hBody with
    ⟨hTargets, hPredicates⟩
  rcases predicates_of_nothing hOpening hClosing hBack hLast
      hPredicates with
    ⟨predicate, hOne, hClauses⟩
  cases hOne
  cases hTargets with
  | listed _ hListed =>
      exact .body (.listed nofun hListed) (.deletion hClauses)

end Derivations

------------------------------------------------------------
-- Tokens
------------------------------------------------------------

section Tokens

variable {depth inner : Nat}
variable {targets middle : List Char}
variable {bares first later : List (TokenKind × String)}

theorem StandsFor.of_insertion
    {bares : List (TokenKind × String)}
    (hStands : StandsFor context .insertion bares body) :
    StandsFor context .substitution
      ((.leftBracket, String.ofList ['[']) ::
        (.rightBracket, String.ofList [']']) ::
        (.greater, String.ofList ['>']) :: bares)
      body := by
  intro line finish rule tokens hTokens
  rcases List.map_eq_cons_iff.mp hTokens with
    ⟨opening, ends, rfl, hOpening, hEnds⟩
  rcases List.map_eq_cons_iff.mp hEnds with
    ⟨closing, signs, rfl, hClosing, hSigns⟩
  rcases List.map_eq_cons_iff.mp hSigns with
    ⟨arrow, later, rfl, hArrow, hLater⟩
  exact
    DerivesBody.of_insertion (congrArg Prod.fst hOpening)
      (congrArg Prod.fst hClosing) (congrArg Prod.fst hArrow)
      (hStands line finish rule later hLater)

/- What is written for targets that are deleted. -/
def nothingBares : List (TokenKind × String) :=
  [(.greater, String.ofList ['>']),
    (.leftBracket, String.ofList ['[']),
    (.rightBracket, String.ofList [']'])]

/- The bodies of a deletion and a substitution by nothing. -/
theorem standsFor_nothing_iff
    (hFirst : ReadsAs depth targets first)
    (hSigns : ∀ c ∈ signCharacters, ¬StandsOutside c targets)
    {inner : Nat}
    (hLater : ReadsAs inner middle later)
    (hHead : ∀ c ∈ middle.head?, c = '/' ∨ c = '!')
    (hArrow : ¬StandsOutside '>' middle) :
    StandsFor context .deletion (first ++ later) body ↔
      StandsFor context .substitution
        (first ++ (nothingBares ++ later)) body := by
  constructor
  · intro hStands line finish rule tokens hTokens
    rcases List.map_eq_append_iff.mp hTokens with
      ⟨front, others, rfl, hFront, hOthers⟩
    rcases List.map_eq_append_iff.mp hOthers with
      ⟨nothings, back, rfl, hNothings, hBack⟩
    rcases List.map_eq_cons_iff.mp hNothings with
      ⟨arrow, brackets, rfl, hGreater, hBrackets⟩
    rcases List.map_eq_cons_iff.mp hBrackets with
      ⟨opening, ends, rfl, hOpening, hEnds⟩
    rcases List.map_eq_singleton_iff.mp hEnds with
      ⟨closing, rfl, hClosing⟩
    exact
      DerivesBody.of_deletion (congrArg Prod.fst hGreater)
        (congrArg Prod.fst hOpening)
        (congrArg Prod.fst hClosing)
        (unsigned_tokens hFirst hSigns hFront)
        (follows_tokens hLater hHead hBack)
        (hStands line finish rule (front ++ back)
          (by rw [List.map_append, hFront, hBack]))
  · intro hStands line finish rule tokens hTokens
    rcases List.map_eq_append_iff.mp hTokens with
      ⟨front, back, rfl, hFront, hBack⟩
    let arrow := Token.ofChar .greater '>' 0
    let opening := Token.ofChar .leftBracket '[' 0
    let closing := Token.ofChar .rightBracket ']' 0
    have hLong :
        (front ++ arrow :: opening :: closing :: back).map
            Token.bare =
          first ++ (nothingBares ++ later) := by
      rw [List.map_append, hFront, ← hBack]
      rfl
    exact
      DerivesBody.to_deletion rfl rfl rfl
        (unsigned_tokens hFirst hSigns hFront)
        (follows_tokens hLater hHead hBack)
        (arrowless_tokens hLater hArrow hBack)
        (hStands line finish rule _ hLong)

end Tokens

end Diachrony
