import Diachrony.Proofs.Source.Nesting

/-
  Signs of rules in texts.

  A sign that is read outside brackets stands there in the
  text as well. So a text in which no sign stands outside
  brackets has none among its tokens.

  Key definitions include:
    * `StandsOutside`
    * `signCharacters`

  Key theorems include:
    * `ReadsAs.no_sign`
    * `unsigned_tokens`
    * `follows_tokens`
-/

namespace Diachrony

open Unicode

------------------------------------------------------------
-- Texts
------------------------------------------------------------

/- A character of a text outside brackets and escapes. -/
def StandsOutside
    (c : Char)
    (text : List Char) : Prop :=
  ∃ front back,
    text = front ++ c :: back ∧ depthAfter 0 front = some 0

section Texts

variable {text : List Char}
variable {c : Char}

theorem StandsOutside.append
    {c : Char}
    {front : List Char}
    (hStands : StandsOutside c front)
    (back : List Char) :
    StandsOutside c (front ++ back) := by
  rcases hStands with ⟨before, behind, rfl, hBefore⟩
  exact
    ⟨before, behind ++ back, by rw [List.append_assoc]; rfl,
      hBefore⟩

theorem StandsOutside.mem
    {c : Char}
    (hStands : StandsOutside c text) :
    c ∈ text := by
  rcases hStands with ⟨front, back, rfl, -⟩
  exact List.mem_append_cons_self

end Texts

/- The characters that are read as signs before clauses. -/
def signCharacters : List Char :=
  ['>', '/', '!']

theorem mem_signCharacters
    {c : Char}
    {kind : TokenKind}
    (hKind : TokenKind.ofChar? c = some kind)
    (hSign : kind ∈ clauseSigns) :
    c ∈ signCharacters := by
  unfold TokenKind.ofChar? at hKind
  split at hKind
  all_goals cases hKind
  all_goals
    revert hSign
    decide

theorem eq_arrow
    {c : Char}
    (hKind : TokenKind.ofChar? c = some .greater) :
    c = '>' := by
  unfold TokenKind.ofChar? at hKind
  split at hKind
  all_goals first | rfl | cases hKind

------------------------------------------------------------
-- Tokens
------------------------------------------------------------

theorem nesting_of_bares
    {tokens others : List Token}
    (hSame : others.map Token.bare = tokens.map Token.bare) :
    nesting others = nesting tokens := by
  have hBares : ∀ tokens : List Token,
      nesting tokens =
        (tokens.map Token.bare).foldr
          (fun bare depth => bare.1.nesting + depth) 0 := by
    intro tokens
    rw [List.foldr_map]
    rfl
  rw [hBares, hBares, hSame]

theorem HasSigns.of_bares
    {level : Int}
    {text : List Char}
    {tokens others : List Token}
    (hSigns : HasSigns level text tokens)
    (hSame : tokens.map Token.bare = others.map Token.bare) :
    HasSigns level text others := by
  intro before sign after hOthers hKind
  rw [hOthers, List.map_append, List.map_cons] at hSame
  rcases List.map_eq_append_iff.mp hSame with
    ⟨first, rest, rfl, hFirst, hRest⟩
  rcases List.map_eq_cons_iff.mp hRest with
    ⟨same, later, rfl, hHere, -⟩
  have hEqual : same.kind = sign.kind :=
    congrArg Prod.fst hHere
  rw [← hEqual] at hKind ⊢
  rw [← nesting_of_bares hFirst]
  exact hSigns first same later rfl hKind

/- So no sign is read outside brackets if none stands there. -/
theorem ReadsAs.no_sign
    {depth : Nat}
    {text : List Char}
    {bares : List (TokenKind × String)}
    {tokens before after : List Token}
    {sign : Token}
    (hReads : ReadsAs depth text bares)
    (hTokens : tokens.map Token.bare = bares)
    (hSplit : tokens = before ++ sign :: after)
    (hSign : sign.kind ∈ clauseSigns)
    (hNesting : nesting before = 0) :
    ∃ c,
      TokenKind.ofChar? c = some sign.kind ∧
        StandsOutside c text := by
  rcases hReads 0 0 with ⟨others, hRead, rfl⟩
  rcases
    (readTokens_hasSigns hRead).of_bares hTokens.symm before sign
      after hSplit hSign with
    ⟨front, c, back, hText, hKind, hFront⟩
  refine ⟨c, hKind, front, back, hText, ?_⟩
  rw [hFront, hNesting]
  rfl

section Readings

variable {depth : Nat}
variable {text : List Char}
variable {bares : List (TokenKind × String)}
variable {tokens : List Token}

/- Tokens of a text without signs have none outside brackets. -/
theorem unsigned_tokens
    {tokens : List Token}
    (hReads : ReadsAs depth targets first)
    (hSigns : ∀ c ∈ signCharacters, ¬StandsOutside c targets)
    (hTokens : tokens.map Token.bare = first) :
    ∀ before sign after,
      tokens = before ++ sign :: after →
        sign.kind ∈ clauseSigns → nesting before ≠ 0 := by
  intro before sign after hSplit hSign hNesting
  rcases hReads.no_sign hTokens hSplit hSign hNesting with
    ⟨c, hKind, hStands⟩
  exact hSigns c (mem_signCharacters hKind hSign) hStands

/- Those of a text without arrows have no arrow there. -/
theorem arrowless_tokens
    {tokens : List Token}
    (hReads : ReadsAs depth middle later)
    (hArrow : ¬StandsOutside '>' middle)
    (hTokens : tokens.map Token.bare = later) :
    ∀ before sign after,
      tokens = before ++ sign :: after →
        sign.kind = .greater → nesting before ≠ 0 := by
  intro before sign after hSplit hSign hNesting
  rcases hReads.no_sign hTokens hSplit
      (by rw [hSign]; decide) hNesting with
    ⟨c, hKind, hStands⟩
  rw [hSign] at hKind
  rw [eq_arrow hKind] at hStands
  exact hArrow hStands

/- A text that starts with a clause is read as one. -/
theorem follows_tokens
    {tokens : List Token}
    (hReads : ReadsAs depth middle later)
    (hHead : ∀ c ∈ middle.head?, c = '/' ∨ c = '!')
    (hTokens : tokens.map Token.bare = later) :
    Follows [.slash, .bang] tokens := by
  cases middle with
  | nil =>
      rw [hReads.unique .nil] at hTokens
      rw [List.map_eq_nil_iff.mp hTokens]
      exact nofun
  | cons c middle =>
      have hKind :
          ∃ kind ∈ [TokenKind.slash, .bang],
            TokenKind.ofChar? c = some kind ∧
              isBlank c = false := by
        rcases hHead c rfl with rfl | rfl
        · exact ⟨.slash, by decide, rfl, by decide⟩
        · exact ⟨.bang, by decide, rfl, by decide⟩
      rcases hKind with ⟨kind, hMem, hKind, hBlank⟩
      rcases hReads.exists_behind hKind hBlank with
        ⟨others, rfl, -⟩
      rcases List.map_eq_cons_iff.mp hTokens with
        ⟨token, more, rfl, hBare, -⟩
      have hSame : token.kind = kind := congrArg Prod.fst hBare
      exact .cons (by rwa [hSame])

end Readings

end Diachrony
