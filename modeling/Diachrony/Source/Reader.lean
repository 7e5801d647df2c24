import Diachrony.Category.Table
import Diachrony.Diagnostic
import Diachrony.Source.Number
import Diachrony.Source.Token

/-
  Reading from a list of tokens.

  A reader works in a context and takes tokens from the
  front of a list. It returns what it has read together with
  the diagnostics and the tokens that follow. An error is
  placed at a token, or at the end of the text if no token
  is left.

  Key definitions include:
    * `ReadContext`
    * `Parsed`
    * `skipToken?`
    * `expectToken`
    * `readLazy`
    * `isDigits`
-/

namespace Diachrony

open Unicode

------------------------------------------------------------
-- Contexts
------------------------------------------------------------

/-
  What a reader knows: the categories and graphs in force,
  the line, the column at which the text ends, the rule that
  diagnostics name, and how many digits a number may have.
-/
structure ReadContext where
  table : Table
  graphs : List String
  line : Int
  finish : Int
  rule : Option String
  digitLimit : DigitLimit := .standard
  deriving Repr

namespace ReadContext

/- An error at a token. -/
def failOn
    {α : Type}
    (context : ReadContext)
    (token : Token)
    (cause : Cause) : Except ReadError α :=
  .error (.at cause context.line token.column)

/- An error at the first token of a list, or at the end. -/
def failAt
    {α : Type}
    (context : ReadContext)
    (tokens : List Token)
    (cause : Cause) : Except ReadError α :=
  match tokens with
  | token :: _ => context.failOn token cause
  | [] =>
      .error (.malformed
        { cause := cause
          atEnd := true
          line := context.line
          column := context.finish })

/- A diagnostic at a token. -/
def diagnostic
    (context : ReadContext)
    (token : Token)
    (problem : Problem) : Diagnostic where
  problem := problem
  line := some context.line
  column := some token.column
  rule := context.rule

/- The symbols of a run of ordinary text. -/
def symbols
    (context : ReadContext)
    (text : String) : List Symbol :=
  segment context.graphs none text

end ReadContext

/- What a reader has read and what it has left over. -/
structure Parsed (α : Type) where
  value : α
  diagnostics : List Diagnostic := []
  rest : List Token
  deriving Repr

------------------------------------------------------------
-- Single tokens
------------------------------------------------------------

/- Pass over a token of a given kind, if it comes next. -/
def skipToken?
    (kind : TokenKind) : List Token → Option (List Token)
  | [] => none
  | token :: rest => if token.kind = kind then some rest else none

/- Pass over a token of a given kind, which has to come next. -/
def expectToken
    (context : ReadContext)
    (kind : TokenKind)
    (cause : Cause)
    (tokens : List Token) : Except ReadError (List Token) :=
  match skipToken? kind tokens with
  | some rest => .ok rest
  | none => context.failAt tokens cause

/- Whether a mark of laziness follows, and what is after it. -/
def readLazy
    (tokens : List Token) : Bool × List Token :=
  match skipToken? .question tokens with
  | some rest => (true, rest)
  | none => (false, tokens)

/- Whether a text consists of digits of any sort. -/
def isDigits
    (text : String) : Bool :=
  !text.isEmpty && text.toList.all isDigit

/- The number that a token of digits spells. -/
def ReadContext.number
    (context : ReadContext)
    (token : Token) : Except ReadError Nat :=
  readNumber context.digitLimit token.text.toList

------------------------------------------------------------
-- What readers leave over
------------------------------------------------------------

/- Passing over a token leaves fewer tokens. -/
theorem skipToken?_length
    {kind : TokenKind}
    {tokens rest : List Token}
    (h : skipToken? kind tokens = some rest) :
    rest.length < tokens.length := by
  cases tokens with
  | nil => simp [skipToken?] at h
  | cons token more =>
      simp only [skipToken?] at h
      split at h
      · simp_all
      · simp at h

/- An expected token leaves fewer tokens. -/
theorem expectToken_length
    {context : ReadContext}
    {kind : TokenKind}
    {cause : Cause}
    {tokens rest : List Token}
    (h : expectToken context kind cause tokens = .ok rest) :
    rest.length < tokens.length := by
  unfold expectToken at h
  split at h
  · next hSkip =>
      have hRest := Except.ok.inj h
      subst hRest
      exact skipToken?_length hSkip
  · unfold ReadContext.failAt ReadContext.failOn at h
    split at h <;> simp at h

/- Reading a mark of laziness leaves no more tokens. -/
theorem readLazy_length
    (tokens : List Token) :
    (readLazy tokens).2.length ≤ tokens.length := by
  unfold readLazy
  split
  · next hSkip => exact Nat.le_of_lt (skipToken?_length hSkip)
  · exact Nat.le_refl _

end Diachrony
