import Diachrony.Proofs.Source.AsRead
import Diachrony.Proofs.Source.Grammar

/-
  Why tokens are refused.

  An error is placed at one of the tokens or behind the last
  one. If it names a token as unexpected, then that is the
  one it is placed at. Where a number is to stand, digits
  without a decimal value and too many digits are refused in
  a way of their own.

  Key definitions include:
    * `Cause.namedToken?`
    * `Cause.namedBracket?`
    * `NumbersDecimal`
    * `ReadContext.Faults`
    * `ReadContext.Refuses`

  Key theorems include:
    * `readNumber_error`
    * `ReadContext.number_eq_ok_iff`
    * `ReadContext.Faults.of_number`
    * `ReadContext.Faults.refuses`
-/

namespace Diachrony

open Unicode

variable {context : ReadContext}

------------------------------------------------------------
-- Numbers
------------------------------------------------------------

theorem numberFrom?_isSome
    (value : Nat)
    (text : List Char) :
    (numberFrom? value text).isSome = text.all isDecimal := by
  induction text generalizing value with
  | nil => rfl
  | cons c rest ih =>
      rw [numberFrom?, List.all_cons, isDecimal]
      cases decimalValue? c with
      | none => rfl
      | some digit => simpa using ih _

/- A text spells a number if it is a run of decimal digits. -/
theorem number?_isSome
    {text : List Char} :
    (number? text).isSome = isNumeral text := by
  unfold number? isNumeral
  cases text with
  | nil => rfl
  | cons c rest =>
      simpa using numberFrom?_isSome 0 (c :: rest)

theorem readNumber_eq_ok_iff
    {limit : DigitLimit}
    {text : List Char}
    {n : Nat} :
    readNumber limit text = .ok n ↔
      limit.admits text.length = true ∧
        number? text = some n := by
  unfold readNumber
  cases limit.admits text.length with
  | false => simp
  | true =>
      cases number? text with
      | none => simp
      | some other => simp

/- A number is refused for its length or for its digits. -/
theorem readNumber_error
    {limit : DigitLimit}
    {text : List Char}
    {e : ReadError}
    (hRead : readNumber limit text = .error e) :
    (limit.admits text.length = false ∧
        e = .tooManyDigits (String.ofList text)) ∨
      isNumeral text = false ∧
        e = .notDecimal (String.ofList text) := by
  unfold readNumber at hRead
  split at hRead
  · rename_i hLong
    cases hRead
    exact Or.inl ⟨(Bool.not_eq_true' _).mp hLong, rfl⟩
  split at hRead
  · cases hRead
  · rename_i hNumber
    cases hRead
    refine Or.inr ⟨?_, rfl⟩
    rw [← number?_isSome, hNumber]
    rfl

/- A decimal number can only be refused for its length. -/
theorem readNumber_error_of_isNumeral
    {limit : DigitLimit}
    {text : List Char}
    {e : ReadError}
    (hNumeral : isNumeral text = true)
    (hRead : readNumber limit text = .error e) :
    limit.admits text.length = false ∧
      e = .tooManyDigits (String.ofList text) := by
  rcases readNumber_error hRead with hLong | ⟨hOther, _⟩
  · exact hLong
  · rw [hNumeral] at hOther
    cases hOther

theorem isDigits_of_isNumeral
    {text : String}
    (hNumeral : isNumeral text.toList = true) :
    isDigits text = true := by
  simp only [isNumeral, Bool.and_eq_true, Bool.not_eq_true',
    List.isEmpty_eq_false_iff, List.all_eq_true] at hNumeral
  simp only [isDigits, Bool.and_eq_true, Bool.not_eq_true',
    List.all_eq_true]
  constructor
  · rw [String.isEmpty_eq_false_iff]
    intro hNone
    rw [hNone] at hNumeral
    exact hNumeral.1 rfl
  · intro c hMem
    rw [isDigit, hNumeral.2 c hMem, Bool.true_or]

theorem ReadContext.number_eq_ok_iff
    {token : Token}
    {n : Nat}
    (hKind : token.kind = .text) :
    context.number token = .ok n ↔ context.Spells token n := by
  rw [number, readNumber_eq_ok_iff]
  exact
    ⟨fun h => ⟨hKind, h.1, h.2⟩,
      fun h => ⟨h.admitted, h.number_eq⟩⟩

theorem ReadContext.Spells.isDigits
    {token : Token}
    {n : Nat}
    (hSpells : context.Spells token n) :
    isDigits token.text = true := by
  apply isDigits_of_isNumeral
  rw [← number?_isSome, hSpells.number_eq]
  rfl

------------------------------------------------------------
-- Causes
------------------------------------------------------------

/- The text of the token that a cause calls unexpected. -/
def Cause.namedToken? : Cause → Option String
  | .unexpected text => some text
  | .unexpectedInCategory text => some text
  | _ => none

/- The bracket that a cause calls unbalanced or unclosed. -/
def Cause.namedBracket? : Cause → Option Char
  | .unbalanced bracket => some bracket
  | .unclosed bracket => some bracket
  | _ => none

/- A cause that names no token but one of a given text. -/
structure Cause.NamesAtMost
    (cause : Cause)
    (text : String) : Prop where
  token : ∀ named ∈ cause.namedToken?, named = text
  bracket : cause.namedBracket? = none

/- A cause that names neither a token nor a bracket. -/
structure Cause.NamesNothing
    (cause : Cause) : Prop where
  token : cause.namedToken? = none
  bracket : cause.namedBracket? = none

theorem Cause.NamesNothing.atMost
    {cause : Cause}
    (hCause : cause.NamesNothing)
    (text : String) :
    cause.NamesAtMost text where
  token := by
    rw [hCause.token]
    nofun
  bracket := hCause.bracket

------------------------------------------------------------
-- Errors
------------------------------------------------------------

/- A token that is to be a number: digits in braces or a tag. -/
def NumberIn
    (tokens : List Token)
    (token : Token) : Prop :=
  ∃ opener : Token,
    [opener, token] <:+: tokens ∧
      (opener.kind = .leftBrace ∨ opener.kind = .caret) ∧
      token.kind = .text ∧ isDigits token.text = true

/- All numbers consist of decimal digits. -/
def NumbersDecimal
    (tokens : List Token) : Prop :=
  ∀ token,
    NumberIn tokens token →
      isNumeral token.text.toList = true

/- It is enough that all digits are decimal. -/
theorem NumbersDecimal.of_digits
    {tokens : List Token}
    (hDigits : ∀ token ∈ tokens,
      isDigits token.text = true →
        isNumeral token.text.toList = true) :
    NumbersDecimal tokens := by
  rintro token ⟨opener, hPair, _, _, hNumber⟩
  have hMem : token ∈ [opener, token] := by simp
  exact hDigits token (hPair.subset hMem) hNumber

/-
  How tokens can be refused: at one of them, behind the last
  one, or for a number among them that cannot be read.
-/
inductive ReadContext.Faults
    (context : ReadContext)
    (tokens : List Token) : ReadError → Prop
  | on
      {token : Token}
      {cause : Cause}
      (hMem : token ∈ tokens)
      (hCause : cause.NamesAtMost token.text) :
      Faults context tokens
        (.at cause context.line token.column)
  | behind
      {cause : Cause}
      (hCause : cause.NamesNothing) :
      Faults context tokens
        (.malformed
          { cause := cause
            atEnd := true
            line := context.line
            column := context.finish })
  | number
      {token : Token}
      {e : ReadError}
      (hNumber : NumberIn tokens token)
      (hFail : context.number token = .error e) :
      Faults context tokens e

/-
  Why tokens with decimal numbers are refused: they are
  malformed, or there is a number among them that has too
  many digits.
-/
def ReadContext.Refuses
    (context : ReadContext)
    (tokens : List Token)
    (e : ReadError) : Prop :=
  (∃ fault, e = .malformed fault) ∨
    ∃ token,
      NumberIn tokens token ∧
        context.digitLimit.admits token.text.toList.length =
          false ∧
        e = .tooManyDigits token.text

namespace ReadContext.Faults

variable {all : List Token}
variable {e : ReadError}

/- An error that may name the token it is placed at. -/
theorem of_unexpected
    {α : Type}
    {token : Token}
    {cause : Cause}
    (hMem : token ∈ all)
    (hCause : cause.NamesAtMost token.text)
    (hFail :
      (context.failOn token cause : Except ReadError α) =
        .error e) :
    context.Faults all e := by
  cases hFail
  exact .on hMem hCause

theorem of_failOn
    {α : Type}
    {token : Token}
    {cause : Cause}
    (hMem : token ∈ all)
    (hCause : cause.NamesNothing)
    (hFail :
      (context.failOn token cause : Except ReadError α) =
        .error e) :
    context.Faults all e :=
  of_unexpected hMem (hCause.atMost _) hFail

theorem of_failAt
    {α : Type}
    {start : List Token}
    {cause : Cause}
    (hStart : start ⊆ all)
    (hCause : cause.NamesNothing)
    (hFail :
      (context.failAt start cause : Except ReadError α) =
        .error e) :
    context.Faults all e := by
  unfold failAt at hFail
  split at hFail
  · exact of_failOn (hStart List.mem_cons_self) hCause hFail
  · cases hFail
    exact .behind hCause

theorem of_expectToken
    {kind : TokenKind}
    {cause : Cause}
    {tokens : List Token}
    (hTokens : tokens ⊆ all)
    (hCause : cause.NamesNothing)
    (hFail : expectToken context kind cause tokens = .error e) :
    context.Faults all e := by
  unfold expectToken at hFail
  split at hFail
  · cases hFail
  · exact .of_failAt hTokens hCause hFail

/- A number is one if it stands where numbers do. -/
theorem of_number
    {opener token : Token}
    {rest : List Token}
    (hTokens : opener :: token :: rest <:+: all)
    (hOpener : opener.kind = .leftBrace ∨ opener.kind = .caret)
    (hDigits : token.kind = .text ∧ isDigits token.text = true)
    (hFail : context.number token = .error e) :
    context.Faults all e := by
  have hPair : [opener, token] <+: opener :: token :: rest :=
    List.prefix_append [opener, token] rest
  exact
    .number
      ⟨opener, hPair.isInfix.trans hTokens, hOpener, hDigits⟩
      hFail

/- A number is refused if it is too long or not decimal. -/
theorem refuses_or_notDecimal
    (hFaults : context.Faults all e) :
    context.Refuses all e ∨
      ∃ token,
        NumberIn all token ∧
          isNumeral token.text.toList = false ∧
          e = .notDecimal token.text := by
  cases hFaults with
  | on => exact Or.inl (Or.inl ⟨_, rfl⟩)
  | behind => exact Or.inl (Or.inl ⟨_, rfl⟩)
  | @number token _ hNumber hFail =>
      have hError := readNumber_error hFail
      rw [String.ofList_toList] at hError
      rcases hError with ⟨hLong, hSame⟩ | ⟨hOther, hSame⟩
      · exact Or.inl (Or.inr ⟨token, hNumber, hLong, hSame⟩)
      · exact Or.inr ⟨token, hNumber, hOther, hSame⟩

/- A decimal number is refused if it has too many digits. -/
theorem refuses
    (hFaults : context.Faults all e)
    (hDecimal : NumbersDecimal all) :
    context.Refuses all e := by
  rcases hFaults.refuses_or_notDecimal with
    hRefuses | ⟨token, hNumber, hOther, _⟩
  · exact hRefuses
  · rw [hDecimal token hNumber] at hOther
    cases hOther

end ReadContext.Faults

end Diachrony
