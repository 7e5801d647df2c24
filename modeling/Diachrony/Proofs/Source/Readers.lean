import Diachrony.Proofs.Source.BodyGrammar

/-
  Readers that read exactly what a grammar derives.

  Such a reader reads a phrase wherever only certain tokens
  follow, and reads nothing else. If it is refused then one
  of the tokens is to blame. Patterns are read so up to
  their stops, and lists are if their items are: what may
  follow an item is what may follow the list, or the
  separator.

  Key definitions include:
    * `ReadContext.BodyFaults`
    * `Follows`
    * `ReadsExactly`

  Key theorems include:
    * `ReadsExactly.separated`
    * `readPattern_exactly`
    * `readIndex_eq_ok_iff`
    * `DerivesSelection.reads`
-/

namespace Diachrony

open Unicode

variable {context : ReadContext}

------------------------------------------------------------
-- Errors
------------------------------------------------------------

/- A token that is to be an index. -/
def IndexIn
    (tokens : List Token)
    (token : Token) : Prop :=
  ∃ opener : Token,
    [opener, token] <:+: tokens ∧
      (opener.kind = .atSign ∨ opener.kind = .pipe)

/- How a body can be refused: for an index, or in a pattern. -/
inductive ReadContext.BodyFaults
    (context : ReadContext)
    (tokens : List Token) : ReadError → Prop
  | pattern
      {e : ReadError}
      (hFaults : context.Faults tokens e) :
      BodyFaults context tokens e
  | index
      {token : Token}
      {negative : Bool}
      {digits : List Char}
      (hIndex : IndexIn tokens token)
      (hDigits :
        indexDigits? token.text.toList =
          some (negative, digits))
      (hLong : context.digitLimit.admits digits.length = false) :
      BodyFaults context tokens
        (.tooManyDigits (String.ofList digits))

/-
  Why a body is refused: it is malformed, or a number in it
  cannot be read. Such a number has too many digits or, in a
  pattern, digits without a decimal value.
-/
def ReadContext.RefusesBody
    (context : ReadContext)
    (tokens : List Token)
    (e : ReadError) : Prop :=
  (context.Refuses tokens e ∨
      ∃ token,
        NumberIn tokens token ∧
          isNumeral token.text.toList = false ∧
          e = .notDecimal token.text) ∨
    ∃ token negative digits,
      IndexIn tokens token ∧
        indexDigits? token.text.toList =
          some (negative, digits) ∧
        context.digitLimit.admits digits.length = false ∧
        e = .tooManyDigits (String.ofList digits)

theorem ReadContext.BodyFaults.refuses
    {tokens : List Token}
    {e : ReadError}
    (hFaults : context.BodyFaults tokens e) :
    context.RefusesBody tokens e := by
  cases hFaults with
  | pattern hFaults => exact Or.inl hFaults.refuses_or_notDecimal
  | index hIndex hDigits hLong =>
      exact Or.inr ⟨_, _, _, hIndex, hDigits, hLong, rfl⟩

------------------------------------------------------------
-- What may follow
------------------------------------------------------------

/- Only a token of one of some kinds comes next, or none. -/
def Follows
    (kinds : List TokenKind)
    (rest : List Token) : Prop :=
  ∀ token ∈ rest.head?, token.kind ∈ kinds

namespace Follows

variable {kinds others : List TokenKind}
variable {kind : TokenKind}
variable {token : Token}
variable {rest : List Token}

theorem mono
    (hRest : Follows kinds rest)
    (hKinds : kinds ⊆ others) :
    Follows others rest :=
  fun token hMem => hKinds (hRest token hMem)

theorem cons
    (hKind : token.kind ∈ kinds) :
    Follows kinds (token :: rest) := by
  rintro other ⟨⟩
  exact hKind

theorem append
    {tokens : List Token}
    (hTokens : Follows kinds tokens)
    (hRest : Follows others rest) :
    Follows (kinds ++ others) (tokens ++ rest) := by
  cases tokens with
  | nil => exact hRest.mono (List.subset_append_right _ _)
  | cons token more =>
      exact cons (List.mem_append_left _ (hTokens token rfl))

/- A kind that may not come next is not passed over. -/
theorem skipToken?_eq_none
    (hRest : Follows kinds rest)
    (hKind : kind ∉ kinds) :
    skipToken? kind rest = none := by
  apply Diachrony.skipToken?_eq_none
  rintro token hMem rfl
  exact hKind (hRest token hMem)

end Follows

------------------------------------------------------------
-- Exact readers
------------------------------------------------------------

/-
  A reader that reads what is derived. It reads a phrase
  wherever only a token of one of the kinds in `stops`
  follows, and it is refused for some token.
-/
structure ReadsExactly
    {α : Type}
    (context : ReadContext)
    (stops : List TokenKind)
    (derives : List Token → α → Prop)
    (read : List Token → Except ReadError (Parsed α)) :
    Prop where
  sound {tokens : List Token} {result : Parsed α} :
    TextsNonempty tokens →
      read tokens = .ok result →
        ∃ used,
          tokens = used ++ result.rest ∧
            derives used result.value
  complete {tokens rest : List Token} {value : α} :
    derives tokens value →
      Follows stops rest →
        ∃ reported,
          read (tokens ++ rest) = .ok ⟨value, reported, rest⟩
  faults {all tokens : List Token} {e : ReadError} :
    TextsNonempty all →
      tokens <:+ all →
        read tokens = .error e → context.BodyFaults all e

/- What is left over ends the tokens that were read from. -/
theorem ReadsExactly.rest_suffix
    {α : Type}
    {stops : List TokenKind}
    {derives : List Token → α → Prop}
    {read : List Token → Except ReadError (Parsed α)}
    (hReader : ReadsExactly context stops derives read)
    {all tokens : List Token}
    {result : Parsed α}
    (hTexts : TextsNonempty all)
    (hTokens : tokens <:+ all)
    (hRead : read tokens = .ok result) :
    result.rest <:+ all := by
  rcases hReader.sound (hTexts.of_suffix hTokens) hRead with
    ⟨used, hUsed, _⟩
  exact List.IsSuffix.trans ⟨used, hUsed.symm⟩ hTokens

theorem skipToken?_suffix
    {kind : TokenKind}
    {all tokens rest : List Token}
    (hTokens : tokens <:+ all)
    (hSkip : skipToken? kind tokens = some rest) :
    rest <:+ all := by
  rcases skipToken?_eq_some_iff.mp hSkip with ⟨token, _, rfl⟩
  exact (List.suffix_cons token rest).trans hTokens

section Lists

variable {α : Type}
variable {separator : TokenKind}
variable {stops : List TokenKind}
variable {derives : List Token → α → Prop}
variable {readItem : List Token → Except ReadError (Parsed α)}

theorem readSeparated_sound
    (hItem :
      ReadsExactly context (separator :: stops) derives
        readItem)
    {tokens : List Token}
    {result : Parsed (List α)}
    (hTexts : TextsNonempty tokens)
    (hRead :
      readSeparated separator readItem tokens = .ok result) :
    ∃ used,
      tokens = used ++ result.rest ∧
        DerivesSeparated separator derives used
          result.value := by
  fun_induction readSeparated separator readItem tokens
      generalizing result
  case case1 => cases hRead
  case case2 =>
    rename_i hFirst _
    cases hRead
    rcases hItem.sound hTexts hFirst with ⟨used, hUsed, hHere⟩
    exact ⟨used, hUsed, .one hHere⟩
  case case3 => cases hRead
  case case4 =>
    rename_i hFirst more hSkip _ items hLater ih
    cases hRead
    rcases hItem.sound hTexts hFirst with ⟨used, rfl, hHere⟩
    rcases skipToken?_eq_some_iff.mp hSkip with
      ⟨token, hKind, hRest⟩
    have hSuffix :=
      skipToken?_suffix (List.suffix_append used _) hSkip
    rcases ih (hTexts.of_suffix hSuffix) hLater with
      ⟨later, hMore, hOthers⟩
    refine
      ⟨used ++ token :: later, ?_, .more hHere hKind hOthers⟩
    rw [hRest, hMore, List.append_assoc, List.cons_append]
  case case5 =>
    -- an item is never longer than what it is read from
    rename_i hFirst more hSkip hLonger
    rcases hItem.sound hTexts hFirst with ⟨used, rfl, _⟩
    have hShort := skipToken?_length hSkip
    rw [List.length_append] at hLonger
    omega

theorem DerivesSeparated.reads
    (hItem :
      ReadsExactly context (separator :: stops) derives
        readItem)
    (hOther : separator ∉ stops)
    {tokens rest : List Token}
    {values : List α}
    (hDerives : DerivesSeparated separator derives tokens values)
    (hRest : Follows stops rest) :
    ∃ reported,
      readSeparated separator readItem (tokens ++ rest) =
        .ok ⟨values, reported, rest⟩ := by
  induction hDerives with
  | one hHere =>
      have hNext : Follows (separator :: stops) rest :=
        hRest.mono (List.subset_cons_self separator stops)
      rcases hItem.complete hHere hNext with ⟨reported, hFirst⟩
      refine ⟨reported, ?_⟩
      rw [readSeparated, hFirst]
      dsimp only
      rw [hRest.skipToken?_eq_none hOther]
  | @more first later token value values hHere hSeparator _
      ih =>
      have hNext :
          Follows (separator :: stops)
            (token :: (later ++ rest)) :=
        .cons (by rw [hSeparator]; exact List.mem_cons_self)
      rcases hItem.complete hHere hNext with ⟨reported, hFirst⟩
      rcases ih with ⟨more, hLater⟩
      refine ⟨reported ++ more, ?_⟩
      rw [List.append_assoc, List.cons_append, readSeparated,
        hFirst]
      dsimp only
      rw [skipToken?_cons hSeparator]
      dsimp only
      rw [if_pos, hLater]
      simp only [List.length_append, List.length_cons]
      omega

theorem readSeparated_faults
    (hItem :
      ReadsExactly context (separator :: stops) derives
        readItem)
    {all tokens : List Token}
    {e : ReadError}
    (hTexts : TextsNonempty all)
    (hTokens : tokens <:+ all)
    (hRead :
      readSeparated separator readItem tokens = .error e) :
    context.BodyFaults all e := by
  fun_induction readSeparated separator readItem tokens
  case case1 =>
    rename_i hFirst
    cases hRead
    exact hItem.faults hTexts hTokens hFirst
  case case3 =>
    rename_i hFirst _ hSkip _ _ hLater ih
    cases hRead
    have hRest := hItem.rest_suffix hTexts hTokens hFirst
    exact ih (skipToken?_suffix hRest hSkip) hLater
  all_goals cases hRead

/- A list is read exactly if its items are. -/
theorem ReadsExactly.separated
    (hItem :
      ReadsExactly context (separator :: stops) derives
        readItem)
    (hOther : separator ∉ stops) :
    ReadsExactly context stops
      (DerivesSeparated separator derives)
      (readSeparated separator readItem) where
  sound := readSeparated_sound hItem
  complete := DerivesSeparated.reads hItem hOther
  faults := readSeparated_faults hItem

end Lists

/- Patterns are read exactly up to their stops. -/
theorem readPattern_exactly
    {stops : List TokenKind}
    (hStops : stops ∈ patternStops) :
    ReadsExactly context stops (Derives context .units)
      (readPattern context stops) where
  sound hTexts hRead :=
    readUnits_sound (.outside .none) hTexts hRead
  complete := by
    intro tokens rest pattern hUnits hRest
    have hSeparate := separates_of_mem_patternStops hStops
    rcases hUnits.reads hSeparate (.of_stops hSeparate hRest)
        [] [] [] with
      ⟨reported, hRead⟩
    refine ⟨reported, ?_⟩
    rw [readPattern, hRead, readUnits_of_stop hRest]
    rfl
  faults hTexts hTokens hRead :=
    .pattern (readPattern_faults hTokens hTexts hRead)

------------------------------------------------------------
-- Indices
------------------------------------------------------------

theorem number?_minus
    (digits : List Char) :
    number? ('-' :: digits) = none := by
  have hMinus : decimalValue? '-' = none := by decide +kernel
  simp [number?, numberFrom?, hMinus]

theorem indexDigits?_eq_some_iff
    {text digits : List Char}
    {negative : Bool} :
    indexDigits? text = some (negative, digits) ↔
      isNumeral digits = true ∧
        text = if negative then '-' :: digits else digits := by
  unfold indexDigits?
  constructor
  · intro hDigits
    by_cases hMinus : text.head? = some '-'
    · rcases List.head?_eq_some_iff.mp hMinus with ⟨rest, rfl⟩
      have hParts :
          isNumeral rest = true ∧ true = negative ∧
            rest = digits := by
        simpa using hDigits
      rcases hParts with ⟨hNumeral, rfl, rfl⟩
      exact ⟨hNumeral, rfl⟩
    · have hParts :
          isNumeral text = true ∧ false = negative ∧
            text = digits := by
        simpa [hMinus] using hDigits
      rcases hParts with ⟨hNumeral, rfl, rfl⟩
      exact ⟨hNumeral, rfl⟩
  · rintro ⟨hNumeral, rfl⟩
    cases negative with
    | true => simp [hNumeral]
    | false =>
        have hHead : digits.head? ≠ some '-' := by
          intro hMinus
          rcases List.head?_eq_some_iff.mp hMinus with
            ⟨rest, rfl⟩
          rw [← number?_isSome, number?_minus] at hNumeral
          cases hNumeral
        simp [hHead, hNumeral]

theorem indexOf_eq_keptIndex
    (negative : Bool)
    (n : Nat) :
    indexOf negative n =
      keptIndex (if negative then -(n : Int) else n) := by
  cases negative <;>
    simp only [indexOf, keptIndex, Bool.false_eq_true, if_true,
      if_false] <;>
    split <;> omega

theorem readIndex_eq_ok_iff
    {token : Token}
    {i : Int} :
    readIndex context token = .ok i ↔
      DerivesIndex context [token] i := by
  constructor
  · intro hRead
    unfold readIndex at hRead
    split at hRead
    · rename_i negative digits hKind hDigits
      split at hRead
      · cases hRead
      rename_i n hNumber
      cases hRead
      rcases readNumber_eq_ok_iff.mp hNumber with
        ⟨hAdmitted, hValue⟩
      have hText := (indexDigits?_eq_some_iff.mp hDigits).2
      rw [indexOf_eq_keptIndex]
      refine .single hKind ?_
      rw [hText]
      cases negative with
      | true => exact .negative hAdmitted hValue
      | false => exact .plain hAdmitted hValue
    · cases hRead
  · rintro ⟨hKind, hInteger⟩
    have hSome : ∀ {digits : List Char} {n : Nat},
        number? digits = some n → isNumeral digits = true := by
      intro digits n hNumber
      rw [← number?_isSome, hNumber]
      rfl
    generalize hText : token.text.toList = text at hInteger
    cases hInteger with
    | @plain _ n hAdmitted hNumber =>
        have hDigits :
            indexDigits? text = some (false, text) :=
          indexDigits?_eq_some_iff.mpr ⟨hSome hNumber, rfl⟩
        have hValue :=
          readNumber_eq_ok_iff.mpr ⟨hAdmitted, hNumber⟩
        simp only [readIndex, hKind, hText, hDigits, hValue]
        rw [indexOf_eq_keptIndex]
        rfl
    | @negative digits n hAdmitted hNumber =>
        have hDigits :
            indexDigits? ('-' :: digits) = some (true, digits) :=
          indexDigits?_eq_some_iff.mpr ⟨hSome hNumber, rfl⟩
        have hValue :=
          readNumber_eq_ok_iff.mpr ⟨hAdmitted, hNumber⟩
        simp only [readIndex, hKind, hText, hDigits, hValue]
        rw [indexOf_eq_keptIndex]
        rfl

/- An index is refused if it is none or has too many digits. -/
theorem readIndex_faults
    {opener token : Token}
    {rest all : List Token}
    {e : ReadError}
    (hTokens : opener :: token :: rest <:+: all)
    (hOpener : opener.kind = .atSign ∨ opener.kind = .pipe)
    (hRead : readIndex context token = .error e) :
    context.BodyFaults all e := by
  unfold readIndex at hRead
  split at hRead
  · rename_i negative digits _ hDigits
    split at hRead
    · rename_i hFail
      cases hRead
      have hPair : [opener, token] <+: opener :: token :: rest :=
        List.prefix_append [opener, token] rest
      have hIndex : IndexIn all token :=
        ⟨opener, hPair.isInfix.trans hTokens, hOpener⟩
      have hNumeral := (indexDigits?_eq_some_iff.mp hDigits).1
      rcases readNumber_error_of_isNumeral hNumeral hFail with
        ⟨hLong, rfl⟩
      exact .index hIndex hDigits hLong
    · cases hRead
  · have hMem : token ∈ all := hTokens.subset (by simp)
    exact .pattern (.of_failOn hMem ⟨rfl, rfl⟩ hRead)

theorem readIndices_sound
    {tokens : List Token}
    {result : List Int × List Token}
    (hRead : readIndices context tokens = .ok result) :
    ∃ used,
      tokens = used ++ result.2 ∧
        DerivesSeparated .pipe (DerivesIndex context) used
          result.1 := by
  fun_induction readIndices context tokens generalizing result
  case case1 => cases hRead
  case case2 => cases hRead
  case case3 => cases hRead
  case case4 =>
    rename_i token i hFirst next more hPipe others after hLater
      ih
    cases hRead
    rcases ih hLater with ⟨used, hUsed, hOthers⟩
    refine
      ⟨[token] ++ next :: used, ?_,
        .more (readIndex_eq_ok_iff.mp hFirst) hPipe hOthers⟩
    rw [hUsed]
    rfl
  case case5 =>
    rename_i token i hFirst next more _
    cases hRead
    exact ⟨[token], rfl, .one (readIndex_eq_ok_iff.mp hFirst)⟩
  case case6 =>
    rename_i token i hFirst
    cases hRead
    exact ⟨[token], rfl, .one (readIndex_eq_ok_iff.mp hFirst)⟩

theorem DerivesSeparated.reads_indices
    {tokens rest : List Token}
    {indices : List Int}
    (hIndices :
      DerivesSeparated .pipe (DerivesIndex context) tokens
        indices)
    (hRest : ∀ token ∈ rest.head?, token.kind ≠ .pipe) :
    readIndices context (tokens ++ rest) =
      .ok (indices, rest) := by
  induction hIndices with
  | one hIndex =>
      cases hIndex with
      | single hKind hInteger =>
          have hFirst :=
            readIndex_eq_ok_iff.mpr (.single hKind hInteger)
          rw [List.singleton_append, readIndices, hFirst]
          cases rest with
          | nil => rfl
          | cons next more =>
              dsimp only
              rw [if_neg (hRest next rfl)]
  | more hIndex hPipe _ ih =>
      cases hIndex with
      | single hKind hInteger =>
          have hFirst :=
            readIndex_eq_ok_iff.mpr (.single hKind hInteger)
          rw [List.append_assoc, List.singleton_append,
            List.cons_append, readIndices, hFirst]
          dsimp only
          rw [if_pos hPipe, ih]

theorem readIndices_faults
    {opener : Token}
    {tokens all : List Token}
    {e : ReadError}
    (hTokens : opener :: tokens <:+: all)
    (hOpener : opener.kind = .atSign ∨ opener.kind = .pipe)
    (hRead : readIndices context tokens = .error e) :
    context.BodyFaults all e := by
  fun_induction readIndices context tokens generalizing opener
  case case1 =>
    exact
      .pattern
        (.of_failAt (List.nil_subset all) ⟨rfl, rfl⟩ hRead)
  case case2 =>
    rename_i hFirst
    cases hRead
    exact readIndex_faults hTokens hOpener hFirst
  case case3 =>
    rename_i token _ _ next more hPipe _ hLater ih
    cases hRead
    have hTail := List.suffix_append [opener, token] (next :: more)
    exact ih (hTail.isInfix.trans hTokens) (Or.inr hPipe) hLater
  all_goals cases hRead

theorem readIndices?_sound
    {tokens : List Token}
    {result : Option (List Int) × List Token}
    (hRead : readIndices? context tokens = .ok result) :
    ∃ used,
      tokens = used ++ result.2 ∧
        DerivesSelection context used result.1 := by
  unfold readIndices? at hRead
  split at hRead
  · cases hRead
    exact ⟨[], rfl, .missing⟩
  rename_i hSkip
  split at hRead
  · cases hRead
  rename_i hIndices
  cases hRead
  rcases skipToken?_eq_some_iff.mp hSkip with
    ⟨sign, hSign, rfl⟩
  rcases readIndices_sound hIndices with ⟨used, rfl, hDerives⟩
  exact ⟨sign :: used, rfl, .given hSign hDerives⟩

theorem DerivesSelection.reads
    {kinds : List TokenKind}
    {selection rest : List Token}
    {indices : Option (List Int)}
    (hSelection : DerivesSelection context selection indices)
    (hRest : Follows kinds rest)
    (hSign : .atSign ∉ kinds)
    (hPipe : .pipe ∉ kinds) :
    readIndices? context (selection ++ rest) =
      .ok (indices, rest) := by
  cases hSelection with
  | missing =>
      rw [List.nil_append, readIndices?,
        hRest.skipToken?_eq_none hSign]
  | given hKind hIndices =>
      have hBar : ∀ token ∈ rest.head?, token.kind ≠ .pipe := by
        rintro token hMem hKind
        exact hPipe (hKind ▸ hRest token hMem)
      rw [List.cons_append, readIndices?, skipToken?_cons hKind]
      dsimp only
      rw [hIndices.reads_indices hBar]

theorem DerivesSelection.starts
    {selection : List Token}
    {indices : Option (List Int)}
    (hSelection : DerivesSelection context selection indices) :
    Follows [.atSign] selection := by
  cases hSelection with
  | missing => nofun
  | given hKind _ => exact .cons (by simp [hKind])

theorem readIndices?_faults
    {tokens all : List Token}
    {e : ReadError}
    (hTokens : tokens <:+ all)
    (hRead : readIndices? context tokens = .error e) :
    context.BodyFaults all e := by
  unfold readIndices? at hRead
  split at hRead
  · cases hRead
  rename_i hSkip
  rcases skipToken?_eq_some_iff.mp hSkip with
    ⟨sign, hSign, rfl⟩
  split at hRead
  · rename_i hIndices
    cases hRead
    exact
      readIndices_faults hTokens.isInfix (Or.inl hSign) hIndices
  · cases hRead

end Diachrony
