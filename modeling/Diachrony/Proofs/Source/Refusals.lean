import Diachrony.Proofs.Source.Bodies
import Diachrony.Proofs.Source.Lines

/-
  Lines that are refused.

  Whatever is wrong with a line, the error points into it.
  The flags, the members and the body of a line are parts of
  it, and the columns at which they begin are where they
  stand.

  Key definitions include:
    * `RuleFields.StandIn`
    * `IsTokenOf`
    * `SourceLine.HasToken`

  Key theorems include:
    * `Flags.read_faults`
    * `readCategoryBody_faults`
    * `Metarule.read_faults`
    * `Rule.read_faults`
    * `Reading.line_faults`
    * `Reading.lines_faults`
-/

namespace Diachrony

open Unicode

------------------------------------------------------------
-- Flags
------------------------------------------------------------

variable {place : Place}
variable {limit : DigitLimit}
variable {isToken : Token → Prop}
variable {text : List Char}
variable {e : ReadError}

theorem FlagItem.number_faults
    {name : String}
    {argument : List Char}
    {low high : Nat}
    (hRead :
      FlagItem.number limit place name argument low high =
        .error e) :
    place.Faults limit text isToken e := by
  unfold FlagItem.number at hRead
  split at hRead
  · cases hRead
    exact .of_start ⟨rfl, rfl⟩
  rename_i hNumeral
  split at hRead
  · rename_i hNumber
    cases hRead
    exact .of_isNumeral (by simpa using hNumeral) hNumber
  split at hRead
  · cases hRead
  · cases hRead
    exact .of_start ⟨rfl, rfl⟩

theorem FlagItem.flag_faults
    {item : FlagItem}
    (hRead : item.flag place = .error e) :
    place.Faults limit text isToken e := by
  unfold FlagItem.flag at hRead
  split at hRead
  · cases hRead
    exact .of_start ⟨rfl, rfl⟩
  split at hRead
  · cases hRead
    exact .of_start ⟨rfl, rfl⟩
  split at hRead
  · cases hRead
  split at hRead
  · cases hRead
    exact .of_start ⟨rfl, rfl⟩
  split at hRead
  · cases hRead
    exact .of_start ⟨rfl, rfl⟩
  · cases hRead

theorem FlagItem.applyRepeat_faults
    {item : FlagItem}
    {flags : Flags}
    (hApply : item.applyRepeat limit place flags = .error e) :
    place.Faults limit text isToken e := by
  unfold FlagItem.applyRepeat at hApply
  split at hApply
  · cases hApply
  split at hApply
  · rename_i hNumber
    cases hApply
    exact FlagItem.number_faults hNumber
  · cases hApply

theorem FlagItem.applyOptional_faults
    {item : FlagItem}
    {flags : Flags}
    (hApply : item.applyOptional place flags = .error e) :
    place.Faults limit text isToken e := by
  unfold FlagItem.applyOptional at hApply
  split at hApply
  · cases hApply
  split at hApply
  · cases hApply
  · cases hApply
    exact .of_start ⟨rfl, rfl⟩

theorem FlagItem.applyChance_faults
    {item : FlagItem}
    {flags : Flags}
    (hApply : item.applyChance limit place flags = .error e) :
    place.Faults limit text isToken e := by
  unfold FlagItem.applyChance at hApply
  dsimp only at hApply
  split at hApply
  · cases hApply
  split at hApply
  · rename_i hNumber
    cases hApply
    exact FlagItem.number_faults hNumber
  · cases hApply

theorem FlagItem.applyPersist_faults
    {item : FlagItem}
    {flags : Flags}
    (hApply : item.applyPersist limit place flags = .error e) :
    place.Faults limit text isToken e := by
  unfold FlagItem.applyPersist at hApply
  split at hApply
  · cases hApply
  split at hApply
  · rename_i hNumber
    cases hApply
    exact FlagItem.number_faults hNumber
  · cases hApply

theorem FlagItem.apply_faults
    {item : FlagItem}
    {flags : Flags}
    {name : FlagName}
    (hApply : item.apply limit place flags name = .error e) :
    place.Faults limit text isToken e := by
  cases name with
  | repeating => exact FlagItem.applyRepeat_faults hApply
  | persistent => exact FlagItem.applyRepeat_faults hApply
  | rightToLeft => cases hApply
  | optional => exact FlagItem.applyOptional_faults hApply
  | chance => exact FlagItem.applyChance_faults hApply
  | ignore => cases hApply
  | ditto => cases hApply
  | stop => cases hApply
  | persist => exact FlagItem.applyPersist_faults hApply

/- An item is refused where it begins. -/
theorem readFlagItem_faults
    {item : List Char}
    {flags : Flags}
    (hRead : readFlagItem limit place item flags = .error e) :
    place.Faults limit text isToken e := by
  unfold readFlagItem at hRead
  split at hRead
  · cases hRead
    exact .of_start ⟨rfl, rfl⟩
  dsimp only at hRead
  split at hRead
  · rename_i hFlag
    cases hRead
    exact FlagItem.flag_faults hFlag
  split at hRead
  · rename_i hApply
    cases hRead
    exact FlagItem.apply_faults hApply
  · cases hRead

/- The length of a list of parts with one character after each. -/
def spread
    (parts : List (List Char)) : Nat :=
  parts.foldr (fun part length => part.length + 1 + length) 0

theorem spread_cons
    (part : List Char)
    (parts : List (List Char)) :
    spread (part :: parts) = part.length + 1 + spread parts :=
  rfl

theorem spread_splitSemicolons
    (part text : List Char) :
    spread (splitSemicolons part text) =
      part.length + text.length + 1 := by
  fun_induction splitSemicolons part text
  case case1 part =>
    rw [spread_cons, List.length_reverse]
    rfl
  case case2 ih =>
    rw [spread_cons, ih, List.length_reverse, List.length_cons,
      List.length_nil]
    omega
  case case3 ih =>
    rw [ih, List.length_cons, List.length_cons]
    omega

/- The column behind a part and the character after it. -/
theorem column_behind
    (column : Int)
    (offset length : Nat) :
    column + offset + length + 1 =
      column + ((offset + length + 1 : Nat) : Int) := by
  omega

/-
  The parts of a list are refused where they begin behind
  their blanks, which is in the text they are parts of.
-/
theorem readFlagItems_faults
    {offset : Nat}
    {flags : Flags}
    {diagnostics : List Diagnostic}
    {parts : List (List Char)}
    (hSpread : offset + spread parts ≤ text.length + 1)
    (hRead :
      readFlagItems limit place.line (place.column + offset)
          flags diagnostics parts =
        .error e) :
    place.Faults limit text isToken e := by
  induction parts generalizing offset flags diagnostics with
  | nil => cases hRead
  | cons part rest ih =>
      rw [spread_cons] at hSpread
      unfold readFlagItems at hRead
      dsimp only at hRead
      split at hRead
      · rename_i hItem
        cases hRead
        rw [Int.add_assoc, ← Int.natCast_add] at hItem
        exact .of_shift (by omega) (readFlagItem_faults hItem)
      · rw [column_behind] at hRead
        exact ih (by omega) hRead

/- A flag list is refused where it is written. -/
theorem Flags.read_faults
    (hRead :
      Flags.read limit text place.line place.column =
        .error e) :
    place.Faults limit text isToken e := by
  have hSpread := spread_splitSemicolons [] text
  have hStart : place.column = place.column + (0 : Nat) :=
    (Int.add_zero _).symm
  unfold Flags.read at hRead
  rw [hStart] at hRead
  exact readFlagItems_faults (by simp [hSpread]) hRead

/-
  Whether a part of a text is a flag list cannot be told if
  there is a number in it that cannot be converted.
-/
theorem isFlagList_faults
    {part : List Char}
    (hPart : part ⊆ text)
    (hList : isFlagList limit part = .error e) :
    place.Faults limit text isToken e := by
  unfold isFlagList at hList
  split at hList
  · cases hList
  · cases hList
  rename_i hMalformed hRead
  cases hList
  have hFaults : (Place.mk 0 0).Faults limit part isToken e :=
    Flags.read_faults hRead
  cases hFaults with
  | malformed => exact (hMalformed _ rfl).elim
  | notDecimal hMem hDigit hOther =>
      exact .notDecimal (hPart hMem) hDigit hOther
  | tooManyDigits hLong => exact .tooManyDigits hLong

------------------------------------------------------------
-- Categories
------------------------------------------------------------

theorem MemberText.ofText_faults
    {item : List Char}
    {e : SourceError}
    (hRead : MemberText.ofText place item = .error e) :
    place.Faults limit text isToken (.malformed e) := by
  unfold MemberText.ofText at hRead
  split at hRead
  · cases hRead
    exact .of_start ⟨rfl, rfl⟩
  split at hRead
  · cases hRead
  split at hRead
  · cases hRead
  split at hRead
  · cases hRead
    exact .of_start ⟨rfl, rfl⟩
  · cases hRead

theorem spread_splitFrom
    (isSeparator : Char → Bool)
    (depth : Int)
    (part text : List Char) :
    spread (splitFrom isSeparator depth part text) =
      part.length + text.length + 1 := by
  fun_induction splitFrom isSeparator depth part text
  case case1 part =>
    rw [spread_cons, List.length_reverse]
    rfl
  case case2 ih =>
    rw [ih]
    simp only [List.length_cons]
    omega
  case case3 part =>
    rw [spread_cons, List.length_reverse, List.length_cons]
    rfl
  case case4 ih =>
    rw [spread_cons, ih, List.length_reverse, List.length_cons,
      List.length_nil]
    omega
  case case5 ih =>
    rw [ih, List.length_cons, List.length_cons]
    omega

theorem readMemberTexts_faults
    {table : Table}
    {graphs : List String}
    {offset : Nat}
    {parts : List (List Char)}
    {e : SourceError}
    (hSpread : offset + spread parts ≤ text.length + 1)
    (hRead :
      readMemberTexts table graphs place.line
          (place.column + offset) parts =
        .error e) :
    place.Faults limit text isToken (.malformed e) := by
  induction parts generalizing offset with
  | nil => cases hRead
  | cons part rest ih =>
      rw [spread_cons] at hSpread
      unfold readMemberTexts at hRead
      dsimp only at hRead
      split at hRead
      · rename_i hItem
        cases hRead
        rw [Int.add_assoc, ← Int.natCast_add] at hItem
        exact
          .of_shift (by omega) (MemberText.ofText_faults hItem)
      split at hRead
      · rename_i hLater
        cases hRead
        rw [column_behind] at hLater
        exact ih (by omega) hLater
      · cases hRead

/- The members of a category are refused where they stand. -/
theorem readCategoryBody_faults
    {table : Table}
    {graphs : List String}
    {e : SourceError}
    (hRead :
      readCategoryBody table graphs place text = .error e) :
    place.Faults limit text isToken (.malformed e) := by
  have hSpread := spread_splitFrom isComma 0 [] text
  have hStart : place.column = place.column + (0 : Nat) :=
    (Int.add_zero _).symm
  unfold readCategoryBody at hRead
  split at hRead
  · cases hRead
    exact .of_start ⟨rfl, rfl⟩
  · rw [hStart] at hRead
    exact
      readMemberTexts_faults (by simp [splitTop, hSpread]) hRead

------------------------------------------------------------
-- Metarules
------------------------------------------------------------

theorem MetaruleLine.oneName_faults
    {line : MetaruleLine}
    {e : SourceError}
    (hName : line.oneName place = .error e) :
    place.Faults limit text isToken (.malformed e) := by
  unfold MetaruleLine.oneName at hName
  split at hName
  · split at hName
    · cases hName
    · cases hName
      exact .of_start ⟨rfl, rfl⟩
  · cases hName
    exact .of_start ⟨rfl, rfl⟩

theorem MetaruleLine.blockSize_faults
    {line : MetaruleLine}
    (hSome : line.argument ≠ some [])
    (hArgument : ∀ argument ∈ line.argument, argument ⊆ text)
    (hSize : line.blockSize limit place = .error e) :
    place.Faults limit text isToken e := by
  unfold MetaruleLine.blockSize at hSize
  split at hSize
  · cases hSize
  rename_i argument hGiven
  have hSubset := hArgument argument hGiven
  rw [hGiven] at hSome
  dsimp only at hSize
  split at hSize
  · cases hSize
    exact .of_start ⟨rfl, rfl⟩
  rename_i hDigits
  have hAll : ∀ c ∈ argument, isDigit c = true := by
    simpa using hDigits
  split at hSize
  · rename_i hNumber
    cases hSize
    refine .of_readNumber ?_ ?_ hNumber
    · rintro rfl
      exact hSome rfl
    · intro c hMem
      exact ⟨hSubset hMem, hAll c hMem⟩
  split at hSize
  · cases hSize
    exact .of_start ⟨rfl, rfl⟩
  · cases hSize

theorem readArgument_suffix
    (rest : List Char) :
    (readArgument rest).2 <:+ rest := by
  unfold readArgument
  split
  · rename_i afterColon
    dsimp only
    split
    · exact List.suffix_rfl
    · exact
        (List.dropWhile_suffix _).trans
          ((trimLeft_suffix afterColon).trans
            (List.suffix_cons _ _))
  · exact List.suffix_rfl

/- An argument is not empty, and is written after the colon. -/
theorem readArgument_some
    {rest argument : List Char}
    (hArgument : (readArgument rest).1 = some argument) :
    argument ≠ [] ∧ argument ⊆ rest := by
  unfold readArgument at hArgument
  split at hArgument
  · rename_i afterColon
    dsimp only at hArgument
    split at hArgument
    · cases hArgument
    · rename_i hSome
      cases hArgument
      have hAfter : afterColon ⊆ ':' :: afterColon :=
        List.subset_cons_self _ _
      refine ⟨hSome, fun c hMem => hAfter ?_⟩
      exact
        (trimLeft_suffix afterColon).subset
          ((List.takeWhile_prefix _).subset hMem)
  · cases hArgument

/- How the parts of a metarule line stand in it. -/
structure MetaruleLine.PartsOf
    (line : MetaruleLine)
    (text : List Char) : Prop where
  argument_ne : line.argument ≠ some []
  argument_subset : ∀ argument ∈ line.argument, argument ⊆ text
  rest_stands : StandsIn text line.offset (trim line.rest)

theorem MetaruleLine.read?_partsOf
    {line : MetaruleLine}
    (hRead : MetaruleLine.read? text = some line) :
    line.PartsOf text := by
  unfold MetaruleLine.read? at hRead
  split at hRead
  · rename_i afterSign
    dsimp only at hRead
    split at hRead
    · cases hRead
    cases hRead
    have hName :
        trimLeft (afterSign.dropWhile isNameCharacter) <:+
          '!' :: afterSign :=
      (trimLeft_suffix _).trans
        ((List.dropWhile_suffix _).trans (List.suffix_cons _ _))
    have hRest := (trimLeft_suffix _).trans
      ((readArgument_suffix _).trans hName)
    refine
      { argument_ne := ?_
        argument_subset := ?_
        rest_stands := ?_ }
    · exact fun hNone => (readArgument_some hNone).1 rfl
    · intro argument hArgument
      exact
        List.Subset.trans (readArgument_some hArgument).2
          hName.subset
    · dsimp only
      rw [trim_trimLeft]
      exact .of_trimLeft hRest
  · cases hRead

theorem MetaruleLine.readFlags_faults
    {line : MetaruleLine}
    (hParts : line.PartsOf text)
    (hFlags : line.readFlags limit place = .error e) :
    place.Faults limit text isToken e := by
  unfold MetaruleLine.readFlags at hFlags
  split at hFlags
  · cases hFlags
  · exact
      .of_part hParts.rest_stands (Flags.read_faults hFlags)

/- A metarule is refused where it stands, or in its flags. -/
theorem Metarule.read_faults
    (hRead : Metarule.read limit place text = .error e) :
    place.Faults limit text isToken e := by
  unfold Metarule.read at hRead
  split at hRead
  · cases hRead
    exact .of_start ⟨rfl, rfl⟩
  rename_i line hLine
  have hParts := MetaruleLine.read?_partsOf hLine
  unfold Metarule.ofLine at hRead
  split at hRead
  · split at hRead
    · rename_i hName
      cases hRead
      exact MetaruleLine.oneName_faults hName
    · cases hRead
  split at hRead
  · split at hRead
    · rename_i hName
      cases hRead
      exact MetaruleLine.oneName_faults hName
    · cases hRead
  split at hRead
  · unfold MetaruleLine.block at hRead
    split at hRead
    · rename_i hSize
      cases hRead
      exact
        MetaruleLine.blockSize_faults hParts.argument_ne
          hParts.argument_subset hSize
    split at hRead
    · rename_i hFlags
      cases hRead
      exact MetaruleLine.readFlags_faults hParts hFlags
    · cases hRead
  · cases hRead
    exact .of_start ⟨rfl, rfl⟩

------------------------------------------------------------
-- Rules
------------------------------------------------------------

/- Flags start inside the text. -/
theorem flagsStartFrom_le
    {ε : Type}
    {isFlagList : List Char → Except ε Bool}
    {depth : Int}
    {gap : Option (List Char)}
    {passed rest : List Char}
    {i : Nat}
    (hStart :
      flagsStartFrom isFlagList depth gap passed rest =
        .ok (some i)) :
    i ≤ passed.length + rest.length := by
  fun_induction flagsStartFrom isFlagList depth gap passed rest
  case case1 => cases hStart
  case case2 ih =>
    have hLater := ih hStart
    simp only [List.length_cons] at hLater ⊢
    omega
  case case3 => cases hStart
  case case4 ih =>
    have hLater := ih hStart
    simp only [List.length_cons] at hLater ⊢
    omega
  case case5 => cases hStart
  case case6 =>
    cases hStart
    exact Nat.le_add_right _ _
  case case7 ih =>
    have hLater := ih hStart
    simp only [List.length_cons] at hLater ⊢
    omega
  case case8 ih =>
    have hLater := ih hStart
    simp only [List.length_cons] at hLater ⊢
    omega

/- Where flags start can be told if flag lists can be told. -/
theorem flagsStartFrom_error
    {ε : Type}
    {isFlagList : List Char → Except ε Bool}
    {depth : Int}
    {gap : Option (List Char)}
    {passed rest : List Char}
    {fault : ε}
    (hStart :
      flagsStartFrom isFlagList depth gap passed rest =
        .error fault) :
    ∃ part, part ⊆ rest ∧ isFlagList part = .error fault := by
  fun_induction flagsStartFrom isFlagList depth gap passed rest
  case case1 => cases hStart
  case case2 ih =>
    rcases ih hStart with ⟨part, hPart, hList⟩
    exact
      ⟨part,
        List.subset_cons_of_subset _
          (List.subset_cons_of_subset _ hPart), hList⟩
  case case3 => cases hStart
  case case4 ih =>
    rcases ih hStart with ⟨part, hPart, hList⟩
    exact ⟨part, List.subset_cons_of_subset _ hPart, hList⟩
  case case5 hMay =>
    cases hStart
    unfold mayStartFlags at hMay
    dsimp only at hMay
    split at hMay
    · exact ⟨_, List.Subset.refl _, hMay⟩
    · cases hMay
  case case6 => cases hStart
  case case7 ih =>
    rcases ih hStart with ⟨part, hPart, hList⟩
    exact ⟨part, List.subset_cons_of_subset _ hPart, hList⟩
  case case8 ih =>
    rcases ih hStart with ⟨part, hPart, hList⟩
    exact ⟨part, List.subset_cons_of_subset _ hPart, hList⟩

/- Fields that stand where they say they do. -/
structure RuleFields.StandIn
    (fields : RuleFields)
    (place : Place)
    (text : List Char) : Prop where
  body :
    ∃ columns : Nat,
      fields.bodyColumn = place.column + columns ∧
        StandsIn text columns fields.body
  flags :
    ∀ part ∈ fields.flags,
      ∃ columns : Nat,
        part.2 = place.column + columns ∧
          StandsIn text columns part.1

theorem RuleForm.ofText_suffix
    (text : List Char) :
    (RuleForm.ofText text).2 <:+ text := by
  unfold RuleForm.ofText
  split
  · exact List.suffix_cons _ _
  · exact List.suffix_cons _ _
  · exact List.suffix_rfl

theorem RuleFields.ofText_standIn
    {fields : RuleFields}
    (hFields :
      RuleFields.ofText limit text place.column = .ok fields) :
    fields.StandIn place text := by
  have hAfter := StandsIn.of_suffix (RuleForm.ofText_suffix text)
  have hLength := (RuleForm.ofText_suffix text).length_le
  unfold RuleFields.ofText at hFields
  dsimp only at hFields
  split at hFields
  · cases hFields
  · cases hFields
    exact
      { body := ⟨_, by dsimp only; omega, hAfter⟩
        flags := nofun }
  · rename_i i hStart
    cases hFields
    have hInside := flagsStartFrom_le hStart
    rw [List.length_nil, Nat.zero_add] at hInside
    refine
      { body :=
          ⟨_, by dsimp only; omega, hAfter.trans (.take i)⟩
        flags := ?_ }
    rintro part ⟨⟩
    exact
      ⟨_, by dsimp only; omega, hAfter.trans (.drop hInside)⟩

theorem RuleFields.ofText_faults
    (hFields :
      RuleFields.ofText limit text place.column = .error e) :
    place.Faults limit text isToken e := by
  unfold RuleFields.ofText at hFields
  dsimp only at hFields
  split at hFields
  · rename_i hStart
    cases hFields
    rcases flagsStartFrom_error hStart with ⟨part, hPart, hList⟩
    exact
      isFlagList_faults
        (List.Subset.trans hPart
          (RuleForm.ofText_suffix text).subset)
        hList
  · cases hFields
  · cases hFields

/- The tokens are to blame for what stands in the text. -/
theorem ReadContext.Faults.inText
    {context : ReadContext}
    {tokens : List Token}
    (hLine : context.line = place.line)
    (hFinish : context.finish = place.column + text.length)
    (hFound : ∀ token ∈ tokens, token.FoundIn place text)
    (hIs : ∀ token ∈ tokens, isToken token)
    (hFaults : context.Faults tokens e) :
    place.Faults context.digitLimit text isToken e := by
  cases hFaults with
  | @on token cause hMem hCause =>
      rcases hFound token hMem with ⟨offset, hColumn, hStands⟩
      have hPoints :
          SourceError.PointsAt
            { cause := cause
              line := context.line
              column := token.column }
            place text isToken offset :=
        { line_eq := hLine
          column_eq := hColumn
          offset_le := Nat.le_of_add_right_le hStands.length_le
          bracket := by
            rw [hCause.bracket]
            nofun
          token := fun named hNamed =>
            ⟨token, hIs token hMem,
              (hCause.token named hNamed).symm, rfl, hStands⟩ }
      exact .malformed hPoints
  | behind hCause =>
      exact
        .malformed
          (.of_namesNothing hCause hLine hFinish (Nat.le_refl _))
  | @number token _ hNumber hFail =>
      rcases hNumber with ⟨opener, hPair, _, hKind, hDigits⟩
      have hMem : token ∈ tokens := hPair.subset (by simp)
      rcases hFound token hMem with ⟨offset, _, hStands⟩
      rw [Token.spelling, hKind, if_neg (by decide)] at hStands
      rw [isDigits, Bool.and_eq_true, Bool.not_eq_true',
        String.isEmpty_eq_false_iff, List.all_eq_true] at hDigits
      refine .of_readNumber ?_ ?_ hFail
      · exact fun hNone => hDigits.1 (String.toList_eq_nil_iff.mp hNone)
      · exact fun c hC => ⟨hStands.subset hC, hDigits.2 c hC⟩

theorem ReadContext.BodyFaults.inText
    {context : ReadContext}
    {tokens : List Token}
    (hLine : context.line = place.line)
    (hFinish : context.finish = place.column + text.length)
    (hFound : ∀ token ∈ tokens, token.FoundIn place text)
    (hIs : ∀ token ∈ tokens, isToken token)
    (hFaults : context.BodyFaults tokens e) :
    place.Faults context.digitLimit text isToken e := by
  cases hFaults with
  | pattern hFaults =>
      exact hFaults.inText hLine hFinish hFound hIs
  | index _ _ hLong => exact .tooManyDigits hLong

/- A token of the body of a rule text. -/
def IsTokenOf
    (limit : DigitLimit)
    (place : Place)
    (text : List Char)
    (token : Token) : Prop :=
  ∃ fields all,
    RuleFields.ofText limit text place.column = .ok fields ∧
      TokenText.read fields.body place.line fields.bodyColumn =
        .ok all ∧
      token ∈ all.tokens

theorem RuleFields.read_faults
    {setting : RuleSetting}
    {source : String}
    {fields : RuleFields}
    (hLine : setting.line = place.line)
    (hFields :
      RuleFields.ofText setting.digitLimit text place.column =
        .ok fields)
    (hRead : fields.read setting source = .error e) :
    place.Faults setting.digitLimit text
      (IsTokenOf setting.digitLimit place text) e := by
  have hStand := RuleFields.ofText_standIn hFields
  unfold RuleFields.read at hRead
  split at hRead
  · rename_i hFlags
    cases hRead
    unfold RuleFields.readFlags at hFlags
    split at hFlags
    · cases hFlags
    rename_i part column hGiven
    rcases hStand.flags _ hGiven with ⟨columns, hColumn, hPart⟩
    dsimp only at hColumn
    rw [hLine, hColumn] at hFlags
    exact .of_part hPart (Flags.read_faults hFlags)
  rcases hStand.body with ⟨columns, hColumn, hBody⟩
  rw [hLine] at hRead
  split at hRead
  · rename_i hTokens
    cases hRead
    rw [hColumn] at hTokens
    have hPart :
        TokenText.read fields.body (place.shift columns).line
            (place.shift columns).column =
          .error _ :=
      hTokens
    rcases TokenText.read_pointsAt hPart with ⟨offset, hPoints⟩
    exact .of_part hBody (.malformed hPoints)
  rename_i all hTokens
  dsimp only at hRead
  split at hRead
  · rename_i hFail
    cases hRead
    have hIs :
        ∀ token ∈ all.tokens,
          IsTokenOf setting.digitLimit place text token :=
      fun token hMem => ⟨fields, all, hFields, hTokens, hMem⟩
    have hFaults :=
      readBody_faults (TokenText.read_textsNonempty hTokens) hFail
    rw [hColumn] at hTokens
    have hPart :
        TokenText.read fields.body (place.shift columns).line
            (place.shift columns).column =
          .ok all :=
      hTokens
    rcases TokenText.read_foundIn hPart with ⟨hFinish, hFound⟩
    exact
      .of_part hBody (hFaults.inText hLine hFinish hFound hIs)
  · cases hRead

theorem Rule.readTrimmed_faults
    {setting : RuleSetting}
    (hLine : setting.line = place.line)
    (hColumn : setting.column = place.column)
    (hRead : Rule.readTrimmed setting text = .error e) :
    place.Faults setting.digitLimit text
      (IsTokenOf setting.digitLimit place text) e := by
  unfold Rule.readTrimmed at hRead
  rw [hLine, hColumn] at hRead
  split at hRead
  · rename_i hCheck
    cases hRead
    rcases checkBalanced_pointsAt hCheck with ⟨offset, hPoints⟩
    exact .malformed hPoints
  split at hRead
  · rename_i hFields
    cases hRead
    exact RuleFields.ofText_faults hFields
  · rename_i hFields
    exact RuleFields.read_faults hLine hFields hRead

/- A rule is refused where something in its text stands. -/
theorem Rule.read_faults
    {setting : RuleSetting}
    (hLine : setting.line = place.line)
    (hColumn : setting.column = place.column)
    (hText : trimLeft text = text)
    (hRead : Rule.read setting text = .error e) :
    place.Faults setting.digitLimit text
      (IsTokenOf setting.digitLimit place (trim text)) e := by
  unfold Rule.read at hRead
  dsimp only at hRead
  split at hRead
  · cases hRead
    rw [hLine, hColumn]
    exact .of_start ⟨rfl, rfl⟩
  · have hTrim : trim text <+: text := by
      rw [trim, hText]
      exact trimRight_isPrefix text
    exact
      .of_isPrefix hTrim
        (Rule.readTrimmed_faults hLine hColumn hRead)

------------------------------------------------------------
-- Lines
------------------------------------------------------------

theorem TableEdit.read?_suffix
    {edit : TableEdit}
    {rest : List Char}
    (hRead : TableEdit.read? text = some (edit, rest)) :
    rest <:+ text := by
  unfold TableEdit.read? at hRead
  split at hRead
  · cases hRead
    exact ⟨['+', '='], rfl⟩
  · cases hRead
    exact ⟨['-', '='], rfl⟩
  · cases hRead
    exact ⟨['='], rfl⟩
  · cases hRead

/- The members of a category line stand where its body does. -/
theorem CategoryLine.read?_standsIn
    {line : CategoryLine}
    (hRead : CategoryLine.read? text = some line) :
    StandsIn text line.offset line.body := by
  unfold CategoryLine.read? at hRead
  dsimp only at hRead
  split at hRead
  · cases hRead
  split at hRead
  · cases hRead
  rename_i edit rest hEdit
  cases hRead
  have hRest := TableEdit.read?_suffix hEdit
  exact
    .of_suffix
      ((trimLeft_suffix rest).trans
        (hRest.trans
          ((trimLeft_suffix _).trans
            (List.dropWhile_suffix _))))

/- A line is refused where something in its text stands. -/
theorem Reading.line_faults
    {reading : Reading}
    {line : SourceLine}
    (hText : trimLeft line.text = line.text)
    (hLine : reading.line line = .error e) :
    line.place.Faults reading.digitLimit line.text
      (IsTokenOf reading.digitLimit line.place (trim line.text))
      e := by
  unfold Reading.line at hLine
  dsimp only at hLine
  split at hLine
  · cases hLine
  · split at hLine
    · cases hLine
    rename_i category hCategory
    unfold Reading.categoryLine at hLine
    dsimp only at hLine
    split at hLine
    · rename_i hBody
      cases hLine
      exact
        .of_part (CategoryLine.read?_standsIn hCategory)
          (readCategoryBody_faults hBody)
    · cases hLine
  · unfold Reading.metarule at hLine
    split at hLine
    · rename_i hRead
      cases hLine
      exact Metarule.read_faults hRead
    · cases hLine
    · cases hLine
    · cases hLine
  · unfold Reading.ruleLine at hLine
    split at hLine
    · rename_i hRead
      cases hLine
      exact Rule.read_faults rfl rfl hText hRead
    · cases hLine

/- A token of the rule on a line. -/
def SourceLine.HasToken
    (line : SourceLine)
    (limit : DigitLimit)
    (token : Token) : Prop :=
  IsTokenOf limit line.place line.text token

/- If the lines of a source are refused then one of them is. -/
theorem Reading.lines_faults
    {reading : Reading}
    {source : String}
    (hLines :
      reading.lines (SourceLine.ofSource source) = .error e) :
    ∃ i raw,
      (breakLines [] source.toList)[i]? = some raw ∧
        (SourceLine.ofRaw (i + 1) raw).place.Faults
          reading.digitLimit (SourceLine.ofRaw (i + 1) raw).text
          ((SourceLine.ofRaw (i + 1) raw).HasToken
            reading.digitLimit)
          e := by
  rcases Reading.lines_eq_error hLines with
    ⟨before, line, after, next, hSource, hBefore, hLine⟩
  have hLimit := Reading.digitLimit_lines hBefore
  have hMem : line ∈ SourceLine.ofSource source := by
    rw [hSource]
    simp
  rcases SourceLine.mem_ofRaws hMem with ⟨i, raw, hRaw, rfl⟩
  rw [Nat.add_comm 1 i] at hLine
  have hTrim := SourceLine.trim_ofRaw (i + 1) raw
  have hLeft :
      trimLeft (SourceLine.ofRaw (i + 1) raw).text =
        (SourceLine.ofRaw (i + 1) raw).text := by
    rw [← hTrim, trimLeft_trim]
  have hFaults := Reading.line_faults hLeft hLine
  rw [hLimit, hTrim] at hFaults
  exact ⟨i, raw, hRaw, hFaults⟩

end Diachrony
