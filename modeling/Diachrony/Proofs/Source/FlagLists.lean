import Diachrony.Proofs.Source.Parts
import Diachrony.Source.FlagList

/-
  Flag lists, alone and in longer texts.

  An item changes flags in one of a few ways, and what all
  of them keep holds of the flags that a list spells. What
  flags a list spells does not depend on its place. The
  operators of rules are part of no flag, so that a text
  with one of them is no flag list, whatever stands behind
  it.

  Key definitions include:
    * `Flags.Takes`
    * `operators`
    * `BreaksItem`

  Key theorems include:
    * `FlagItem.apply_takes`
    * `Flags.read_keeps`
    * `Flags.read_place`
    * `Flags.read_broken`
    * `isFlagList_broken`
-/

namespace Diachrony

open Unicode

------------------------------------------------------------
-- Effects
------------------------------------------------------------

/- What one item of a list can make of flags. -/
inductive Flags.Takes
    (flags : Flags) : Flags → Prop
  | persistent :
      Takes flags { flags with persistent := true }
  | passes
      {bound : Nat}
      (hBound : 1 ≤ bound ∧ bound ≤ maxPassesLimit) :
      Takes flags
        { flags with
          persistent := true
          maxPasses := some (bound : Int) }
  | rightToLeft :
      Takes flags { flags with rightToLeft := true }
  | isOptional :
      Takes flags { flags with isOptional := true }
  | optionalClass
      {name : List Char}
      (hName : isName name = true) :
      Takes flags
        { flags with
          isOptional := true
          optionalClass := String.ofList name }
  | ignored :
      Takes flags { flags with ignored := true }
  | ditto
      (item : FlagItem) :
      Takes flags { flags with ditto := item.sign }
  | stop
      (item : FlagItem) :
      Takes flags { flags with stop := item.sign }
  | persist
      {count : Nat}
      (hCount : 1 ≤ count ∧ count ≤ persistAll) :
      Takes flags { flags with persist := (count : Int) }

section Effects

variable {limit : DigitLimit}
variable {place : Place}
variable {item : FlagItem}
variable {flags next : Flags}

theorem FlagItem.number_within
    {name : String}
    {argument : List Char}
    {low high n : Nat}
    (hRead :
      FlagItem.number limit place name argument low high =
        .ok n) :
    low ≤ n ∧ n ≤ high := by
  unfold FlagItem.number at hRead
  split at hRead
  · cases hRead
  split at hRead
  · cases hRead
  split at hRead
  · rename_i hWithin
    cases hRead
    exact hWithin
  · cases hRead

theorem FlagItem.applyRepeat_takes
    (hRead : item.applyRepeat limit place flags = .ok next) :
    flags.Takes next := by
  unfold applyRepeat at hRead
  split at hRead
  · cases hRead
    exact .persistent
  split at hRead
  · cases hRead
  rename_i hNumber
  cases hRead
  exact .passes (FlagItem.number_within hNumber)

theorem FlagItem.applyOptional_takes
    (hRead : item.applyOptional place flags = .ok next) :
    flags.Takes next := by
  unfold applyOptional at hRead
  split at hRead
  · cases hRead
    exact .isOptional
  split at hRead
  · rename_i hName
    cases hRead
    exact .optionalClass hName
  · cases hRead

/- A chance is a class of its own, whatever it is. -/
theorem FlagItem.applyChance_takes
    (hRead : item.applyChance limit place flags = .ok next) :
    flags.Takes next := by
  have hChance : isName "chance".toList = true := by
    decide +kernel
  have hTakes := @Flags.Takes.optionalClass flags _ hChance
  rw [String.ofList_toList] at hTakes
  unfold applyChance at hRead
  dsimp only at hRead
  split at hRead
  · cases hRead
    exact hTakes
  split at hRead
  · cases hRead
  · cases hRead
    exact hTakes

theorem FlagItem.applyPersist_takes
    (hRead : item.applyPersist limit place flags = .ok next) :
    flags.Takes next := by
  unfold applyPersist at hRead
  split at hRead
  · cases hRead
    exact .persist (by decide)
  split at hRead
  · cases hRead
  rename_i hNumber
  cases hRead
  exact .persist (FlagItem.number_within hNumber)

theorem FlagItem.apply_takes
    {name : FlagName}
    (hRead : item.apply limit place flags name = .ok next) :
    flags.Takes next := by
  cases name with
  | repeating => exact item.applyRepeat_takes hRead
  | persistent => exact item.applyRepeat_takes hRead
  | optional => exact item.applyOptional_takes hRead
  | chance => exact item.applyChance_takes hRead
  | persist => exact item.applyPersist_takes hRead
  | rightToLeft =>
      cases hRead
      exact .rightToLeft
  | ignore =>
      cases hRead
      exact .ignored
  | ditto =>
      cases hRead
      exact .ditto item
  | stop =>
      cases hRead
      exact .stop item

theorem readFlagItem_takes
    {text : List Char}
    {result : Flags × List Diagnostic}
    (hRead :
      readFlagItem limit place text flags = .ok result) :
    flags.Takes result.1 := by
  unfold readFlagItem at hRead
  split at hRead
  · cases hRead
  dsimp only at hRead
  split at hRead
  · cases hRead
  split at hRead
  · cases hRead
  rename_i hApply
  cases hRead
  exact FlagItem.apply_takes hApply

section Keeping

variable {kept : Flags → Prop}
variable {result : Flags × List Diagnostic}
variable {line column : Int}
variable
  (hTakes :
    ∀ {flags next : Flags},
      kept flags → flags.Takes next → kept next)

include hTakes

theorem readFlagItems_keeps
    {parts : List (List Char)}
    {diagnostics : List Diagnostic}
    (hFlags : kept flags)
    (hRead :
      readFlagItems limit line column flags diagnostics
        parts = .ok result) :
    kept result.1 := by
  induction parts generalizing column flags diagnostics with
  | nil =>
      cases hRead
      exact hFlags
  | cons part rest ih =>
      unfold readFlagItems at hRead
      dsimp only at hRead
      split at hRead
      · cases hRead
      rename_i hItem
      exact ih (hTakes hFlags (readFlagItem_takes hItem)) hRead

/-
  What the default flags have and every item keeps, the
  flags that a list spells have.
-/
theorem Flags.read_keeps
    {text : List Char}
    (hDefault : kept {})
    (hRead : Flags.read limit text line column = .ok result) :
    kept result.1 :=
  readFlagItems_keeps hTakes hDefault hRead

end Keeping

end Effects

------------------------------------------------------------
-- Places
------------------------------------------------------------

section Places

variable {limit : DigitLimit}
variable {place : Place}
variable {item : FlagItem}
variable {flags next : Flags}

theorem FlagItem.number_place
    {name : String}
    {argument : List Char}
    {low high n : Nat}
    (hRead :
      FlagItem.number limit place name argument low high =
        .ok n)
    (other : Place) :
    FlagItem.number limit other name argument low high =
      .ok n := by
  unfold FlagItem.number at hRead ⊢
  split at hRead
  · cases hRead
  rename_i hNumeral
  rw [if_neg hNumeral]
  split at hRead
  · cases hRead
  split at hRead
  · rename_i hWithin
    cases hRead
    exact if_pos hWithin
  · cases hRead

theorem FlagItem.flag_place
    {name : FlagName}
    (hRead : item.flag place = .ok name)
    (other : Place) :
    item.flag other = .ok name := by
  unfold flag at hRead ⊢
  split at hRead
  · cases hRead
  split at hRead
  · cases hRead
  rename_i hNegated
  rw [if_neg hNegated]
  split at hRead
  · exact hRead
  split at hRead
  · cases hRead
  rename_i hSome
  rw [if_neg hSome]
  split at hRead
  · cases hRead
  rename_i hTakes
  rw [if_neg hTakes]
  exact hRead

theorem FlagItem.apply_place
    {name : FlagName}
    (hRead : item.apply limit place flags name = .ok next)
    (other : Place) :
    item.apply limit other flags name = .ok next := by
  have hRepeat :
      item.applyRepeat limit place flags = .ok next →
        item.applyRepeat limit other flags = .ok next := by
    intro hRead
    unfold applyRepeat at hRead ⊢
    split at hRead
    · exact hRead
    split at hRead
    · cases hRead
    rename_i hNumber
    rw [FlagItem.number_place hNumber other]
    exact hRead
  cases name with
  | repeating => exact hRepeat hRead
  | persistent => exact hRepeat hRead
  | rightToLeft | ignore | ditto | stop => exact hRead
  | optional =>
      change item.applyOptional place flags = .ok next at hRead
      change item.applyOptional other flags = .ok next
      unfold applyOptional at hRead ⊢
      split at hRead
      · exact hRead
      split at hRead
      · rename_i hName
        exact (if_pos hName).trans hRead
      · cases hRead
  | chance =>
      change item.applyChance limit place flags = .ok next
        at hRead
      change item.applyChance limit other flags = .ok next
      unfold applyChance at hRead ⊢
      dsimp only at hRead ⊢
      split at hRead
      · exact hRead
      split at hRead
      · cases hRead
      rename_i hNumber
      rw [FlagItem.number_place hNumber other]
      exact hRead
  | persist =>
      change item.applyPersist limit place flags = .ok next
        at hRead
      change item.applyPersist limit other flags = .ok next
      unfold applyPersist at hRead ⊢
      split at hRead
      · exact hRead
      split at hRead
      · cases hRead
      rename_i hNumber
      rw [FlagItem.number_place hNumber other]
      exact hRead

theorem readFlagItem_place
    {text : List Char}
    {diagnostics : List Diagnostic}
    (hRead :
      readFlagItem limit place text flags =
        .ok (next, diagnostics))
    (other : Place) :
    ∃ more,
      readFlagItem limit other text flags =
        .ok (next, more) := by
  unfold readFlagItem at hRead ⊢
  split at hRead
  · cases hRead
  rename_i hSome
  rw [if_neg hSome]
  dsimp only at hRead ⊢
  split at hRead
  · cases hRead
  rename_i name hName
  split at hRead
  · cases hRead
  rename_i hApply
  cases hRead
  rw [FlagItem.flag_place hName other]
  dsimp only
  rw [FlagItem.apply_place hApply other]
  exact ⟨_, rfl⟩

theorem readFlagItems_place
    {line column otherLine otherColumn : Int}
    {parts : List (List Char)}
    {diagnostics others before : List Diagnostic}
    (hRead :
      readFlagItems limit line column flags diagnostics
        parts = .ok (next, others)) :
    ∃ more,
      readFlagItems limit otherLine otherColumn flags before
        parts = .ok (next, more) := by
  induction parts generalizing column otherColumn flags
      diagnostics before with
  | nil =>
      cases hRead
      exact ⟨before, rfl⟩
  | cons part rest ih =>
      unfold readFlagItems at hRead ⊢
      dsimp only at hRead ⊢
      split at hRead
      · cases hRead
      rename_i hItem
      rcases readFlagItem_place hItem _ with ⟨more, hMore⟩
      rw [hMore]
      exact ih hRead

/- A flag list spells the same flags in every place. -/
theorem Flags.read_place
    {line column : Int}
    {text : List Char}
    {diagnostics : List Diagnostic}
    (hRead :
      Flags.read limit text line column =
        .ok (next, diagnostics))
    (otherLine otherColumn : Int) :
    ∃ more,
      Flags.read limit text otherLine otherColumn =
        .ok (next, more) :=
  readFlagItems_place hRead

end Places

------------------------------------------------------------
-- Operators
------------------------------------------------------------

/- The operators of rules around which blanks are free. -/
def operators : List Char :=
  ['>', '/', '&', ',']

section Operators

variable {limit : DigitLimit}
variable {place : Place}
variable {item : FlagItem}
variable {flags : Flags}
variable {op : Char}
variable {text : List Char}

/- An operator is none of the other characters. -/
theorem ne_of_operator
    {c : Char}
    (hOp : op ∈ operators)
    (hOther : c ∉ operators) :
    op ≠ c := by
  rintro rfl
  exact hOther hOp

theorem isBlank_of_operator
    (hOp : op ∈ operators) :
    isBlank op = false := by
  have hAll : ∀ op ∈ operators, isBlank op = false :=
    forall_mem_of_all (by decide)
  exact hAll op hOp

/- No flag has a name with an operator. -/
theorem FlagName.ofText?_operator
    {written : String}
    (hOp : op ∈ operators)
    (hMem : op ∈ written.toList) :
    FlagName.ofText? written = none := by
  have hAll :
      ∀ op ∈ operators, ∀ name ∈ FlagName.all,
        op ∉ name.text.toList :=
    forall_mem_of_all (by decide)
  refine List.find?_eq_none.mpr fun name hName hText => ?_
  refine hAll op hOp name hName ?_
  rw [decide_eq_true_iff] at hText
  rwa [hText]

/- No number and no class has one. -/
theorem isNumeral_operator
    (hOp : op ∈ operators)
    (hMem : op ∈ text) :
    isNumeral text = false := by
  have hAll : ∀ op ∈ operators, isDecimal op = false :=
    forall_mem_of_all (by decide)
  rw [isNumeral, List.all_eq_false.mpr ⟨op, hMem, ?_⟩,
    Bool.and_false]
  rw [hAll op hOp]
  exact Bool.false_ne_true

theorem isName_operator
    (hOp : op ∈ operators)
    (hMem : op ∈ text) :
    isName text = false := by
  have hAll : ∀ op ∈ operators, isNameCharacter op = false :=
    forall_mem_of_all (by decide)
  rw [isName, List.all_eq_false.mpr ⟨op, hMem, ?_⟩,
    Bool.and_false]
  rw [hAll op hOp]
  exact Bool.false_ne_true

theorem splitColon_operator
    (hOp : op ∈ operators)
    (hMem : op ∈ text) :
    op ∈ (splitColon text).1 ∨
      ∃ argument ∈ (splitColon text).2, op ∈ argument := by
  have hColon : op ≠ ':' := ne_of_operator hOp (by decide)
  rw [splitColon]
  split
  · exact .inl hMem
  rename_i colon argument hRest
  have hParts :=
    List.takeWhile_append_dropWhile
      (p := fun c => decide (c ≠ ':')) (l := text)
  rw [← hParts, hRest] at hMem
  rcases List.mem_append.mp hMem with hName | hLater
  · exact .inl hName
  rcases List.mem_cons.mp hLater with rfl | hArgument
  · have hStop :=
      List.head?_dropWhile_not (fun c => decide (c ≠ ':')) text
    rw [hRest] at hStop
    simp at hStop
    exact absurd hStop hColon
  · exact .inr ⟨argument, rfl, hArgument⟩

/- An operator of an item is in its name or its argument. -/
theorem FlagItem.ofText_operator
    (hOp : op ∈ operators)
    (hMem : op ∈ text) :
    op ∈ (ofText text).name.toList ∨
      ∃ argument ∈ (ofText text).argument, op ∈ argument := by
  have hOther := isBlank_of_operator hOp
  have hSign : op ≠ '!' := ne_of_operator hOp (by decide)
  have hBody :
      op ∈ if text.head? = some '!' then trim (text.drop 1)
        else text := by
    split
    · rename_i hHead
      rcases List.head?_eq_some_iff.mp hHead with ⟨rest, rfl⟩
      rcases List.mem_cons.mp hMem with rfl | hRest
      · exact absurd rfl hSign
      · exact mem_trim hRest hOther
    · exact hMem
  simp only [ofText]
  rcases splitColon_operator hOp hBody with
    hName | ⟨argument, hSome, hArgument⟩
  · rw [String.toList_ofList]
    exact .inl (mem_trim hName hOther)
  · exact
      .inr
        ⟨trim argument, Option.mem_map_of_mem trim hSome,
          mem_trim hArgument hOther⟩

/- An item is malformed or begins with the name of a flag. -/
theorem FlagItem.flag_outcome
    (place : Place)
    (item : FlagItem) :
    (∃ e, item.flag place = .error (.malformed e)) ∨
      ∃ name,
        item.flag place = .ok name ∧
          FlagName.ofText? item.name = some name ∧
          ∀ argument ∈ item.argument,
            name.takesNoArgument = false := by
  unfold flag
  split
  · exact .inl ⟨_, rfl⟩
  rename_i name hName
  split
  · exact .inl ⟨_, rfl⟩
  split
  · rename_i hNone
    refine .inr ⟨name, rfl, hName, fun argument hSome => ?_⟩
    rw [hNone] at hSome
    cases hSome
  split
  · exact .inl ⟨_, rfl⟩
  split
  · exact .inl ⟨_, rfl⟩
  rename_i hTakes
  exact
    .inr
      ⟨name, rfl, hName,
        fun _ _ => Bool.eq_false_iff.mpr hTakes⟩

theorem FlagItem.number_operator
    {name : String}
    {low high : Nat}
    (hOp : op ∈ operators)
    (hMem : op ∈ text) :
    FlagItem.number limit place name text low high =
      place.fail (.notANumber name (String.ofList text)) := by
  rw [FlagItem.number, isNumeral_operator hOp hMem]
  rfl

theorem FlagItem.apply_operator
    {name : FlagName}
    {argument : List Char}
    (hArgument : item.argument = some argument)
    (hOp : op ∈ operators)
    (hMem : op ∈ argument)
    (hTakes : name.takesNoArgument = false) :
    ∃ e,
      item.apply limit place flags name =
        .error (.malformed e) := by
  have hRepeat :
      ∃ e,
        item.applyRepeat limit place flags =
          .error (.malformed e) := by
    rw [applyRepeat, hArgument]
    dsimp only
    rw [number_operator hOp hMem]
    exact ⟨_, rfl⟩
  cases name with
  | repeating => exact hRepeat
  | persistent => exact hRepeat
  | rightToLeft | ignore | ditto | stop => cases hTakes
  | optional =>
      rw [apply, applyOptional, hArgument]
      dsimp only
      rw [isName_operator hOp hMem]
      exact ⟨_, rfl⟩
  | chance =>
      rw [apply, applyChance, hArgument]
      dsimp only
      rw [number_operator hOp hMem]
      exact ⟨_, rfl⟩
  | persist =>
      rw [apply, applyPersist, hArgument]
      dsimp only
      rw [number_operator hOp hMem]
      exact ⟨_, rfl⟩

/- An item with an operator is malformed. -/
theorem readFlagItem_operator
    (hOp : op ∈ operators)
    (hMem : op ∈ text) :
    ∃ e,
      readFlagItem limit place text flags =
        .error (.malformed e) := by
  unfold readFlagItem
  split
  · exact ⟨_, rfl⟩
  dsimp only
  rcases FlagItem.flag_outcome place (FlagItem.ofText text) with
    ⟨e, hError⟩ | ⟨name, hFlag, hKnown, hTakes⟩
  · rw [hError]
    exact ⟨e, rfl⟩
  rw [hFlag]
  dsimp only
  rcases FlagItem.ofText_operator hOp hMem with
    hName | ⟨argument, hSome, hArgument⟩
  · rw [FlagName.ofText?_operator hOp hName] at hKnown
    cases hKnown
  rcases
    @FlagItem.apply_operator limit place _ flags _ _ _ hSome hOp
      hArgument (hTakes argument hSome) with
    ⟨e, hError⟩
  rw [hError]
  exact ⟨e, rfl⟩

/-
  A text with an operator in the item that it continues.
-/
def BreaksItem
    (text : List Char) : Prop :=
  ∀ part, ∃ item items op,
    splitSemicolons part text = item :: items ∧
      op ∈ operators ∧ op ∈ item

theorem splitSemicolons_first
    (part text : List Char) :
    ∃ item items,
      splitSemicolons part text = item :: items ∧
        part ⊆ item := by
  induction text generalizing part with
  | nil =>
      exact
        ⟨part.reverse, [], rfl,
          fun c hMem => List.mem_reverse.mpr hMem⟩
  | cons c rest ih =>
      rw [splitSemicolons]
      split
      · exact
          ⟨part.reverse, _, rfl,
            fun c hMem => List.mem_reverse.mpr hMem⟩
      · rcases ih (c :: part) with ⟨item, items, hSplit, hSub⟩
        exact
          ⟨item, items, hSplit,
            fun d hMem => hSub (List.mem_cons_of_mem c hMem)⟩

theorem BreaksItem.of_operator
    (hOp : op ∈ operators)
    (rest : List Char) :
    BreaksItem (op :: rest) := by
  intro part
  have hOther : op ≠ ';' := ne_of_operator hOp (by decide)
  rcases splitSemicolons_first (op :: part) rest with
    ⟨item, items, hSplit, hSub⟩
  refine ⟨item, items, op, ?_, hOp, hSub List.mem_cons_self⟩
  rw [splitSemicolons, if_neg hOther, hSplit]

theorem BreaksItem.cons
    {c : Char}
    (hBreaks : BreaksItem text)
    (hOther : c ≠ ';') :
    BreaksItem (c :: text) := by
  intro part
  rw [splitSemicolons, if_neg hOther]
  exact hBreaks (c :: part)

/- The parts of a text in front of it are the same. -/
theorem splitSemicolons_append
    (part front : List Char) :
    ∃ parts last, ∀ rest,
      splitSemicolons part (front ++ rest) =
        parts ++ splitSemicolons last rest := by
  induction front generalizing part with
  | nil => exact ⟨[], part, fun _ => rfl⟩
  | cons c front ih =>
      by_cases hSign : c = ';'
      · rcases ih [] with ⟨parts, last, hParts⟩
        refine ⟨part.reverse :: parts, last, fun rest => ?_⟩
        rw [List.cons_append, splitSemicolons, if_pos hSign,
          hParts, List.cons_append]
      · rcases ih (c :: part) with ⟨parts, last, hParts⟩
        refine ⟨parts, last, fun rest => ?_⟩
        rw [List.cons_append, splitSemicolons, if_neg hSign,
          hParts]

/- Two readings that fail the same way, but for the place. -/
inductive BothRefused
    {α : Type} :
    Except ReadError α → Except ReadError α → Prop
  | malformed
      (e other : SourceError) :
      BothRefused (.error (.malformed e))
        (.error (.malformed other))
  | same
      (e : ReadError) :
      BothRefused (.error e) (.error e)

theorem readFlagItems_broken
    {line column : Int}
    {parts items others : List (List Char)}
    {item other : List Char}
    {diagnostics : List Diagnostic}
    {sign : Char}
    (hOp : op ∈ operators)
    (hItem : op ∈ item)
    (hSign : sign ∈ operators)
    (hOther : sign ∈ other) :
    BothRefused
      (readFlagItems limit line column flags diagnostics
        (parts ++ item :: items))
      (readFlagItems limit line column flags diagnostics
        (parts ++ other :: others)) := by
  induction parts generalizing column flags diagnostics with
  | nil =>
      rw [List.nil_append, List.nil_append, readFlagItems,
        readFlagItems]
      rcases
        @readFlagItem_operator limit _ flags op _ hOp
          (mem_trim hItem (isBlank_of_operator hOp)) with
        ⟨e, hError⟩
      rcases
        @readFlagItem_operator limit _ flags sign _ hSign
          (mem_trim hOther (isBlank_of_operator hSign)) with
        ⟨same, hSame⟩
      rw [hError, hSame]
      exact .malformed e same
  | cons part parts ih =>
      rw [List.cons_append, List.cons_append, readFlagItems,
        readFlagItems]
      split
      · exact .same _
      · exact ih

theorem Flags.read_bothRefused
    {line column : Int}
    {front rest other : List Char}
    (hRest : BreaksItem rest)
    (hOther : BreaksItem other) :
    BothRefused (Flags.read limit (front ++ rest) line column)
      (Flags.read limit (front ++ other) line column) := by
  rcases splitSemicolons_append [] front with
    ⟨parts, last, hParts⟩
  rcases hRest last with
    ⟨item, items, op, hItems, hOp, hMem⟩
  rcases hOther last with
    ⟨item', items', sign, hItems', hSign, hMem'⟩
  rw [Flags.read, Flags.read, hParts, hParts, hItems, hItems']
  exact readFlagItems_broken hOp hMem hSign hMem'

/- A text with an operator spells no flags. -/
theorem Flags.read_broken
    {line column : Int}
    {front rest : List Char}
    {result : Flags × List Diagnostic}
    (hRest : BreaksItem rest) :
    Flags.read limit (front ++ rest) line column ≠
      .ok result := by
  intro hRead
  have hRefused :=
    @Flags.read_bothRefused limit line column front _ _ hRest
      hRest
  rw [hRead] at hRefused
  cases hRefused

/- Whatever the operator is and whatever stands behind it. -/
theorem isFlagList_broken
    {front rest other : List Char}
    (hRest : BreaksItem rest)
    (hOther : BreaksItem other) :
    isFlagList limit (front ++ rest) =
      isFlagList limit (front ++ other) := by
  have hRefused :=
    @Flags.read_bothRefused limit 0 0 front _ _ hRest hOther
  unfold isFlagList
  generalize Flags.read limit (front ++ rest) 0 0 = read
    at hRefused
  generalize Flags.read limit (front ++ other) 0 0 = again
    at hRefused
  cases hRefused with
  | malformed => rfl
  | same => rfl

end Operators

end Diachrony
