import Diachrony.Proofs.Source.Faults
import Diachrony.Proofs.Source.NamedTargets

/-
  Flags that are written out.

  A flag list may repeat items, override them and call them
  by other names. The flags that it spells are written out
  with one item for each property that is not the default
  one, and what is written spells the same flags again, with
  nothing to report. Only the default flags are written as
  the empty text, which spells no flags.

  Key definitions include:
    * `Flags.IsSpelled`
    * `FlagItem.text`
    * `FlagItem.Writes`
    * `SpellsItem`
    * `SpellsItems`

  Key theorems include:
    * `Flags.read_isSpelled`
    * `FlagItem.ofText_text`
    * `Flags.IsSpelled.spellsItems`
    * `SpellsItems.read`
    * `Flags.read_text`
    * `Flags.text_eq_empty_iff`
-/

namespace Diachrony

open Unicode

------------------------------------------------------------
-- Spelled flags
------------------------------------------------------------

/- A flag that can be negated is not set, set or negated. -/
def IsSign
    (value : Int) : Prop :=
  value = 0 ∨ value = 1 ∨ value = -1

theorem FlagItem.isSign_sign
    (item : FlagItem) :
    IsSign item.sign := by
  unfold sign
  split
  · exact .inr (.inr rfl)
  · exact .inr (.inl rfl)

/-
  What all flags have that are spelled: numbers inside their
  bounds, a class that can be written, and nothing but the
  default where a property is not written out.
-/
structure Flags.IsSpelled
    (flags : Flags) : Prop where
  limited : flags.PassesLimited
  unlimited :
    flags.persistent = false → flags.maxPasses = none
  named : isName flags.optionalClass.toList = true
  unnamed :
    flags.isOptional = false → flags.optionalClass = "optional"
  ditto : IsSign flags.ditto
  stop : IsSign flags.stop
  persist :
    1 ≤ flags.persist ∧ flags.persist ≤ (persistAll : Int)

namespace Flags.IsSpelled

variable {flags next : Flags}

theorem default :
    Flags.IsSpelled {} where
  limited := Flags.PassesLimited.default
  unlimited _ := rfl
  named := by decide +kernel
  unnamed _ := rfl
  ditto := .inl rfl
  stop := .inl rfl
  persist := by decide

/- Later items add to the flags or override earlier ones. -/
theorem takes
    (hFlags : flags.IsSpelled)
    (hTakes : flags.Takes next) :
    next.IsSpelled := by
  have hLimited := hFlags.limited.takes hTakes
  cases hTakes with
  | persistent =>
      exact
        { hFlags with
          limited := hLimited
          unlimited := nofun }
  | passes =>
      exact
        { hFlags with
          limited := hLimited
          unlimited := nofun }
  | isOptional => exact { hFlags with unnamed := nofun }
  | optionalClass hName =>
      exact
        { hFlags with
          named := by rwa [String.toList_ofList]
          unnamed := nofun }
  | ditto item =>
      exact { hFlags with ditto := item.isSign_sign }
  | stop item =>
      exact { hFlags with stop := item.isSign_sign }
  | persist hCount =>
      exact
        { hFlags with
          persist :=
            ⟨Int.ofNat_le.mpr hCount.1,
              Int.ofNat_le.mpr hCount.2⟩ }
  | rightToLeft => exact { hFlags with }
  | ignored => exact { hFlags with }

end Flags.IsSpelled

theorem Flags.read_isSpelled
    {limit : DigitLimit}
    {text : List Char}
    {line column : Int}
    {result : Flags × List Diagnostic}
    (hRead : Flags.read limit text line column = .ok result) :
    result.1.IsSpelled :=
  Flags.read_keeps Flags.IsSpelled.takes
    Flags.IsSpelled.default hRead

------------------------------------------------------------
-- Numbers
------------------------------------------------------------

section Numbers

variable {limit : DigitLimit}
variable {c : Char}

theorem toNat_of_isDigit
    (hDigit : c.isDigit = true) :
    48 ≤ c.toNat ∧ c.toNat ≤ 57 := by
  simpa [Char.isDigit, UInt32.le_iff_toNat_le] using hDigit

theorem decimalValue?_of_isDigit
    (hDigit : c.isDigit = true) :
    decimalValue? c = some (c.toNat - 48) := by
  rw [decimalValue?, decimalZeros, List.findSome?_cons,
    if_pos (toNat_of_isDigit hDigit)]

theorem isNameCharacter_of_isDigit
    (hDigit : c.isDigit = true) :
    isNameCharacter c = true := by
  have hWithin := toNat_of_isDigit hDigit
  rw [isNameCharacter, nameCharacters, CodeRange.covers,
    if_neg (Nat.not_lt.mpr hWithin.1),
    decide_eq_true hWithin.2, Bool.true_or]

/- The digits of a number spell it. -/
theorem numberFrom?_digits
    {text : List Char}
    (hText : ∀ c ∈ text, c.isDigit = true)
    (value : Nat) :
    numberFrom? value text =
      some (Nat.ofDigitChars 10 text value) := by
  induction text generalizing value with
  | nil => rfl
  | cons c rest ih =>
      rcases List.forall_mem_cons.mp hText with
        ⟨hFirst, hRest⟩
      rw [numberFrom?, decimalValue?_of_isDigit hFirst,
        Nat.ofDigitChars_cons]
      exact ih hRest _

variable (n : Nat)

theorem isDigit_of_mem_toString :
    ∀ c ∈ (toString n).toList, c.isDigit = true := by
  intro c hMem
  rw [Nat.toString_eq_ofList_toDigits, String.toList_ofList]
    at hMem
  exact Nat.isDigit_of_mem_toDigits (by decide) le_rfl hMem

theorem toList_toString_ne_nil :
    (toString n).toList ≠ [] := by
  rw [Nat.toString_eq_ofList_toDigits, String.toList_ofList]
  exact Nat.toDigits_ne_nil

theorem isName_toString :
    isName (toString n).toList = true :=
  isName_iff.mpr
    ⟨toList_toString_ne_nil n, fun c hMem =>
      isNameCharacter_of_isDigit
        (isDigit_of_mem_toString n c hMem)⟩

theorem number?_toString :
    number? (toString n).toList = some n := by
  unfold number?
  rw [List.isEmpty_eq_false_iff.mpr (toList_toString_ne_nil n),
    if_neg Bool.false_ne_true,
    numberFrom?_digits (isDigit_of_mem_toString n),
    Nat.toString_eq_ofList_toDigits, String.toList_ofList,
    Nat.ofDigitChars_ten_toDigits]

theorem isNumeral_toString :
    isNumeral (toString n).toList = true := by
  rw [← number?_isSome, number?_toString]
  rfl

variable {n}

/- A smaller number has no more digits. -/
theorem DigitLimit.admitsNumber_of_le
    {m : Nat}
    (hLimit : limit.admitsNumber m = true)
    (hLe : n ≤ m) :
    limit.admitsNumber n = true := by
  have hLength : (toString n).length ≤ (toString m).length := by
    simp only [Nat.toString_eq_ofList_toDigits,
      String.length_ofList]
    rw [Nat.length_toDigits_le_iff (by decide)
      Nat.length_toDigits_pos]
    apply lt_of_le_of_lt hLe
    rw [← Nat.length_toDigits_le_iff (by decide)
      Nat.length_toDigits_pos]
  cases limit with
  | none => rfl
  | some most =>
      exact
        decide_eq_true
          (hLength.trans (of_decide_eq_true hLimit))

/- A number inside its bounds is one that can be written. -/
theorem exists_nat_within
    {value : Int}
    {high : Nat}
    (hWithin : 1 ≤ value ∧ value ≤ (high : Int)) :
    ∃ n : Nat, value = n ∧ 1 ≤ n ∧ n ≤ high := by
  rcases Int.eq_ofNat_of_zero_le (Int.le_of_lt hWithin.1) with
    ⟨n, rfl⟩
  exact
    ⟨n, rfl, Int.ofNat_le.mp hWithin.1,
      Int.ofNat_le.mp hWithin.2⟩

theorem FlagItem.number_toString
    {name : String}
    {low high : Nat}
    (place : Place)
    (hLimit : limit.admitsNumber n = true)
    (hWithin : low ≤ n ∧ n ≤ high) :
    FlagItem.number limit place name (toString n).toList low
      high = .ok n := by
  have hRead : readNumber limit (toString n).toList = .ok n :=
    readNumber_eq_ok_iff.mpr
      ⟨by rwa [String.length_toList], number?_toString n⟩
  rw [FlagItem.number, isNumeral_toString, hRead]
  exact if_pos hWithin

end Numbers

------------------------------------------------------------
-- Items
------------------------------------------------------------

namespace FlagItem

/- How an item is written without its sign. -/
def body
    (item : FlagItem) : List Char :=
  match item.argument with
  | none => item.name.toList
  | some argument => item.name.toList ++ ':' :: argument

/- How an item is written. -/
def text
    (item : FlagItem) : List Char :=
  if item.negated then '!' :: item.body else item.body

/-
  An item writes a flag, negated only if the flag can be,
  and with an argument only if the flag takes one.
-/
structure Writes
    (item : FlagItem)
    (name : FlagName) : Prop where
  named : item.name = name.text
  negated : item.negated = true → name.negatable = true
  argument :
    ∀ argument ∈ item.argument,
      isName argument = true ∧ name.takesNoArgument = false

end FlagItem

theorem FlagName.ofText?_text
    (name : FlagName) :
    FlagName.ofText? name.text = some name := by
  cases name <;> rfl

theorem FlagName.isName_text
    (name : FlagName) :
    isName name.text.toList = true := by
  cases name <;> decide +kernel

theorem forall_ne_colon
    {text : List Char}
    (hText : ':' ∉ text) :
    ∀ c ∈ text, decide (c ≠ ':') = true := by
  intro c hMem
  rw [decide_eq_true_iff]
  rintro rfl
  exact hText hMem

/- The parts around a colon are those it stands between. -/
theorem splitColon_colon
    {front back : List Char}
    (hFront : ':' ∉ front) :
    splitColon (front ++ ':' :: back) = (front, some back) := by
  have hOther := forall_ne_colon hFront
  rw [splitColon, List.dropWhile_append_of_pos hOther,
    List.takeWhile_append_of_pos hOther]
  simp

theorem splitColon_plain
    {text : List Char}
    (hText : ':' ∉ text) :
    splitColon text = (text, none) := by
  rw [splitColon,
    List.dropWhile_eq_nil_iff.mpr (forall_ne_colon hText)]

/- A character that is no blank and no semicolon. -/
def IsSolid
    (c : Char) : Prop :=
  isBlank c = false ∧ c ≠ ';'

theorem isSolid_of_isName
    {text : List Char}
    (hName : isName text = true) :
    ∀ c ∈ text, IsSolid c := by
  intro c hMem
  have hCharacter := (isName_iff.mp hName).2 c hMem
  refine ⟨not_isBlank_of_isNameCharacter hCharacter, ?_⟩
  rintro rfl
  exact absurd hCharacter (by decide)

theorem not_mem_colon_of_isName
    {text : List Char}
    (hName : isName text = true) :
    ':' ∉ text := by
  intro hMem
  exact absurd ((isName_iff.mp hName).2 ':' hMem) (by decide)

/- A text of solid characters has no blanks to lose. -/
theorem trim_of_isSolid
    {text : List Char}
    (hText : ∀ c ∈ text, IsSolid c) :
    trim text = text := by
  have hTrim :=
    @trim_solid text [] [] (fun c hMem => (hText c hMem).1)
      (List.forall_mem_nil _) (List.forall_mem_nil _)
  rwa [List.append_nil, List.nil_append] at hTrim

namespace FlagItem.Writes

variable {limit : DigitLimit}
variable {item : FlagItem}
variable {name : FlagName}
variable {flags next : Flags}
variable (hItem : item.Writes name)

include hItem

theorem isName_name :
    isName item.name.toList = true := by
  rw [hItem.named]
  exact name.isName_text

theorem isSolid_body :
    ∀ c ∈ item.body, IsSolid c := by
  have hName := isSolid_of_isName hItem.isName_name
  unfold body
  split
  · exact hName
  · rename_i argument hArgument
    rw [List.forall_mem_append, List.forall_mem_cons]
    exact
      ⟨hName, ⟨by decide, by decide⟩,
        isSolid_of_isName (hItem.argument _ hArgument).1⟩

theorem isSolid_text :
    ∀ c ∈ item.text, IsSolid c := by
  unfold text
  split
  · exact
      List.forall_mem_cons.mpr
        ⟨⟨by decide, by decide⟩, hItem.isSolid_body⟩
  · exact hItem.isSolid_body

theorem splitColon_body :
    splitColon item.body = (item.name.toList, item.argument) := by
  have hColon := not_mem_colon_of_isName hItem.isName_name
  unfold body
  split
  · rename_i hNone
    rw [splitColon_plain hColon, hNone]
  · rename_i argument hSome
    rw [splitColon_colon hColon, hSome]

/- A body begins with the name. -/
theorem exists_body :
    ∃ c rest,
      item.body = c :: rest ∧ isNameCharacter c = true := by
  rcases isName_iff.mp hItem.isName_name with ⟨hSome, hName⟩
  rcases List.exists_cons_of_ne_nil hSome with
    ⟨c, rest, hCons⟩
  rw [hCons] at hName
  have hFirst := hName c List.mem_cons_self
  unfold body
  split
  · exact ⟨c, rest, hCons, hFirst⟩
  · rename_i argument hSome
    refine ⟨c, rest ++ ':' :: argument, ?_, hFirst⟩
    rw [hCons, List.cons_append]

/- It does not begin with a sign. -/
theorem head?_body :
    item.body.head? ≠ some '!' := by
  rcases hItem.exists_body with ⟨c, rest, hBody, hFirst⟩
  rw [hBody, List.head?_cons, Ne, Option.some_inj]
  exact ne_of_isNameCharacter hFirst (by decide)

theorem text_ne_nil :
    item.text ≠ [] := by
  rcases hItem.exists_body with ⟨c, rest, hBody, _⟩
  unfold text
  rw [hBody]
  split
  · exact List.cons_ne_nil _ _
  · exact List.cons_ne_nil _ _

/- The parts of an item that is written are its own. -/
theorem ofText_text :
    FlagItem.ofText item.text = item := by
  have hBody :
      (if item.text.head? = some '!' then
        trim (item.text.drop 1) else item.text) = item.body ∧
        decide (item.text.head? = some '!') = item.negated := by
    unfold text
    cases hNegated : item.negated with
    | true =>
        simpa using trim_of_isSolid hItem.isSolid_body
    | false =>
        have hHead := hItem.head?_body
        simp [hHead]
  have hArgument : item.argument.map trim = item.argument := by
    cases hSome : item.argument with
    | none => rfl
    | some argument =>
        exact
          congrArg some
            (trim_of_isSolid
              (isSolid_of_isName (hItem.argument _ hSome).1))
  simp only [ofText, hBody, hItem.splitColon_body, hArgument,
    trim_of_isSolid (isSolid_of_isName hItem.isName_name),
    String.ofList_toList]

theorem flag_eq
    (place : Place) :
    item.flag place = .ok name := by
  have hSign : (item.negated && !name.negatable) = false := by
    cases hNegated : item.negated with
    | false => rfl
    | true =>
        rw [hItem.negated hNegated]
        rfl
  rw [flag, hItem.named, FlagName.ofText?_text]
  dsimp only
  rw [hSign, if_neg Bool.false_ne_true]
  split
  · rfl
  · rename_i argument hSome
    rcases hItem.argument argument hSome with ⟨hName, hTakes⟩
    rw [List.isEmpty_eq_false_iff.mpr (isName_iff.mp hName).1,
      if_neg Bool.false_ne_true, hTakes,
      if_neg Bool.false_ne_true]

/- What is written is read and applied. -/
theorem readFlagItem_text
    {place : Place}
    (hApply : item.apply limit place flags name = .ok next) :
    readFlagItem limit place item.text flags =
      .ok (next, name.diagnostics place) := by
  unfold readFlagItem
  rw [List.isEmpty_eq_false_iff.mpr hItem.text_ne_nil,
    if_neg Bool.false_ne_true]
  dsimp only
  rw [hItem.ofText_text, hItem.flag_eq]
  dsimp only
  rw [hApply]

end FlagItem.Writes

------------------------------------------------------------
-- Lists of items
------------------------------------------------------------

/- A text that spells one item, wherever it stands. -/
structure SpellsItem
    (limit : DigitLimit)
    (text : String)
    (flags next : Flags) : Prop where
  solid : ∀ c ∈ text.toList, IsSolid c
  reads :
    ∀ place,
      readFlagItem limit place text.toList flags = .ok (next, [])

/- Texts that spell items which are applied one by one. -/
inductive SpellsItems
    (limit : DigitLimit) :
    List String → Flags → Flags → Prop
  | nil
      (flags : Flags) :
      SpellsItems limit [] flags flags
  | cons
      {text : String}
      {texts : List String}
      {flags next last : Flags}
      (hItem : SpellsItem limit text flags next)
      (hRest : SpellsItems limit texts next last) :
      SpellsItems limit (text :: texts) flags last

section Lists

variable {limit : DigitLimit}
variable {item : FlagItem}
variable {name : FlagName}
variable {text : String}
variable {texts others : List String}
variable {flags next last : Flags}

/- No chance is ever written, so that nothing is reported. -/
theorem SpellsItem.of_writes
    (hItem : item.Writes name)
    (hText : text.toList = item.text)
    (hQuiet : name ≠ .chance)
    (hApply :
      ∀ place, item.apply limit place flags name = .ok next) :
    SpellsItem limit text flags next where
  solid := by
    rw [hText]
    exact hItem.isSolid_text
  reads := by
    intro place
    have hNone : name.diagnostics place = [] := by
      cases name with
      | chance => exact absurd rfl hQuiet
      | _ => rfl
    rw [hText, hItem.readFlagItem_text (hApply place), hNone]

theorem SpellsItem.toList_ne_nil
    (hItem : SpellsItem limit text flags next) :
    text.toList ≠ [] := by
  intro hNil
  have hRead := hItem.reads ⟨0, 0⟩
  rw [hNil] at hRead
  cases hRead

namespace SpellsItems

theorem single
    (hItem : SpellsItem limit text flags next) :
    SpellsItems limit [text] flags next :=
  .cons hItem (.nil next)

theorem append
    (hTexts : SpellsItems limit texts flags next)
    (hOthers : SpellsItems limit others next last) :
    SpellsItems limit (texts ++ others) flags last := by
  induction hTexts with
  | nil => exact hOthers
  | cons hItem _ ih => exact .cons hItem (ih hOthers)

/- Blanks around the items make no difference. -/
theorem read_parts
    (hTexts : SpellsItems limit texts flags last)
    {line column : Int}
    {diagnostics : List Diagnostic}
    {parts : List (List Char)}
    (hParts : parts.map trim = texts.map String.toList) :
    readFlagItems limit line column flags diagnostics parts =
      .ok (last, diagnostics) := by
  induction hTexts generalizing column parts with
  | nil =>
      rw [List.map_nil, List.map_eq_nil_iff] at hParts
      rw [hParts]
      rfl
  | cons hItem _ ih =>
      rw [List.map_cons, List.map_eq_cons_iff] at hParts
      rcases hParts with ⟨part, rest, rfl, hPart, hRest⟩
      rw [readFlagItems, hPart, hItem.reads]
      dsimp only
      rw [List.append_nil]
      exact ih hRest

end SpellsItems

/- What stands in front of a semicolon is a part of its own. -/
theorem splitSemicolons_plain
    {front : List Char}
    (hFront : ∀ c ∈ front, IsSolid c)
    (part rest : List Char) :
    splitSemicolons part (front ++ rest) =
      splitSemicolons (front.reverse ++ part) rest := by
  induction front generalizing part with
  | nil => rfl
  | cons c front ih =>
      rcases List.forall_mem_cons.mp hFront with
        ⟨hFirst, hLater⟩
      rw [List.cons_append, splitSemicolons, if_neg hFirst.2,
        ih hLater, List.reverse_cons, List.append_assoc]
      rfl

theorem splitSemicolons_intercalate
    {front : List Char}
    {items : List (List Char)}
    (hItems : ∀ item ∈ front :: items, ∀ c ∈ item, IsSolid c)
    (part : List Char) :
    splitSemicolons part
        ([';', ' '].intercalate (front :: items)) =
      (part.reverse ++ front) :: items.map (' ' :: ·) := by
  induction items generalizing front part with
  | nil =>
      rcases List.forall_mem_cons.mp hItems with ⟨hFront, _⟩
      rw [List.intercalate_singleton,
        ← List.append_nil front, splitSemicolons_plain hFront,
        splitSemicolons]
      simp
  | cons item items ih =>
      rcases List.forall_mem_cons.mp hItems with
        ⟨hFront, hRest⟩
      rw [List.intercalate_cons_cons, List.append_assoc,
        splitSemicolons_plain hFront, List.cons_append,
        splitSemicolons, if_pos rfl, List.singleton_append,
        splitSemicolons, if_neg (by decide), ih hRest]
      simp

theorem SpellsItems.isSolid
    (hTexts : SpellsItems limit texts flags last) :
    ∀ text ∈ texts, ∀ c ∈ text.toList, IsSolid c := by
  induction hTexts with
  | nil => exact List.forall_mem_nil _
  | cons hItem _ ih =>
      exact List.forall_mem_cons.mpr ⟨hItem.solid, ih⟩

/- Items between semicolons are read one after the other. -/
theorem SpellsItems.read
    (hTexts : SpellsItems limit texts {} last)
    (hSome : texts ≠ [])
    (line column : Int) :
    Flags.read limit ("; ".intercalate texts).toList line
      column = .ok (last, []) := by
  rcases List.exists_cons_of_ne_nil hSome with
    ⟨text, rest, rfl⟩
  have hSolid : ∀ item ∈ (text :: rest).map String.toList,
      ∀ c ∈ item, IsSolid c :=
    List.forall_mem_map.mpr hTexts.isSolid
  rw [List.map_cons] at hSolid
  rw [Flags.read, String.toList_intercalate, List.map_cons]
  apply hTexts.read_parts
  rw [show "; ".toList = [';', ' '] from rfl,
    splitSemicolons_intercalate hSolid]
  rcases List.forall_mem_cons.mp hSolid with ⟨hText, hRest⟩
  have hTrim : ∀ item ∈ rest.map String.toList,
      trim (' ' :: item) = item := by
    intro item hItem
    have hBlank :=
      @trim_solid item [' '] []
        (fun c hMem => (hRest item hItem c hMem).1)
        (List.forall_mem_singleton.mpr (by decide))
        (List.forall_mem_nil _)
    rwa [List.append_nil] at hBlank
  rw [List.map_cons, List.map_map, List.map_cons,
    List.reverse_nil, List.nil_append, trim_of_isSolid hText]
  exact
    congrArg (text.toList :: ·)
      ((List.map_congr_left hTrim).trans (List.map_id _))

end Lists

------------------------------------------------------------
-- Written flags
------------------------------------------------------------

section Written

variable {limit : DigitLimit}
variable {name : FlagName}
variable {flags next : Flags}

/- A flag that is written with its name or with a sign. -/
theorem SpellsItem.of_name
    (name : FlagName)
    (negated : Bool)
    {text : String}
    (hQuiet : name ≠ .chance)
    (hNegated : negated = true → name.negatable = true)
    (hText :
      text.toList =
        if negated then '!' :: name.text.toList
        else name.text.toList)
    (hApply :
      ∀ place,
        (FlagItem.mk negated name.text none).apply limit place
          flags name = .ok next) :
    SpellsItem limit text flags next := by
  have hItem : (FlagItem.mk negated name.text none).Writes name :=
    { named := rfl
      negated := hNegated
      argument := fun other hOther =>
        absurd hOther (Option.not_mem_none other) }
  exact SpellsItem.of_writes hItem hText hQuiet hApply

/- A flag that is written with an argument. -/
theorem SpellsItem.of_argument
    (name : FlagName)
    (argument : String)
    {text : String}
    (hQuiet : name ≠ .chance)
    (hTakes : name.takesNoArgument = false)
    (hArgument : isName argument.toList = true)
    (hText :
      text.toList =
        name.text.toList ++ ':' :: argument.toList)
    (hApply :
      ∀ place,
        (FlagItem.mk false name.text
          (some argument.toList)).apply limit place flags
            name = .ok next) :
    SpellsItem limit text flags next := by
  have hItem :
      (FlagItem.mk false name.text
        (some argument.toList)).Writes name :=
    { named := rfl
      negated := nofun
      argument := by
        rintro _ ⟨⟩
        exact ⟨hArgument, hTakes⟩ }
  exact SpellsItem.of_writes hItem hText hQuiet hApply

namespace SpellsItems

/- A flag that is set is written, and nothing if it is not. -/
theorem of_switch
    (limit : DigitLimit)
    (name : FlagName)
    (set : Bool → Flags)
    (value : Bool)
    (hQuiet : name ≠ .chance)
    (hApply :
      ∀ place,
        (FlagItem.mk false name.text none).apply limit place
          (set false) name = .ok (set true)) :
    SpellsItems limit (if value then [name.text] else [])
      (set false) (set value) := by
  cases value with
  | false => exact .nil _
  | true =>
      apply single
      exact SpellsItem.of_name name false hQuiet nofun rfl hApply

/- A sign is written, and nothing if there is none. -/
theorem of_signed
    (limit : DigitLimit)
    (name : FlagName)
    (set : Int → Flags)
    {value : Int}
    (hNegatable : name.negatable = true)
    (hSign : IsSign value)
    (hApply :
      ∀ place (item : FlagItem),
        item.apply limit place (set 0) name =
          .ok (set item.sign)) :
    SpellsItems limit (Flags.signedText name.text value)
      (set 0) (set value) := by
  have hQuiet : name ≠ .chance := by
    rintro rfl
    cases hNegatable
  rcases hSign with rfl | rfl | rfl
  · exact .nil _
  · apply single
    exact
      SpellsItem.of_name name false hQuiet nofun rfl
        fun place => hApply place _
  · apply single
    exact
      SpellsItem.of_name name true hQuiet (fun _ => hNegatable)
        String.toList_append fun place => hApply place _

/- A class is written, even if it is the default one. -/
theorem of_optional
    (limit : DigitLimit)
    (flags : Flags)
    (hNamed : isName flags.optionalClass.toList = true)
    (hUnnamed :
      flags.isOptional = false →
        flags.optionalClass = "optional") :
    SpellsItems limit
      (if flags.isOptional then
        ["optional:" ++ flags.optionalClass]
      else [])
      { flags with
        isOptional := false
        optionalClass := "optional" }
      flags := by
  cases flags with
  | mk _ _ isOptional _ _ name =>
      cases isOptional with
      | false =>
          obtain rfl := hUnnamed rfl
          exact .nil _
      | true =>
          apply single
          refine
            SpellsItem.of_argument .optional name nofun rfl
              hNamed String.toList_append ?_
          intro place
          rw [FlagItem.apply, FlagItem.applyOptional]
          dsimp only
          rw [hNamed, if_pos rfl, String.ofList_toList]

section Numbers

variable (hLimit : limit.admitsNumber persistAll = true)

include hLimit

theorem of_persistent
    (flags : Flags)
    (hLimited : flags.PassesLimited)
    (hUnlimited :
      flags.persistent = false → flags.maxPasses = none) :
    SpellsItems limit
      (if flags.persistent then
        match flags.maxPasses with
        | none => ["repeat"]
        | some bound => ["repeat:" ++ toString bound]
      else [])
      { flags with persistent := false, maxPasses := none }
      flags := by
  cases flags with
  | mk persistent _ _ _ maxPasses =>
      cases persistent with
      | false =>
          obtain rfl := hUnlimited rfl
          exact .nil _
      | true =>
          cases maxPasses with
          | none =>
              apply single
              exact
                SpellsItem.of_name .repeating false nofun nofun
                  rfl fun _ => rfl
          | some bound =>
              rcases exists_nat_within (hLimited bound rfl) with
                ⟨n, rfl, hWithin⟩
              have hNumber :=
                DigitLimit.admitsNumber_of_le hLimit
                  (hWithin.2.trans (by decide))
              apply single
              refine
                SpellsItem.of_argument .repeating (toString n)
                  nofun rfl (isName_toString n)
                  String.toList_append ?_
              intro place
              rw [FlagItem.apply, FlagItem.applyRepeat]
              dsimp only
              rw [FlagItem.number_toString place hNumber hWithin]

/- All rules are a number of rules like any other. -/
theorem of_persist
    (flags : Flags)
    (hCount :
      1 ≤ flags.persist ∧ flags.persist ≤ (persistAll : Int)) :
    SpellsItems limit
      (if 1 < flags.persist then
        ["persist:" ++ toString flags.persist]
      else [])
      { flags with persist := 1 } flags := by
  cases flags with
  | mk _ _ _ _ _ _ _ _ persist =>
      rcases exists_nat_within hCount with ⟨n, rfl, hWithin⟩
      have hNumber :=
        DigitLimit.admitsNumber_of_le hLimit hWithin.2
      split
      · apply single
        refine
          SpellsItem.of_argument .persist (toString n) nofun
            rfl (isName_toString n) String.toList_append ?_
        intro place
        rw [FlagItem.apply, FlagItem.applyPersist]
        dsimp only
        rw [FlagItem.number_toString place hNumber hWithin]
      · rename_i hOne
        change ¬1 < (n : Int) at hOne
        obtain rfl : n = 1 := by omega
        exact .nil _

end Numbers

end SpellsItems

/- What is written of spelled flags spells them. -/
theorem Flags.IsSpelled.spellsItems
    (hFlags : flags.IsSpelled)
    (hLimit : limit.admitsNumber persistAll = true) :
    SpellsItems limit flags.items {} flags := by
  -- Each item is added to the flags without it and those
  -- that are written behind it.
  let upToStop := { flags with persist := 1 }
  let upToDitto := { upToStop with stop := 0 }
  let upToIgnored := { upToDitto with ditto := 0 }
  let upToOptional := { upToIgnored with ignored := false }
  let upToDirection :=
    { upToOptional with
      isOptional := false
      optionalClass := "optional" }
  let upToPasses := { upToDirection with rightToLeft := false }
  have hPasses :=
    SpellsItems.of_persistent hLimit upToPasses hFlags.limited
      hFlags.unlimited
  have hDirection :=
    SpellsItems.of_switch limit .rightToLeft
      (fun value => { upToDirection with rightToLeft := value })
      flags.rightToLeft nofun fun _ => rfl
  have hOptional :=
    SpellsItems.of_optional limit upToOptional hFlags.named
      hFlags.unnamed
  have hIgnored :=
    SpellsItems.of_switch limit .ignore
      (fun value => { upToIgnored with ignored := value })
      flags.ignored nofun fun _ => rfl
  have hDitto :=
    SpellsItems.of_signed limit .ditto
      (fun value => { upToDitto with ditto := value })
      rfl hFlags.ditto fun _ _ => rfl
  have hStop :=
    SpellsItems.of_signed limit .stop
      (fun value => { upToStop with stop := value })
      rfl hFlags.stop fun _ _ => rfl
  have hPersist :=
    SpellsItems.of_persist hLimit flags hFlags.persist
  exact
    (((((hPasses.append hDirection).append hOptional).append
      hIgnored).append hDitto).append hStop).append hPersist

/- No item is empty, and so is no text with an item. -/
theorem SpellsItems.eq_nil_of_text
    {texts : List String}
    (hTexts : SpellsItems limit texts flags next)
    (hEmpty : "; ".intercalate texts = "") :
    texts = [] := by
  cases hTexts with
  | nil => rfl
  | @cons text rest _ _ _ hItem _ =>
      refine absurd ?_ hItem.toList_ne_nil
      have hNil := congrArg String.toList hEmpty
      rw [String.toList_intercalate, List.map_cons] at hNil
      cases rest with
      | nil =>
          rwa [List.map_nil, List.intercalate_singleton] at hNil
      | cons other rest =>
          rw [List.map_cons, List.intercalate_cons_cons,
            List.append_assoc] at hNil
          exact (List.append_eq_nil_iff.mp hNil).1

/- The default flags are the only ones that leave no text. -/
theorem Flags.text_eq_empty_iff
    {text : List Char}
    {line column : Int}
    {diagnostics : List Diagnostic}
    (hRead :
      Flags.read limit text line column =
        .ok (flags, diagnostics)) :
    flags.text = "" ↔ flags = {} := by
  constructor
  · intro hEmpty
    have hItems : SpellsItems none flags.items {} flags :=
      (Flags.read_isSpelled hRead).spellsItems rfl
    have hNil := hItems.eq_nil_of_text hEmpty
    rw [hNil] at hItems
    cases hItems
    rfl
  · rintro rfl
    rfl

/-
  The flags that a list spells are spelled by what is
  written of them, wherever it stands, if numbers may have
  as many digits as the largest one that a flag can have.
-/
theorem Flags.read_text
    {text : List Char}
    {line column : Int}
    {diagnostics : List Diagnostic}
    (hLimit : limit.admitsNumber persistAll = true)
    (hRead :
      Flags.read limit text line column =
        .ok (flags, diagnostics))
    (hSome : flags.text ≠ "")
    (otherLine otherColumn : Int) :
    Flags.read limit flags.text.toList otherLine otherColumn =
      .ok (flags, []) := by
  have hItems :=
    (Flags.read_isSpelled hRead).spellsItems hLimit
  apply hItems.read
  intro hNil
  apply hSome
  rw [Flags.text, hNil]
  rfl

/-
  A class that overrides a chance, a bound of other digits
  and a count that is not written out.
-/
theorem Flags.overridden_read_text :
    ∃ flags diagnostics,
      Flags.read .standard
        "chance;persistent: ٠٥ ;!stop;persist;optional:ä".toList
        0 0 = .ok (flags, diagnostics) ∧
        flags.text =
          "repeat:5; optional:ä; !stop; persist:1000000" ∧
        Flags.read .standard flags.text.toList 0 0 =
          .ok (flags, []) := by
  let flags : Flags :=
    { persistent := true
      maxPasses := some 5
      isOptional := true
      optionalClass := "ä"
      stop := -1
      persist := 1000000 }
  have hRead :
      Flags.read .standard
        "chance;persistent: ٠٥ ;!stop;persist;optional:ä".toList
        0 0 = .ok (flags, FlagName.diagnostics ⟨0, 0⟩ .chance) :=
    rfl
  have hText :
      flags.text =
        "repeat:5; optional:ä; !stop; persist:1000000" := by
    decide
  have hSome : flags.text ≠ "" := by
    rw [hText]
    decide
  exact
    ⟨flags, _, hRead, hText,
      Flags.read_text (by decide) hRead hSome 0 0⟩

end Written

end Diachrony
