import Diachrony.Proofs.Source.Compiled
import Diachrony.Proofs.Source.MemberTexts
import Diachrony.Proofs.Source.Outcomes

/-
  Lines whose brackets are not balanced.

  A text is balanced if the brackets in it that are not
  escaped are nested. A rule whose text is not balanced is
  always refused. The members of a category are not checked
  as a whole: such a line is refused only if one of its
  items contains square brackets that do not enclose it.

  Key definitions include:
    * `Nested`
    * `Balanced`
    * `SourceLine.ListsMembers`

  Key theorems include:
    * `balanced_iff`
    * `checkBalanced_eq_ok_iff`
    * `Reading.line_unbalanced`
    * `Reading.line_listsMembers`
    * `Ruleset.read_unbalanced`
-/

namespace Diachrony

open Unicode

------------------------------------------------------------
-- Nested brackets
------------------------------------------------------------

/- The brackets of a text that are not escaped, in order. -/
def bareBrackets : List Char → List Char
  | [] => []
  | '\\' :: _ :: rest => bareBrackets rest
  | c :: rest =>
      if isOpening c ∨ (openingOf? c).isSome then
        c :: bareBrackets rest
      else
        bareBrackets rest

/-
  Brackets that are nested: none, or one with the bracket
  that closes it, and nested ones inside and behind.
-/
inductive Nested : List Char → Prop
  | none :
      Nested []
  | pair
      {opening closing : Char}
      {inside behind : List Char}
      (hPair : openingOf? closing = some opening)
      (hInside : Nested inside)
      (hBehind : Nested behind) :
      Nested (opening :: (inside ++ closing :: behind))

/- A text whose brackets are nested. -/
def Balanced
    (text : List Char) : Prop :=
  Nested (bareBrackets text)

/-
  Brackets that close those that are open, the innermost one
  first, and are nested between.
-/
inductive Closes : List Char → List Char → Prop
  | none
      {brackets : List Char}
      (hNested : Nested brackets) :
      Closes [] brackets
  | close
      {opening closing : Char}
      {outer inside behind : List Char}
      (hPair : openingOf? closing = some opening)
      (hInside : Nested inside)
      (hBehind : Closes outer behind) :
      Closes (opening :: outer) (inside ++ closing :: behind)

section Nesting

variable {opening closing c : Char}
variable {opened brackets inside behind rest : List Char}

theorem isOpening_of_pair
    (hPair : openingOf? closing = some opening) :
    isOpening opening = true := by
  unfold openingOf? at hPair
  split at hPair <;> cases hPair <;> rfl

theorem not_isOpening_of_pair
    (hPair : openingOf? closing = some opening) :
    isOpening closing = false := by
  unfold openingOf? at hPair
  split at hPair <;> first | rfl | cases hPair

theorem balances_opening
    (hOpening : isOpening c = true) :
    balances opened (c :: rest) =
      balances (c :: opened) rest := by
  have hPlain : c ≠ '\\' := by
    rintro rfl
    cases hOpening
  rw [balances_plain hPlain, if_pos hOpening]

theorem balances_closing
    (hPair : openingOf? closing = some opening) :
    balances (opening :: opened) (closing :: rest) =
      balances opened rest := by
  have hPlain : closing ≠ '\\' := by
    rintro rfl
    cases hPair
  rw [balances_plain hPlain, not_isOpening_of_pair hPair,
    if_neg Bool.false_ne_true, hPair]
  simp

/- Nested brackets leave those that are open as they are. -/
theorem Nested.balances_append
    (hNested : Nested brackets) :
    balances opened (brackets ++ rest) =
      balances opened rest := by
  induction hNested generalizing opened rest with
  | none => rfl
  | pair hPair _ _ ihInside ihBehind =>
      rw [List.cons_append, List.append_assoc,
        List.cons_append,
        balances_opening (isOpening_of_pair hPair), ihInside,
        balances_closing hPair, ihBehind]

/- One more pair in front closes nothing that was open. -/
theorem Closes.pair
    (hPair : openingOf? closing = some opening)
    (hInside : Nested inside)
    (hBehind : Closes opened behind) :
    Closes opened
      (opening :: (inside ++ closing :: behind)) := by
  cases hBehind with
  | none hNested => exact .none (.pair hPair hInside hNested)
  | close hOther hBetween hOuter =>
      have hFirst := Nested.pair hPair hInside hBetween
      have hAll := Closes.close hOther hFirst hOuter
      rwa [List.cons_append, List.append_assoc,
        List.cons_append] at hAll

theorem Closes.of_open
    (hClosing : Closes (opening :: opened) brackets) :
    Closes opened (opening :: brackets) := by
  cases hClosing with
  | close hPair hInside hBehind =>
      exact hBehind.pair hPair hInside

/- The check accepts only what closes all that is open. -/
theorem closes_of_balances
    {text : List Char}
    (hBalances : balances opened text = true) :
    Closes opened (bareBrackets text) := by
  fun_induction balances opened text
  case case1 =>
    obtain rfl := List.isEmpty_iff.mp hBalances
    exact .none .none
  case case2 ih => exact ih hBalances
  case case3 hOther hOpening ih =>
    rw [bareBrackets.eq_3 _ _ hOther, if_pos (Or.inl hOpening)]
    exact (ih hBalances).of_open
  case case4 hOther hOpening hKind ih =>
    rw [bareBrackets.eq_3 _ _ hOther, if_neg (by simp_all)]
    exact ih hBalances
  case case5 hOther hOpening _ _ _ hKind ih =>
    rcases Bool.and_eq_true_iff.mp hBalances with
      ⟨hSame, hRest⟩
    obtain rfl := of_decide_eq_true hSame
    rw [bareBrackets.eq_3 _ _ hOther, if_pos (by simp [hKind])]
    exact Closes.close hKind .none (ih hRest)
  case case6 => cases hBalances

/- It looks at nothing but the brackets. -/
theorem balances_bareBrackets
    (opened text : List Char) :
    balances opened (bareBrackets text) =
      balances opened text := by
  fun_induction bareBrackets text generalizing opened
  case case1 => rfl
  case case2 ih => exact ih opened
  case case3 hOther hBracket ih =>
    rename_i c rest
    have hPlain : c ≠ '\\' := by
      rintro rfl
      revert hBracket
      decide
    simp only [balances_plain hPlain, ih]
  case case4 hOther hBare ih =>
    rw [not_or] at hBare
    rw [balances_cons hOther, if_neg hBare.1,
      Option.not_isSome_iff_eq_none.mp hBare.2]
    exact ih opened

/- A text is balanced if its brackets are nested. -/
theorem balanced_iff
    {text : List Char} :
    Balanced text ↔ balances [] text = true := by
  constructor
  · intro hBalanced
    have hNested : Nested (bareBrackets text) := hBalanced
    have hAll :
        balances [] (bareBrackets text ++ []) = balances [] [] :=
      hNested.balances_append
    rw [List.append_nil, balances_bareBrackets] at hAll
    rw [hAll]
    rfl
  · intro hBalances
    cases closes_of_balances hBalances with
    | none hNested => exact hNested

end Nesting

instance
    (text : List Char) :
    Decidable (Balanced text) :=
  decidable_of_iff (balances [] text = true) balanced_iff.symm

/- The check of a rule accepts just the balanced texts. -/
theorem checkBalanced_eq_ok_iff
    {text : List Char}
    {line column : Int} :
    checkBalanced text line column = .ok () ↔
      Balanced text := by
  rw [balanced_iff]
  exact checkBrackets_eq_ok_iff

------------------------------------------------------------
-- Lines
------------------------------------------------------------

/-
  A category line each item of which either stands in square
  brackets or contains none.
-/
def SourceLine.ListsMembers
    (line : SourceLine) : Prop :=
  line.kind = .category ∧
    ∃ category ∈ CategoryLine.read? line.text,
      ∀ part ∈ splitTop isComma category.body,
        IsMemberText (trim part)

instance
    (line : SourceLine) :
    Decidable line.ListsMembers := by
  unfold SourceLine.ListsMembers
  infer_instance

section Lines

variable {reading : Reading}
variable {line : SourceLine}
variable {fault : SourceError}

/- A text that is not balanced is no rule. -/
theorem Rule.read_not_balanced
    {setting : RuleSetting}
    {text : List Char}
    (hTrim : trim text = text)
    (hUnbalanced : ¬Balanced text) :
    ∃ fault,
      Rule.read setting text = .error (.malformed fault) := by
  unfold Rule.read
  dsimp only
  rw [hTrim]
  split
  · exact ⟨_, rfl⟩
  unfold Rule.readTrimmed
  split
  · exact ⟨_, rfl⟩
  · exact absurd (checkBalanced_eq_ok_iff.mp ‹_›) hUnbalanced

/- A category line can be refused, but only as malformed. -/
theorem Reading.line_category
    {category : CategoryLine}
    (hKind : line.kind = .category)
    (hCategory :
      CategoryLine.read? line.text = some category) :
    (∃ next, reading.line line = .ok next) ∨
      ∃ fault, reading.line line = .error (.malformed fault) := by
  rw [line_of_category hKind hCategory]
  unfold categoryLine
  dsimp only
  split
  · exact Or.inr ⟨_, rfl⟩
  · exact Or.inl ⟨_, rfl⟩

/- It is read if and only if its items are. -/
theorem Reading.line_category_isOk_iff
    {category : CategoryLine}
    (hKind : line.kind = .category)
    (hCategory :
      CategoryLine.read? line.text = some category) :
    (∃ next, reading.line line = .ok next) ↔
      ∀ part ∈ splitTop isComma category.body,
        IsMemberText (trim part) := by
  rw [line_of_category hKind hCategory]
  unfold categoryLine
  dsimp only
  constructor
  · rintro ⟨next, hNext⟩
    split at hNext
    · cases hNext
    · exact readCategoryBody_isOk_iff.mp ⟨_, ‹_›⟩
  · intro hParts
    rcases readCategoryBody_isOk_iff.mpr hParts with
      ⟨⟨members, diagnostics⟩, hBody⟩
    rw [hBody]
    exact ⟨_, rfl⟩

/- A line of items is read, whatever its brackets are. -/
theorem Reading.line_listsMembers
    (hLists : line.ListsMembers) :
    ∃ next, reading.line line = .ok next := by
  rcases hLists with ⟨hKind, category, hCategory, hParts⟩
  exact (line_category_isOk_iff hKind hCategory).mpr hParts

/- All others that are not balanced are refused. -/
theorem Reading.line_unbalanced
    {number : Nat}
    {raw : List Char}
    (hRaw : line = SourceLine.ofRaw number raw)
    (hKind : line.kind = .category ∨ line.kind = .rule)
    (hUnbalanced : ¬Balanced line.text)
    (hOther : ¬line.ListsMembers) :
    ∃ fault, reading.line line = .error (.malformed fault) := by
  subst hRaw
  rcases hKind with hKind | hKind
  · rcases SourceLine.category_ofRaw hKind with
      ⟨category, hCategory⟩
    rcases reading.line_category hKind hCategory with
      hRead | hRefused
    · have hParts :=
        (line_category_isOk_iff hKind hCategory).mp hRead
      exact absurd ⟨hKind, category, hCategory, hParts⟩ hOther
    · exact hRefused
  · unfold Reading.line
    simp only [hKind]
    unfold Reading.ruleLine
    rcases Rule.read_not_balanced (SourceLine.trim_ofRaw number raw)
        hUnbalanced with
      ⟨fault, hRead⟩
    rw [hRead]
    exact ⟨fault, rfl⟩

/- What is wrong with a line is reported on that line. -/
theorem Reading.line_fault_line
    {number : Nat}
    {raw : List Char}
    (hRaw : line = SourceLine.ofRaw number raw)
    (hLine : reading.line line = .error (.malformed fault)) :
    fault.line = line.number := by
  have hText : trimLeft line.text = line.text := by
    rw [hRaw, ← SourceLine.trim_ofRaw, trimLeft_trim]
  cases Reading.line_faults hText hLine with
  | malformed hPoints => exact hPoints.line_eq

end Lines

------------------------------------------------------------
-- Sources
------------------------------------------------------------

/-
  A source is refused for a line that is not balanced, or
  for one before it. Only category lines whose items can be
  read are not refused, however their brackets are nested.
-/
theorem Ruleset.read_unbalanced
    (table : Table)
    (graphs : List String)
    (limit : DigitLimit)
    {source : String}
    {before after : List SourceLine}
    {line : SourceLine}
    (hSource :
      SourceLine.ofSource source = before ++ line :: after)
    (hKind : line.kind = .category ∨ line.kind = .rule)
    (hUnbalanced : ¬Balanced line.text) :
    let start : Reading :=
      { table := table.copy
        graphs := graphs
        digitLimit := limit }
    (¬line.ListsMembers →
        ∃ e,
          Ruleset.read table graphs source limit = .error e ∧
            (start.lines before = .error e ∨
              ∃ fault,
                e = .malformed fault ∧
                  fault.line = line.number)) ∧
      (line.ListsMembers →
        ∀ reading,
          start.lines before = .ok reading →
            ∃ next, reading.line line = .ok next) := by
  intro start
  refine ⟨fun hOther => ?_, fun hLists reading _ =>
    Reading.line_listsMembers hLists⟩
  have hMem : line ∈ SourceLine.ofSource source := by
    rw [hSource]
    simp
  rcases SourceLine.mem_ofRaws hMem with ⟨i, raw, _, hRaw⟩
  unfold Ruleset.read
  rw [hSource, Reading.lines_append]
  cases hBefore : start.lines before with
  | error e =>
      exact ⟨e, rfl, Or.inl rfl⟩
  | ok reading =>
      rcases reading.line_unbalanced hRaw hKind hUnbalanced
          hOther with
        ⟨fault, hLine⟩
      dsimp only
      rw [Reading.lines, hLine]
      exact
        ⟨_, rfl,
          Or.inr ⟨fault, rfl, Reading.line_fault_line hRaw hLine⟩⟩

------------------------------------------------------------
-- A group and a category that are not closed
------------------------------------------------------------

/- A category, and a rule with a group that is not closed. -/
def openGroupSource : String :=
  "V = a, e\na > (b / _[V]"

def vowelLine : SourceLine where
  number := 1
  text := "V = a, e".toList
  column := 0
  kind := .category

def openGroupLine : SourceLine where
  number := 2
  text := "a > (b / _[V]".toList
  column := 0
  kind := .rule

theorem openGroupSource_refused :
    SourceLine.ofSource openGroupSource =
        [vowelLine] ++ openGroupLine :: [] ∧
      ¬Balanced openGroupLine.text ∧
        ¬openGroupLine.ListsMembers ∧
          (¬openGroupLine.ListsMembers →
              ∃ e,
                Ruleset.read {} [] openGroupSource =
                    .error e ∧
                  (Reading.lines
                        { table := Table.copy {}
                          graphs := []
                          digitLimit := .standard }
                        [vowelLine] =
                      .error e ∨
                    ∃ fault,
                      e = .malformed fault ∧ fault.line = 2)) ∧
            (openGroupLine.ListsMembers →
              ∀ reading,
                Reading.lines
                      { table := Table.copy {}
                        graphs := []
                        digitLimit := .standard }
                      [vowelLine] =
                    .ok reading →
                  ∃ next,
                    reading.line openGroupLine = .ok next) := by
  have hSource :
      SourceLine.ofSource openGroupSource =
        [vowelLine] ++ openGroupLine :: [] := by
    decide +kernel
  have hUnbalanced : ¬Balanced openGroupLine.text := by
    decide +kernel
  refine ⟨hSource, hUnbalanced, nofun, ?_⟩
  exact
    Ruleset.read_unbalanced {} [] .standard hSource (Or.inr rfl)
      hUnbalanced

/- A category line with a parenthesis that is not closed. -/
def openCategorySource : String :=
  "V = (a, e"

/-
  No line of it is balanced, but it is read, with a single
  member of five symbols.
-/
theorem openCategorySource_read :
    (SourceLine.ofSource openCategorySource).map
          SourceLine.kind =
        [.category] ∧
      (∀ line ∈ SourceLine.ofSource openCategorySource,
          ¬Balanced line.text) ∧
        ∃ ruleset,
          Ruleset.read {} [] openCategorySource = .ok ruleset ∧
            ruleset.categories.membersOf "V" =
              [Member.ofSymbols ["(", "a", ",", " ", "e"]] := by
  refine ⟨by decide +kernel, by decide +kernel, ?_⟩
  exact
    ⟨Ruleset.ofSource {} [] openCategorySource,
      Ruleset.read_ofSource (by decide +kernel),
      by decide +kernel⟩

end Diachrony
