import Diachrony.Proofs.Source.AsRead
import Diachrony.Proofs.Source.EmptyBrackets
import Diachrony.Proofs.Source.TargetTexts

/-
  Shorthands of rules.

  A rule that begins with a plus sign is read like one that
  substitutes something for nothing, and one that begins
  with a minus sign like one that substitutes nothing for
  something. A deletion misses its flags if only escapes
  stand between them and the gap at its sign, or one behind
  an operator. It cannot end in an escaped blank.

  Key definitions include:
    * `DeletionParts`
    * `HidesFlags`

  Key theorems include:
    * `spellsRule_nothing_iff`
    * `Rule.read_shorthands`
-/

namespace Diachrony

open Unicode

variable {setting : RuleSetting}
variable {limit : DigitLimit}
variable {flags : Flags}
variable {body : RuleBody}
variable {lead targets pause gap rest : List Char}

------------------------------------------------------------
-- Tokens
------------------------------------------------------------

section Tokens

variable {depth : Nat}
variable {middle : List Char}
variable {bares : List (TokenKind × String)}

/- The tokens of a deletion. -/
theorem readsAs_deletion_iff
    (hLead : ∀ c ∈ lead, isBlank c = true)
    (hTargets : depthAfter 0 targets = some 0)
    (hGap : ∀ c ∈ gap, isBlank c = true)
    (hMiddle : gap = [] → middle = []) :
    ReadsAs depth (lead ++ targets ++ gap ++ middle) bares ↔
      ∃ first later,
        ReadsAs depth targets first ∧
          ReadsAs (bracesAfter depth targets) middle later ∧
          bares = first ++ later := by
  have hSeparate := separate_of_gap hGap hMiddle
  rw [List.append_assoc, List.append_assoc,
    readsAs_blanks_iff hLead]
  constructor
  · intro hRead
    rcases hRead.exists_parts hSeparate hTargets with
      ⟨first, later, hFirst, hLater, hBares⟩
    exact
      ⟨first, later, hFirst, (readsAs_blanks_iff hGap).mp hLater,
        hBares⟩
  · rintro ⟨first, later, hFirst, hLater, rfl⟩
    exact
      hFirst.append hSeparate
        ((readsAs_blanks_iff hGap).mpr hLater)

/- The tokens of a substitution by nothing. -/
theorem readsAs_nothing_iff
    (hTargets : depthAfter 0 targets = some 0)
    (hPause : ∀ c ∈ pause, isBlank c = true)
    (hGap : ∀ c ∈ gap, isBlank c = true) :
    ReadsAs depth
        (targets ++ (pause ++ '>' :: ' ' :: '[' :: ']' :: gap) ++
          middle)
        bares ↔
      ∃ first later,
        ReadsAs depth targets first ∧
          ReadsAs (bracesAfter depth targets) middle later ∧
          bares = first ++ (nothingBares ++ later) := by
  have hSeparate :
      Separate
        (pause ++ '>' :: ' ' :: '[' :: ']' :: (gap ++ middle)) := by
    cases pause with
    | nil => exact separate_of_operator (by decide)
    | cons c pause =>
        exact separate_of_blank (hPause c List.mem_cons_self)
  have hBehind : ∀ {depth later},
      ReadsAs depth middle later →
        ReadsAs depth
          (pause ++ '>' :: ' ' :: '[' :: ']' :: (gap ++ middle))
          (nothingBares ++ later) := by
    intro depth later hLater
    rw [readsAs_blanks_iff hPause]
    exact
      .sign rfl (by decide)
        (.blank (by decide)
          (.sign rfl (by decide)
            (.sign rfl (by decide)
              ((readsAs_blanks_iff hGap).mpr hLater))))
  simp only [List.append_assoc, List.cons_append]
  constructor
  · intro hRead
    rcases hRead.exists_parts hSeparate hTargets with
      ⟨first, later, hFirst, hLater, rfl⟩
    have hClosed := hLater.closed 0
    rw [depthAfter_blanks hPause, depthAfter_plain (by decide),
      depthAfter_plain (by decide), depthAfter_plain (by decide),
      depthAfter_plain (by decide), depthAfter_blanks hGap] at hClosed
    rcases ReadsAs.exists_of_closed hClosed with
      ⟨others, hOthers⟩
    exact
      ⟨first, others, hFirst, hOthers,
        by rw [hLater.unique (hBehind hOthers)]⟩
  · rintro ⟨first, later, hFirst, hLater, rfl⟩
    exact hFirst.append hSeparate (hBehind hLater)

end Tokens

------------------------------------------------------------
-- Insertions
------------------------------------------------------------

section Insertions

variable {text bodyText : List Char}
variable {flagText : Option (List Char)}

/- What an insertion writes as its target. -/
def nothingFront : List Char :=
  ['[', ']', ' ', '>']

theorem Divides.of_insertion
    (hDivides : Divides limit text bodyText flagText) :
    Divides limit (nothingFront ++ text)
      (nothingFront ++ bodyText) flagText where
  text_eq := by rw [hDivides.text_eq, List.append_assoc]
  start_eq := by
    have hAlike : EndsAlike [] ['>', ' ', ']', '['] := by
      constructor <;> decide
    have hLength :
        ['>', ' ', ']', '['].length =
          ([] : List Char).length + 4 :=
      rfl
    have hText := hDivides.start_eq
    rw [flagsStart?] at hText
    rw [flagsStart?, nothingFront]
    simp only [List.cons_append, List.nil_append]
    rw [flagsStartFrom_nothing, flagsStartFrom_blank (by decide),
      flagsStartFrom_operator (by decide),
      flagsStartFrom_alike rfl hAlike hLength, hText]
    cases flagText <;> rfl

theorem balances_nothing_front
    {brackets : List Char} :
    balances brackets ('[' :: ']' :: rest) =
      balances brackets rest := by
  rw [balances_plain (by decide), if_pos (by decide),
    balances_plain (by decide), if_neg (by decide)]
  rfl

theorem SpellsRule.of_insertion
    (hSpells : SpellsRule setting .insertion text flags body) :
    SpellsRule setting .substitution (nothingFront ++ text)
      flags body := by
  rcases hSpells with
    ⟨hBalanced, bodyText, flagText, bares, hDivides, hFlags,
      hReads, hStands⟩
  refine
    { balanced := ?_
      divided :=
        ⟨_, flagText, _, hDivides.of_insertion, hFlags, ?_,
          hStands.of_insertion⟩ }
  · rw [← hBalanced]
    simp only [nothingFront, List.cons_append, List.nil_append]
    rw [balances_nothing_front, balances_blank (by decide),
      balances_of_operator (by decide)]
  · exact
      .sign rfl (by decide)
        (.sign rfl (by decide)
          (.blank (by decide) (.sign rfl (by decide) hReads)))

/- An insertion is a substitution of nothing. -/
theorem Rule.read_insertion
    {rule : Rule}
    (hRead : Rule.read setting ('+' :: text) = .ok rule) :
    ∃ long,
      Rule.read setting (nothingFront ++ text) = .ok long ∧
        long.Alike rule := by
  have hOpening : isBlank '[' = false := by decide
  have hShort : trim ('+' :: text) = '+' :: trimRight text :=
    @trim_around '+' [] text (by decide)
  have hLong :
      trim (nothingFront ++ text) =
        nothingFront ++ trimRight text := by
    have hAround :=
      @trim_around '>' ['[', ']', ' '] text (by decide)
    rwa [trimLeft, List.dropWhile_cons_of_neg
      (by simp [hOpening])] at hAround
  rcases SpellsRule.of_read hRead with
    ⟨form, rest, flags, body, hForm, hSpells, hAlike⟩
  rw [hShort] at hForm
  cases hForm
  refine hSpells.of_insertion.read_alike ?_ ?_ hAlike
  · rw [hLong]
    exact List.cons_ne_nil _ _
  · rw [hLong]
    rfl

end Insertions

------------------------------------------------------------
-- Deletions
------------------------------------------------------------

/-
  The parts of a deletion and of a substitution by nothing:
  targets, blanks around them and around empty brackets, and
  what follows. The gap in front of flags must be found.
-/
structure DeletionParts
    (limit : DigitLimit)
    (lead targets pause gap rest : List Char) : Prop where
  lead_blank : ∀ c ∈ lead, isBlank c = true
  lead_ne_nil : lead ≠ []
  pause_blank : ∀ c ∈ pause, isBlank c = true
  gap_blank : ∀ c ∈ gap, isBlank c = true
  gap_before : gap = [] → rest = []
  targets_text : IsTargetText limit targets
  rest_text : IsClauseText rest
  gap_seen :
    mayPrecedeFlags
          ((gapAfter 0 none [] (lead ++ targets)).getD
            (lead ++ targets).reverse) = true ∨
      mayStartFlags (isFlagList limit) rest = .ok false

/- The brackets of both texts are those of the common parts. -/
theorem balances_nothing
    (hLead : ∀ c ∈ lead, isBlank c = true)
    (hTargets : depthAfter 0 targets = some 0)
    (hPause : ∀ c ∈ pause, isBlank c = true) :
    balances [] (lead ++ targets ++ gap ++ rest) =
      balances []
        (targets ++ (pause ++ '>' :: ' ' :: '[' :: ']' :: gap) ++
          rest) := by
  rw [List.append_assoc, List.append_assoc,
    balances_blanks hLead, List.append_assoc]
  refine balances_replace hTargets fun brackets => ?_
  rw [List.append_assoc, balances_blanks hPause, List.cons_append,
    balances_of_operator (by decide), List.cons_append,
    balances_blank (by decide), List.cons_append, List.cons_append,
    balances_nothing_front]

/-
  Another text in front of the same gap spells the same, if
  its body is the same whatever part of the rest belongs to
  it.
-/
theorem SpellsRule.of_front
    {form other : RuleForm}
    {front written : List Char}
    (hFront : EndsInGap setting.digitLimit front rest)
    (hWritten : EndsInGap setting.digitLimit written rest)
    (hBalanced :
      balances [] (front ++ rest) = balances [] (written ++ rest))
    (hBody : ∀ middle (flagText : Option (List Char)) bares,
      rest = middle ++ flagText.getD [] →
        flagsBehindGap setting.digitLimit rest =
            .ok (flagText.map fun _ => 1 + middle.length) →
          ReadsAs 0 (front ++ middle) bares →
            StandsFor setting.grammar form bares body →
              ∃ others,
                ReadsAs 0 (written ++ middle) others ∧
                  StandsFor setting.grammar other others body)
    (hSpells :
      SpellsRule setting form (front ++ rest) flags body) :
    SpellsRule setting other (written ++ rest) flags body := by
  rcases hSpells with
    ⟨hBrackets, bodyText, flagText, bares, hDivides, hFlags,
      hReads, hStands⟩
  rcases (divides_behind_iff hFront).mp hDivides with
    ⟨middle, rfl, hText, hStart⟩
  rcases hBody middle flagText bares hText hStart hReads
      hStands with
    ⟨others, hOthers, hSame⟩
  exact
    { balanced := hBalanced.symm.trans hBrackets
      divided :=
        ⟨_, flagText, others,
          (divides_behind_iff hWritten).mpr
            ⟨middle, rfl, hText, hStart⟩,
          hFlags, hOthers, hSame⟩ }

/-
  The text of a deletion and that of a substitution by
  nothing spell the same.
-/
theorem spellsRule_nothing_iff
    (hParts :
      DeletionParts setting.digitLimit lead targets pause gap
        rest) :
    SpellsRule setting .deletion (lead ++ targets ++ gap ++ rest)
        flags body ↔
      SpellsRule setting .substitution
        (targets ++ (pause ++ '>' :: ' ' :: '[' :: ']' :: gap) ++
          rest)
        flags body := by
  rcases hParts with
    ⟨hLead, hSome, hPause, hGap, hEnd, hTargets, hRest, hSeen⟩
  have hBang : ¬StandsOutside '!' targets :=
    hTargets.unsigned '!' (by decide)
  have hSomeGap : ∀ c ∈ rest.head?, gap ≠ [] := by
    intro c hHead hNone
    rw [hEnd hNone] at hHead
    cases hHead
  have hShort :
      EndsInGap setting.digitLimit (lead ++ targets ++ gap)
        rest :=
    .of_deletion hLead hSome hTargets.closed hBang
      hTargets.flagless hGap
      (fun c hHead => ⟨hSomeGap c hHead, hRest.head hHead⟩)
      hSeen
  have hLong :
      EndsInGap setting.digitLimit
        (targets ++ (pause ++ '>' :: ' ' :: '[' :: ']' :: gap))
        rest :=
    .of_nothing hTargets.closed hBang hTargets.flagless hPause
      hGap hSomeGap
  have hBalanced :=
    @balances_nothing _ _ _ gap rest hLead hTargets.closed
      hPause
  have hBody : ∀ {middle first later}
      {flagText : Option (List Char)},
      rest = middle ++ flagText.getD [] →
        flagsBehindGap setting.digitLimit rest =
            .ok (flagText.map fun _ => 1 + middle.length) →
          ReadsAs 0 targets first →
            ReadsAs (bracesAfter 0 targets) middle later →
              (StandsFor setting.grammar .deletion
                  (first ++ later) body ↔
                StandsFor setting.grammar .substitution
                  (first ++ (nothingBares ++ later)) body) := by
    intro middle first later flagText hText hStart hFirst hLater
    refine
      standsFor_nothing_iff hFirst hTargets.unsigned hLater
        (hRest.middle_head hText hStart) fun hStands => ?_
    refine hRest.arrowless ?_
    rw [hText]
    exact hStands.append _
  have hNone : ∀ {middle} {flagText : Option (List Char)},
      rest = middle ++ flagText.getD [] →
        gap = [] → middle = [] := by
    intro middle flagText hText hNone
    rw [hEnd hNone] at hText
    exact (List.append_eq_nil_iff.mp hText.symm).1
  constructor
  · refine
      .of_front hShort hLong hBalanced
        fun middle flagText bares hText hStart hReads hStands =>
          ?_
    rcases
      (readsAs_deletion_iff hLead hTargets.closed hGap
        (hNone hText)).mp hReads with
      ⟨first, later, hFirst, hLater, rfl⟩
    exact
      ⟨_,
        (readsAs_nothing_iff hTargets.closed hPause hGap).mpr
          ⟨first, later, hFirst, hLater, rfl⟩,
        (hBody hText hStart hFirst hLater).mp hStands⟩
  · refine
      .of_front hLong hShort hBalanced.symm
        fun middle flagText bares hText hStart hReads hStands =>
          ?_
    rcases
      (readsAs_nothing_iff hTargets.closed hPause hGap).mp
        hReads with
      ⟨first, later, hFirst, hLater, rfl⟩
    exact
      ⟨_,
        (readsAs_deletion_iff hLead hTargets.closed hGap
          (hNone hText)).mpr
          ⟨first, later, hFirst, hLater, rfl⟩,
        (hBody hText hStart hFirst hLater).mpr hStands⟩

------------------------------------------------------------
-- Rules
------------------------------------------------------------

section Rules

variable {front text other : List Char}

/- Texts of a deletion and of a substitution by nothing. -/
theorem Rule.read_nothing
    (hText :
      trim text = '-' :: (lead ++ targets ++ gap ++ rest))
    (hOther :
      trim other =
        targets ++ (pause ++ '>' :: ' ' :: '[' :: ']' :: gap) ++
          rest)
    (hParts :
      DeletionParts setting.digitLimit lead targets pause gap
        rest) :
    Rule.ReadAlike setting text other := by
  rcases hParts.targets_text.starts with ⟨c, hHead, hUnsigned⟩
  rcases List.head?_eq_some_iff.mp hHead with ⟨more, rfl⟩
  refine
    .of_spells (by simp [hText]) (by simp [hOther])
      (by rw [hText]; rfl)
      (by
        rw [hOther]
        refine RuleForm.ofText_unsigned fun d hMem => ?_
        cases Option.mem_some.mp hMem
        exact hUnsigned)
      fun flags body => spellsRule_nothing_iff hParts

/-
  Targets behind which flags are missed in a deletion: a gap
  follows an operator or nothing, and only escapes follow
  the gap.
-/
def HidesFlags
    (targets : List Char) : Prop :=
  ∃ front c escapes,
    ' ' :: (targets ++ [' ']) = front ++ c :: escapes ∧
      isBlank c = true ∧ isEscapes escapes = true ∧
      mayPrecedeFlags front.reverse = false

theorem mayPrecedeFlags_of_notHides
    (hClosed : (depthAfter 0 (' ' :: targets)).isSome = true)
    (hHides : ¬HidesFlags targets) :
    mayPrecedeFlags
        ((gapAfter 0 none [] (' ' :: targets)).getD
          (' ' :: targets).reverse) = true := by
  have hBlank : isBlank ' ' = true := by decide
  rw [← Bool.not_eq_false]
  intro hBlocked
  refine hHides ?_
  cases hGap : gapAfter 0 none [] (' ' :: targets) with
  | none =>
      rw [hGap] at hBlocked
      exact ⟨' ' :: targets, ' ', [], rfl, hBlank, rfl, hBlocked⟩
  | some seen =>
      rw [hGap] at hBlocked
      rcases gapAfter_cases hGap hClosed with
        ⟨hOld, -⟩ |
          ⟨front, c, escapes, hText, hHere, hEscapes, -, -, rfl⟩
      · cases hOld
      · rw [List.append_nil] at hBlocked
        refine
          ⟨front, c, escapes ++ [' '], ?_, hHere,
            isEscapes_append hEscapes hBlank, hBlocked⟩
        rw [← List.cons_append, hText, List.append_assoc]
        rfl

theorem trimLeft_minus :
    trimLeft ('-' :: text) = '-' :: text :=
  List.dropWhile_cons_of_neg (by decide)

theorem IsTargetText.trimLeft_ne_nil
    (hTargets : IsTargetText limit (trimLeft targets)) :
    trimLeft targets ≠ [] := by
  rcases hTargets.starts with ⟨c, hHead, -⟩
  intro hNone
  rw [hNone] at hHead
  cases hHead

theorem IsTargetText.trim_ne_nil
    (hTargets : IsTargetText limit (trimLeft targets)) :
    trim targets ≠ [] := by
  rcases hTargets.starts with ⟨c, hHead, -⟩
  rcases List.head?_eq_some_iff.mp hHead with ⟨more, hMore⟩
  have hOther := List.head?_dropWhile_not isBlank targets
  rw [← trimLeft, hMore] at hOther
  rw [trim, hMore]
  have hAround := @trimRight_around c [] more hOther
  rw [List.nil_append] at hAround
  rw [hAround]
  exact List.cons_ne_nil _ _

/- A deletion with clauses or flags. -/
theorem Rule.read_deletion_before
    (hTargets : IsTargetText setting.digitLimit (trimLeft targets))
    (hRest : IsClauseText (trim rest))
    (hSome : trim rest ≠ [])
    (hSeen :
      HidesFlags targets →
        mayStartFlags (isFlagList setting.digitLimit)
            (trim rest) =
          .ok false) :
    Rule.ReadAlike setting
      ('-' :: ' ' :: targets ++ ' ' :: rest)
      (targets ++ ' ' :: '>' :: ' ' :: '[' :: ']' :: ' ' ::
        rest) := by
  have hBlank : isBlank ' ' = true := by decide
  rcases exists_trimLeft targets with ⟨lead, hLead, hText⟩
  rcases exists_trimLeft rest with ⟨gap, hGap, hBehind⟩
  have hWhole : ' ' :: lead ++ trimLeft targets = ' ' :: targets := by
    rw [List.cons_append, ← hText]
  have hLong :=
    @trimLeft_append targets [' ', '>', ' ', '[', ']', ' ']
      hTargets.trimLeft_ne_nil
  have hMinus : trimLeft ('-' :: ' ' :: targets ++ [' ']) ≠ [] := by
    rw [List.cons_append, trimLeft_minus]
    exact List.cons_ne_nil _ _
  have hClosed : (depthAfter 0 (' ' :: targets)).isSome = true := by
    rw [depthAfter_plain (by decide), bracketDepth_of_blank hBlank,
      ← depthAfter_trimLeft, hTargets.closed]
    rfl
  have hParts :
      DeletionParts setting.digitLimit (' ' :: lead)
        (trimLeft targets) [' '] (' ' :: gap) (trim rest) :=
    { lead_blank := List.forall_mem_cons.mpr ⟨hBlank, hLead⟩
      lead_ne_nil := List.cons_ne_nil _ _
      pause_blank := by simp [hBlank]
      gap_blank := List.forall_mem_cons.mpr ⟨hBlank, hGap⟩
      gap_before := nofun
      targets_text := hTargets
      rest_text := hRest
      gap_seen := by
        rw [hWhole]
        by_cases hHides : HidesFlags targets
        · exact .inr (hSeen hHides)
        · exact .inl (mayPrecedeFlags_of_notHides hClosed hHides) }
  refine Rule.read_nothing ?_ ?_ hParts
  · have hTrim := trim_concat hMinus hSome hBehind
    rw [List.cons_append, trimLeft_minus] at hTrim
    rw [hWhole]
    simpa using hTrim
  · have hTrim :=
      @trim_concat (targets ++ [' ', '>', ' ', '[', ']', ' ']) rest
        gap (by simp [hLong]) hSome hBehind
    rw [hLong] at hTrim
    simpa using hTrim

/- A deletion of targets only. -/
theorem Rule.read_deletion_alone
    (hTargets : IsTargetText setting.digitLimit (trimLeft targets))
    (hNone : trim rest = [])
    (hEnd : (depthAfter 0 (trimRight targets)).isSome = true) :
    Rule.ReadAlike setting
      ('-' :: ' ' :: targets ++ ' ' :: rest)
      (targets ++ ' ' :: '>' :: ' ' :: '[' :: ']' :: ' ' ::
        rest) := by
  have hBlank : isBlank ' ' = true := by decide
  have hSome := hTargets.trim_ne_nil
  rcases exists_trimLeft targets with ⟨lead, hLead, hText⟩
  rcases exists_trimRight (trimLeft targets) with
    ⟨tail, hTail, hInner⟩
  have hRest : ∀ c ∈ ' ' :: rest, isBlank c = true := by
    rcases exists_trimLeft rest with ⟨gap, hGap, hBehind⟩
    rcases exists_trimRight (trimLeft rest) with
      ⟨last, hLast, hAll⟩
    rw [← trim, hNone, List.nil_append] at hAll
    rw [hBehind, hAll]
    simpa [hBlank, or_imp, forall_and] using ⟨hGap, hLast⟩
  have hRight : trimRight targets = lead ++ trim targets := by
    conv_lhs => rw [hText]
    exact trimRight_append hSome
  have hLong :=
    @trimLeft_append targets [' ', '>', ' ', '[', ']']
      hTargets.trimLeft_ne_nil
  rw [hRight, depthAfter_blanks hLead] at hEnd
  rw [hInner] at hTargets
  have hParts :
      DeletionParts setting.digitLimit (' ' :: lead)
        (trim targets) (tail ++ [' ']) [] [] :=
    { lead_blank := List.forall_mem_cons.mpr ⟨hBlank, hLead⟩
      lead_ne_nil := List.cons_ne_nil _ _
      pause_blank := by
        simpa [hBlank, or_imp, forall_and] using hTail
      gap_blank := List.forall_mem_nil _
      gap_before := fun _ => rfl
      targets_text := hTargets.of_blanks hTail hSome hEnd
      rest_text := .nil
      gap_seen := .inr rfl }
  refine Rule.read_nothing ?_ ?_ hParts
  · have hShort : trimRight ('-' :: ' ' :: targets) =
        '-' :: ' ' :: trimRight targets :=
      @trimRight_append ['-', ' '] targets
        (by rw [hRight]; simp [hSome])
    rw [trim_concat_blanks
        (by rw [trimLeft_minus]; exact List.cons_ne_nil _ _) hRest,
      trim, trimLeft_minus, hShort, hRight]
    simp [trim]
  · have hNothing :
        trimRight [' ', '>', ' ', '[', ']'] =
          [' ', '>', ' ', '[', ']'] := by
      decide
    have hWhole :
        trim (targets ++ [' ', '>', ' ', '[', ']']) =
          trim targets ++ tail ++ [' ', '>', ' ', '[', ']'] := by
      rw [trim, hLong, trimRight_append (by simp [hNothing]),
        hNothing, hInner]
      rfl
    have hTrim :=
      @trim_concat_blanks (targets ++ [' ', '>', ' ', '[', ']'])
        (' ' :: rest) (by simp [hLong]) hRest
    rw [hWhole] at hTrim
    simpa using hTrim

/-
  A plus sign stands for targets that match nothing and an
  arrow, and a minus sign for an arrow and replacements that
  write nothing. In a deletion, the targets must not hide
  the flags that follow them, and an escaped blank must not
  end the text.
-/
theorem Rule.read_shorthands
    (setting : RuleSetting) :
    (∀ text rule,
        Rule.read setting ('+' :: text) = .ok rule →
          ∃ long,
            Rule.read setting ('[' :: ']' :: ' ' :: '>' :: text) =
                .ok long ∧
              long.Alike rule) ∧
      ∀ targets rest,
        IsTargetText setting.digitLimit (trimLeft targets) →
          IsClauseText (trim rest) →
            (HidesFlags targets →
              mayStartFlags (isFlagList setting.digitLimit)
                  (trim rest) =
                .ok false) →
              (trim rest = [] →
                (depthAfter 0 (trimRight targets)).isSome =
                  true) →
                Rule.ReadAlike setting
                  ('-' :: ' ' :: targets ++ ' ' :: rest)
                  (targets ++ ' ' :: '>' :: ' ' :: '[' :: ']' ::
                    ' ' :: rest) := by
  refine ⟨fun text rule => Rule.read_insertion, ?_⟩
  intro targets rest hTargets hRest hSeen hEnd
  by_cases hNone : trim rest = []
  · exact Rule.read_deletion_alone hTargets hNone (hEnd hNone)
  · exact Rule.read_deletion_before hTargets hRest hNone hSeen

/- The targets of a deletion, and what follows them. -/
def deletedTargets : List Char :=
  "a\\,, b".toList

def deletedRest : List Char :=
  "/ c_d ! e_ rtl".toList

theorem shorthands_read :
    IsTargetText .standard (trimLeft deletedTargets) ∧
      IsClauseText (trim deletedRest) ∧
      (HidesFlags deletedTargets →
        mayStartFlags (isFlagList .standard) (trim deletedRest) =
          .ok false) ∧
      (trim deletedRest = [] →
        (depthAfter 0 (trimRight deletedTargets)).isSome =
          true) ∧
      (∃ rule long,
        Rule.read { table := {} }
              ('-' :: ' ' :: deletedTargets ++
                ' ' :: deletedRest) =
            .ok rule ∧
          Rule.read { table := {} }
              (deletedTargets ++
                ' ' :: '>' :: ' ' :: '[' :: ']' :: ' ' ::
                  deletedRest) =
            .ok long ∧
          long.Alike rule) ∧
      ∃ rule long,
        Rule.read { table := {} } ('+' :: 'x' :: ' ' :: deletedRest) =
            .ok rule ∧
          Rule.read { table := {} }
              ('[' :: ']' :: ' ' :: '>' :: 'x' :: ' ' ::
                deletedRest) =
            .ok long ∧
          long.Alike rule := by
  have hTargets :
      IsTargetText .standard (trimLeft deletedTargets) :=
    .of_signless ⟨'a', by decide +kernel, by decide⟩
      (by decide +kernel)
      (forall_mem_of_all (by decide +kernel)) rfl
  have hRest : IsClauseText (trim deletedRest) := by
    refine ⟨fun hStands => ?_, fun c hMem => ?_⟩
    · have hNone : '>' ∉ trim deletedRest := by decide +kernel
      exact hNone hStands.mem
    · have hHead : (trim deletedRest).head? = some '/' := by
        decide +kernel
      rw [hHead] at hMem
      exact .inl (Option.mem_some.mp hMem).symm
  have hSeen :
      HidesFlags deletedTargets →
        mayStartFlags (isFlagList .standard) (trim deletedRest) =
          .ok false :=
    fun _ => rfl
  have hEnd :
      trim deletedRest = [] →
        (depthAfter 0 (trimRight deletedTargets)).isSome =
          true :=
    fun _ => by decide +kernel
  rcases Rule.read_shorthands { table := {} } with
    ⟨hInserted, hDeleted⟩
  have hAlike :=
    hDeleted deletedTargets deletedRest hTargets hRest hSeen hEnd
  have hShort :
      (Rule.read { table := {} }
        ('-' :: ' ' :: deletedTargets ++
          ' ' :: deletedRest)).isOk = true := by
    decide +kernel
  have hLong :
      (Rule.read { table := {} }
        (deletedTargets ++
          ' ' :: '>' :: ' ' :: '[' :: ']' :: ' ' ::
            deletedRest)).isOk = true := by
    decide +kernel
  have hPlus :
      (Rule.read { table := {} }
        ('+' :: 'x' :: ' ' :: deletedRest)).isOk = true := by
    decide +kernel
  rcases hInserted _ _ (Rule.read_ofText hPlus) with
    ⟨long, hWritten, hSame⟩
  exact
    ⟨hTargets, hRest, hSeen, hEnd,
      ⟨_, _, Rule.read_ofText hShort, Rule.read_ofText hLong,
        hAlike.alike _ _ (Rule.read_ofText hShort)
          (Rule.read_ofText hLong)⟩,
      _, long, Rule.read_ofText hPlus, hWritten, hSame⟩

/- Targets that hide the flags behind them. -/
def hidingTargets : List Char :=
  ['\\', 'a']

/- Targets that end in an escaped blank. -/
def blankTargets : List Char :=
  ['a', '\\', ' ']

/-
  A deletion takes flags behind an escape for a part of its
  target, and an escaped blank at its end is trimmed.
-/
theorem deletion_differs :
    (IsTargetText .standard (trimLeft hidingTargets) ∧
        IsClauseText (trim "rtl".toList) ∧
        ∃ rule long,
          Rule.read { table := {} }
                ('-' :: ' ' :: hidingTargets ++
                  ' ' :: "rtl".toList) =
              .ok rule ∧
            Rule.read { table := {} }
                (hidingTargets ++
                  ' ' :: '>' :: ' ' :: '[' :: ']' :: ' ' ::
                    "rtl".toList) =
              .ok long ∧
            rule.flags ≠ long.flags) ∧
      IsTargetText .standard (trimLeft blankTargets) ∧
        (Rule.read { table := {} }
            ('-' :: ' ' :: blankTargets ++ ' ' :: [])).isOk =
          false ∧
        (Rule.read { table := {} }
            (blankTargets ++
              ' ' :: '>' :: ' ' :: '[' :: ']' :: ' ' :: [])).isOk =
          true := by
  have hRest : IsClauseText (trim "rtl".toList) := by
    refine ⟨fun hStands => ?_, fun c hMem => ?_⟩
    · have hNone : '>' ∉ trim "rtl".toList := by decide +kernel
      exact hNone hStands.mem
    · have hHead : (trim "rtl".toList).head? = some 'r' := by
        decide +kernel
      rw [hHead] at hMem
      cases Option.mem_some.mp hMem
      exact .inr (.inr (by constructor <;> decide))
  refine
    ⟨⟨?_, hRest, _, _, Rule.read_ofText (by decide +kernel),
        Rule.read_ofText (by decide +kernel), by decide +kernel⟩,
      ?_, by decide +kernel, by decide +kernel⟩
  · exact
      .of_signless ⟨'\\', by decide, by decide⟩ (by decide)
        (forall_mem_of_all (by decide)) rfl
  · exact
      .of_signless ⟨'a', by decide, by decide⟩ (by decide)
        (forall_mem_of_all (by decide)) rfl

end Rules

end Diachrony
