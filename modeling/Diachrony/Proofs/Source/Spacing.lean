import Diachrony.Proofs.Source.Operators
import Diachrony.Proofs.Source.Spellings

/-
  Blanks around operators.

  A blank next to an operator of a rule changes neither the
  tokens nor the brackets of the text. A blank behind it
  makes a gap, and the search for flags must not take it for
  the one before the flags. It does so if an escaped
  backslash stands directly before the operator. It loses
  the flags if only escapes stand between the operator and
  them. A blank before the operator parts it from such a
  backslash, and loses the flags only if there is one and
  only escapes stand between the operator and the flags.

  Key definitions include:
    * `FlagsBehindEscapes`
    * `FlagsApart`

  Key theorems include:
    * `flagsStartFrom_parted`
    * `Rule.read_spaced`
-/

namespace Diachrony

open Unicode

variable {setting : RuleSetting}
variable {limit : DigitLimit}
variable {form : RuleForm}
variable {front back rest other bodyText : List Char}
variable {flagText : Option (List Char)}
variable {flags : Flags}
variable {body : RuleBody}
variable {op : Char}

------------------------------------------------------------
-- Searches
------------------------------------------------------------

/-
  What has been passed may not precede flags, but might have
  in another search. It makes no difference if there no
  flags start behind escapes only.
-/
theorem flagsStartFrom_parted
    {ε : Type}
    {isFlagList : List Char → Except ε Bool}
    {passed before text : List Char}
    {start : Option Nat}
    {shift : Nat}
    (hBlocked : mayPrecedeFlags before = false)
    (hEscape :
      passed.head? = some '\\' ↔ before.head? = some '\\')
    (hLength : before.length = passed.length + shift)
    (hRead :
      flagsStartFrom isFlagList 0 none passed text = .ok start)
    (hFlags : ∀ escapes rest,
      text = escapes ++ rest →
        isEscapes escapes = true →
          start ≠ some (passed.length + escapes.length)) :
    flagsStartFrom isFlagList 0 none before text =
      .ok (start.map (· + shift)) := by
  fun_cases depthAfter 0 text
  case case1 =>
    cases hRead
    rfl
  case case2 =>
    cases hRead
    rfl
  case case3 c more =>
    have hAlike :
        EndsAlike (c :: '\\' :: passed) (c :: '\\' :: before) :=
      (EndsAlike.of_escape_iff hEscape).cons c
    have hLater :
        (c :: '\\' :: before).length =
          (c :: '\\' :: passed).length + shift := by
      simp [hLength]
      omega
    rw [flagsStartFrom] at hRead ⊢
    rw [flagsStartFrom_alike rfl hAlike hLater, hRead]
    rfl
  case case4 c more hPlain =>
    have hAlike : EndsAlike (c :: passed) (c :: before) :=
      .of_escape_iff hEscape
    have hLater :
        (c :: before).length = (c :: passed).length + shift := by
      simp [hLength]
      omega
    by_cases hBlank : isBlank c = true
    · rw [flagsStartFrom_blank hBlank] at hRead ⊢
      refine
        flagsStartFrom_blocked hBlocked hAlike.escape_iff hLater
          hRead fun escapes rest hMore hEscapes => ?_
      have hStart :=
        hFlags (c :: escapes) rest (by rw [hMore]; rfl)
          (by rw [isEscapes_plain hPlain, hBlank, hEscapes]; rfl)
      simp only [List.length_cons] at hStart ⊢
      convert hStart using 2
      omega
    · rw [flagsStartFrom_plain hPlain] at hRead ⊢
      simp only [if_neg hBlank, Option.any_none, Bool.false_and,
        Bool.false_eq_true, if_false] at hRead ⊢
      rw [flagsStartFrom_alike rfl hAlike hLater, hRead]
      rfl

/-
  If a text has flags, or none, and an operator stands in
  what follows a part of it, then no flags start in this
  part: they would end in the operator.
-/
theorem Divides.search_front
    (hDivides :
      Divides limit (front ++ rest) bodyText flagText)
    (hFlags : SpellsFlags limit flagText flags)
    (hRest : BreaksItem rest)
    (hOutside : depthAfter 0 front = some 0) :
    flagsStartFrom (fun part => isFlagList limit (part ++ rest))
      0 none [] front = .ok none := by
  have hStart := hDivides.start_eq
  rw [flagsStart?, flagsStartFrom_append hOutside] at hStart
  split at hStart
  · assumption
  rename_i hFront
  cases flagText with
  | none => exact hStart
  | some part =>
      have hInside := flagsStartFrom_le hStart
      rw [List.length_nil, Nat.zero_add] at hInside
      have hText := hDivides.text_eq
      rcases exists_middle hText.symm hInside with
        ⟨more, rfl, hPart⟩
      rw [Option.getD_some] at hPart
      rcases hFlags with ⟨diagnostics, hRead⟩
      rw [hPart] at hRead
      exact absurd hRead (Flags.read_broken hRest)

/- What follows such a part can be searched by itself. -/
theorem flagsStart?_behind
    (hFront :
      flagsStartFrom
          (fun part => isFlagList limit (part ++ rest)) 0 none []
          front =
        .ok none)
    (hOutside : depthAfter 0 front = some 0) :
    flagsStart? (isFlagList limit) (front ++ rest) =
      flagsStartFrom (isFlagList limit) 0
        (gapAfter 0 none [] front) front.reverse rest := by
  rw [flagsStart?, flagsStartFrom_append hOutside, hFront,
    List.append_nil]

/- Nor do flags start before other text with an operator. -/
theorem search_front_broken
    (hFront :
      flagsStartFrom
          (fun part => isFlagList limit (part ++ rest)) 0 none []
          front =
        .ok none)
    (hRest : BreaksItem rest)
    (hOther : BreaksItem other) :
    flagsStartFrom
        (fun part => isFlagList limit (part ++ other)) 0 none []
        front =
      .ok none :=
  flagsStartFrom_none_mono
    (fun _ hFalse => (isFlagList_broken hOther hRest).trans hFalse)
    hFront

/-
  Flags behind an operator, with nothing but escapes and
  blanks between them.
-/
def FlagsBehindEscapes
    (limit : DigitLimit)
    (text back : List Char) : Prop :=
  ∃ fields flags column escapes,
    RuleFields.ofText limit (trim text) 0 = .ok fields ∧
      fields.flags = some (flags, column) ∧
      trimRight back = escapes ++ flags ∧
      isEscapes escapes = true

/-
  No flags behind an operator have nothing but escapes and
  blanks between the operator and them.
-/
def FlagsApart
    (limit : DigitLimit)
    (front : List Char)
    (op : Char)
    (back : List Char) : Prop :=
  ∀ bodyText flags escapes,
    Divides limit (front ++ op :: back) bodyText (some flags) →
      back = escapes ++ flags →
        isEscapes escapes = false

/- The body of a text with an operator contains it. -/
theorem Divides.exists_behind
    (hDivides :
      Divides limit (front ++ op :: back) bodyText flagText)
    (hFront :
      flagsStartFrom
          (fun part => isFlagList limit (part ++ op :: back)) 0
          none [] front =
        .ok none)
    (hOp : op ∈ operators)
    (hOutside : depthAfter 0 front = some 0) :
    ∃ behind,
      bodyText = front ++ op :: behind ∧
        back = behind ++ flagText.getD [] := by
  have hText := hDivides.text_eq
  have hLength : front.length + 1 ≤ bodyText.length := by
    cases flagText with
    | none =>
        rw [Option.getD_none, List.append_nil] at hText
        rw [← hText]
        simp
    | some part =>
        have hStart := hDivides.start_eq
        rw [flagsStart?_behind hFront hOutside,
          flagsStartFrom_operator hOp] at hStart
        have hInside := flagsStartFrom_ge hStart
        simpa using hInside
  have hWhole :
      (front ++ [op]) ++ back = bodyText ++ flagText.getD [] := by
    rw [← hText, List.append_assoc]
    rfl
  rcases exists_middle hWhole (by simpa using hLength) with
    ⟨behind, rfl, hBack⟩
  exact ⟨behind, by rw [List.append_assoc]; rfl, hBack⟩

/- Where such flags start is not behind escapes only. -/
theorem FlagsApart.start_ne
    {behind : List Char}
    (hApart :
      FlagsApart limit front op (behind ++ flagText.getD []))
    (hDivides :
      Divides limit
        (front ++ op :: (behind ++ flagText.getD []))
        (front ++ op :: behind) flagText)
    (escapes rest : List Char)
    (hBehind : behind ++ flagText.getD [] = escapes ++ rest)
    (hAll : isEscapes escapes = true) :
    (flagText.map fun _ => (front ++ op :: behind).length) ≠
      some ((op :: front.reverse).length + escapes.length) := by
  intro hSome
  cases flagText with
  | none => cases hSome
  | some part =>
      have hLength : behind.length = escapes.length := by
        simp at hSome
        omega
      have hNot := hApart _ part behind hDivides rfl
      rw [List.append_inj_left hBehind hLength, hAll] at hNot
      cases hNot

------------------------------------------------------------
-- Texts
------------------------------------------------------------

/-
  A blank before an operator makes a gap, but no flags start
  before the operator and none start directly behind it. It
  parts the operator from a backslash before it.
-/
theorem SpellsRule.space_before
    (hOp : op ∈ operators)
    (hOutside : depthAfter 0 front = some 0)
    (hApart :
      front.getLast? ≠ some '\\' ∨
        FlagsApart setting.digitLimit front op back)
    (hSpells :
      SpellsRule setting form (front ++ op :: back) flags body) :
    SpellsRule setting form (front ++ ' ' :: op :: back) flags
      body := by
  rcases hSpells with
    ⟨hBalanced, bodyText, flagText, bares, hDivides, hFlags,
      hReads, hStands⟩
  have hRest : BreaksItem (op :: back) := .of_operator hOp back
  have hFront := hDivides.search_front hFlags hRest hOutside
  rcases hDivides.exists_behind hFront hOp hOutside with
    ⟨behind, rfl, rfl⟩
  have hSpaced :
      BreaksItem (' ' :: op :: (behind ++ flagText.getD [])) :=
    hRest.cons (by decide)
  have hStart := hDivides.start_eq
  rw [flagsStart?_behind hFront hOutside,
    flagsStartFrom_operator hOp] at hStart
  have hLength :
      (op :: ' ' :: front.reverse).length =
        (op :: front.reverse).length + 1 :=
    rfl
  have hLater :
      flagsStartFrom (isFlagList setting.digitLimit) 0 none
          (op :: ' ' :: front.reverse)
          (behind ++ flagText.getD []) =
        .ok
          ((flagText.map fun _ =>
              (front ++ op :: behind).length).map (· + 1)) := by
    rcases hApart with hApart | hApart
    · have hAlike :
          EndsAlike (op :: front.reverse)
            (op :: ' ' :: front.reverse) := by
        refine .of_escape_iff ?_
        simp [List.head?_reverse, hApart]
      rw [flagsStartFrom_alike rfl hAlike hLength, hStart]
      rfl
    · have hBlocked :
          mayPrecedeFlags (op :: ' ' :: front.reverse) =
            false := by
        simp [mayPrecedeFlags_cons, isOperator_of_operator hOp]
      have hEscape :
          (op :: front.reverse).head? = some '\\' ↔
            (op :: ' ' :: front.reverse).head? = some '\\' :=
        Iff.rfl
      exact
        flagsStartFrom_parted hBlocked hEscape hLength hStart
          (hApart.start_ne hDivides)
  refine
    { balanced := ?_
      divided :=
        ⟨front ++ ' ' :: op :: behind, flagText, bares,
          ⟨?_, ?_⟩, hFlags, ?_, hStands⟩ }
  · rw [← hBalanced]
    exact
      balances_replace hOutside fun _ =>
        balances_blank (by decide)
  · simp
  · rw [flagsStart?_behind
        (search_front_broken hFront hRest hSpaced) hOutside,
      flagsStartFrom_blank (by decide), flagsStartFrom_operator hOp,
      hLater]
    cases flagText with
    | none => rfl
    | some part =>
        simp
        omega
  · exact
      hReads.replace (separate_of_operator hOp)
        (separate_of_blank (by decide)) hOutside
        (.blank (by decide))

/-
  A blank behind an operator makes a gap that no flags may
  follow. It lasts over escapes, and only then are flags
  missed.
-/
theorem SpellsRule.space_behind
    (hOp : op ∈ operators)
    (hOutside : depthAfter 0 front = some 0)
    (hApart : front.getLast? ≠ some '\\')
    (hFlagsApart : FlagsApart setting.digitLimit front op back)
    (hSpells :
      SpellsRule setting form (front ++ op :: back) flags body) :
    SpellsRule setting form (front ++ op :: ' ' :: back) flags
      body := by
  rcases hSpells with
    ⟨hBalanced, bodyText, flagText, bares, hDivides, hFlags,
      hReads, hStands⟩
  have hRest : BreaksItem (op :: back) := .of_operator hOp back
  have hFront := hDivides.search_front hFlags hRest hOutside
  rcases hDivides.exists_behind hFront hOp hOutside with
    ⟨behind, rfl, rfl⟩
  have hStart := hDivides.start_eq
  rw [flagsStart?_behind hFront hOutside,
    flagsStartFrom_operator hOp] at hStart
  have hBlocked :
      mayPrecedeFlags (op :: front.reverse) = false := by
    simp [mayPrecedeFlags_cons, List.head?_reverse, hApart,
      isOperator_of_operator hOp]
  have hEscape :
      (op :: front.reverse).head? = some '\\' ↔
        (' ' :: op :: front.reverse).head? = some '\\' := by
    simp [ne_escape_of_operator hOp]
  refine
    { balanced := ?_
      divided :=
        ⟨front ++ op :: ' ' :: behind, flagText, bares,
          ⟨?_, ?_⟩, hFlags, ?_, hStands⟩ }
  · rw [← hBalanced]
    refine balances_replace hOutside fun _ => ?_
    rw [balances_of_operator hOp, balances_of_operator hOp,
      balances_blank (by decide)]
  · simp
  · rw [flagsStart?_behind
        (search_front_broken hFront hRest
          (.of_operator hOp _)) hOutside,
      flagsStartFrom_operator hOp, flagsStartFrom_blank (by decide),
      Option.getD_none,
      flagsStartFrom_blocked hBlocked hEscape rfl hStart
        (hFlagsApart.start_ne hDivides)]
    cases flagText with
    | none => rfl
    | some part =>
        simp
        omega
  · refine
      hReads.replace (separate_of_operator hOp)
        (separate_of_operator hOp) hOutside fun hRead => ?_
    have hOther := isBlank_of_operator hOp
    rcases exists_kind_of_operator hOp with ⟨kind, hKind⟩
    rcases hRead.exists_behind hKind hOther with
      ⟨later, rfl, hLater⟩
    exact (hLater.blank (by decide)).sign hKind hOther

------------------------------------------------------------
-- Rules
------------------------------------------------------------

/- The sign of a rule stands before the parts of its text. -/
theorem RuleForm.exists_inner
    (front : List Char) :
    ∃ form inner,
      inner <:+ front ∧
        depthAfter 0 inner = depthAfter 0 front ∧
        ∀ c rest,
          c ≠ '+' → c ≠ '-' →
            RuleForm.ofText (front ++ c :: rest) =
              (form, inner ++ c :: rest) := by
  by_cases hPlus : front.head? = some '+'
  · rcases List.head?_eq_some_iff.mp hPlus with ⟨inner, rfl⟩
    refine
      ⟨.insertion, inner, List.suffix_cons _ _, ?_,
        fun _ _ _ _ => rfl⟩
    rw [depthAfter_plain (by decide)]
    rfl
  by_cases hMinus : front.head? = some '-'
  · rcases List.head?_eq_some_iff.mp hMinus with ⟨inner, rfl⟩
    refine
      ⟨.deletion, inner, List.suffix_cons _ _, ?_,
        fun _ _ _ _ => rfl⟩
    rw [depthAfter_plain (by decide)]
    rfl
  refine
    ⟨.substitution, front, List.suffix_rfl, rfl,
      fun c rest hOne hOther =>
        RuleForm.ofText_unsigned fun d hMem => ?_⟩
  rw [List.head?_append, Option.mem_def,
    Option.or_eq_some_iff] at hMem
  rcases hMem with hFront | hRest
  · constructor
    · rintro rfl
      exact hPlus hFront
    · rintro rfl
      exact hMinus hFront
  · cases hRest.2
    exact ⟨hOne, hOther⟩

theorem getLast?_ne_of_suffix
    {inner : List Char}
    {c : Char}
    (hInner : inner <:+ front)
    (hLast : front.getLast? ≠ some c) :
    inner.getLast? ≠ some c := by
  rcases hInner with ⟨before, rfl⟩
  intro hSome
  exact hLast (by rw [List.getLast?_append, hSome]; rfl)

section Texts

variable {rule : Rule}

/- What a rule text with an operator spells behind its sign. -/
theorem SpellsRule.exists_inner
    (hOp : op ∈ operators)
    (hOutside : depthAfter 0 front = some 0)
    (hRead :
      Rule.read setting (front ++ op :: back) = .ok rule) :
    ∃ form inner flags body,
      inner <:+ front ∧
        depthAfter 0 inner = some 0 ∧
        (∀ c rest,
          c ≠ '+' → c ≠ '-' →
            RuleForm.ofText (trimLeft front ++ c :: rest) =
              (form, inner ++ c :: rest)) ∧
        SpellsRule setting form (inner ++ op :: trimRight back)
          flags body ∧
        rule.Alike (Rule.plain flags body) := by
  rcases SpellsRule.of_read hRead with
    ⟨form, rest, flags, body, hForm, hSpells, hAlike⟩
  rcases RuleForm.exists_inner (trimLeft front) with
    ⟨form, inner, hInner, hClosed, hFront⟩
  have hUnsigned := unsigned_of_operator hOp
  rw [trim_around (isBlank_of_operator hOp),
    hFront op _ hUnsigned.1 hUnsigned.2] at hForm
  cases hForm
  rw [depthAfter_trimLeft, hOutside] at hClosed
  exact
    ⟨form, inner, flags, body,
      hInner.trans (trimLeft_suffix front), hClosed, hFront,
      hSpells, hAlike⟩

/- Flags of a rule text are flags behind its sign. -/
theorem flagsApart_inner
    {inner : List Char}
    (hOp : op ∈ operators)
    (hForm :
      RuleForm.ofText (trimLeft front ++ op :: trimRight back) =
        (form, inner ++ op :: trimRight back))
    (hFlags :
      ¬FlagsBehindEscapes setting.digitLimit
        (front ++ op :: back) back) :
    FlagsApart setting.digitLimit inner op (trimRight back) := by
  intro bodyText part escapes hDivides hBack
  rw [← Bool.not_eq_true]
  intro hAll
  rw [← trim_around (isBlank_of_operator hOp)] at hForm
  rcases hDivides.fields hForm 0 with
    ⟨fields, hFields, -, -, hPart⟩
  rcases Option.map_eq_some_iff.mp hPart with
    ⟨⟨_, column⟩, hSome, rfl⟩
  exact
    hFlags
      ⟨fields, _, column, escapes, hFields, hSome, hBack, hAll⟩

theorem Rule.read_space_before
    (hOp : op ∈ operators)
    (hOutside : depthAfter 0 front = some 0)
    (hApart :
      front.getLast? ≠ some '\\' ∨
        ¬FlagsBehindEscapes setting.digitLimit
          (front ++ op :: back) back)
    (hRead :
      Rule.read setting (front ++ op :: back) = .ok rule) :
    ∃ spaced,
      Rule.read setting (front ++ ' ' :: op :: back) =
          .ok spaced ∧
        spaced.Alike rule := by
  have hOther := isBlank_of_operator hOp
  have hUnsigned := unsigned_of_operator hOp
  rcases SpellsRule.exists_inner hOp hOutside hRead with
    ⟨form, inner, flags, body, hInner, hClosed, hForm, hSpells,
      hAlike⟩
  have hInnerApart :
      inner.getLast? ≠ some '\\' ∨
        FlagsApart setting.digitLimit inner op
          (trimRight back) :=
    hApart.imp (getLast?_ne_of_suffix hInner)
      (flagsApart_inner hOp
        (hForm op (trimRight back) hUnsigned.1 hUnsigned.2))
  have hSpaced := @trim_around op (front ++ [' ']) back hOther
  rw [List.append_assoc, List.singleton_append,
    trimLeft_concat_blank (by decide)] at hSpaced
  by_cases hNone : trimLeft front = []
  · -- a blank before the first character is trimmed
    rw [if_pos hNone, ← hNone, ← trim_around hOther] at hSpaced
    exact ⟨rule, (Rule.read_of_trim hSpaced).trans hRead, .refl⟩
  rw [if_neg hNone, List.append_assoc,
    List.singleton_append] at hSpaced
  refine
    (hSpells.space_before hOp hClosed hInnerApart).read_alike
      ?_ ?_ hAlike
  · rw [hSpaced]
    simp
  · rw [hSpaced]
    exact hForm ' ' _ (by decide) (by decide)

theorem Rule.read_space_behind
    (hOp : op ∈ operators)
    (hOutside : depthAfter 0 front = some 0)
    (hApart : front.getLast? ≠ some '\\')
    (hFlags :
      ¬FlagsBehindEscapes setting.digitLimit
        (front ++ op :: back) back)
    (hRead :
      Rule.read setting (front ++ op :: back) = .ok rule) :
    ∃ spaced,
      Rule.read setting (front ++ op :: ' ' :: back) =
          .ok spaced ∧
        spaced.Alike rule := by
  have hOther := isBlank_of_operator hOp
  have hUnsigned := unsigned_of_operator hOp
  rcases SpellsRule.exists_inner hOp hOutside hRead with
    ⟨form, inner, flags, body, hInner, hClosed, hForm, hSpells,
      hAlike⟩
  have hLast := getLast?_ne_of_suffix hInner hApart
  have hInnerApart :
      FlagsApart setting.digitLimit inner op (trimRight back) :=
    flagsApart_inner hOp
      (hForm op (trimRight back) hUnsigned.1 hUnsigned.2) hFlags
  have hSpaced := @trim_around op front (' ' :: back) hOther
  rw [trimRight_cons_blank (by decide)] at hSpaced
  by_cases hNone : trimRight back = []
  · -- a blank behind the last character is trimmed
    rw [if_pos hNone, ← hNone, ← trim_around hOther] at hSpaced
    exact ⟨rule, (Rule.read_of_trim hSpaced).trans hRead, .refl⟩
  rw [if_neg hNone] at hSpaced
  refine
    (hSpells.space_behind hOp hClosed hLast
      hInnerApart).read_alike ?_ ?_ hAlike
  · rw [hSpaced]
    simp
  · rw [hSpaced]
    exact hForm op _ hUnsigned.1 hUnsigned.2

end Texts

/-
  A blank next to an operator outside brackets makes no
  difference, unless an escaped backslash stands directly
  before the operator, or flags follow it with only escapes
  before them. If the blank is put before the operator, only
  both of these together can make one.
-/
theorem Rule.read_spaced
    {rule : Rule}
    (hOp : op ∈ operators)
    (hOutside : depthAfter 0 front = some 0)
    (hRead :
      Rule.read setting (front ++ op :: back) = .ok rule) :
    (front.getLast? ≠ some '\\' ∨
          ¬FlagsBehindEscapes setting.digitLimit
            (front ++ op :: back) back →
        ∃ spaced,
          Rule.read setting (front ++ ' ' :: op :: back) =
              .ok spaced ∧
            spaced.Alike rule) ∧
      (front.getLast? ≠ some '\\' →
        ¬FlagsBehindEscapes setting.digitLimit
            (front ++ op :: back) back →
        ∃ spaced,
          Rule.read setting (front ++ op :: ' ' :: back) =
              .ok spaced ∧
            spaced.Alike rule) :=
  ⟨fun hApart =>
      Rule.read_space_before hOp hOutside hApart hRead,
    fun hApart hFlags =>
      Rule.read_space_behind hOp hOutside hApart hFlags hRead⟩

/- Both together: flags are lost by a blank before the arrow. -/
example :
    (Rule.read { table := {} }
          "a\\\\> \\yrtl".toList).toOption.map Rule.flags ≠
      (Rule.read { table := {} }
          "a\\\\ > \\yrtl".toList).toOption.map Rule.flags := by
  decide +kernel

/- A rule text on both sides of its slash. -/
def slashFront : List Char :=
  "a, \\, > c ".toList

def slashBack : List Char :=
  "d_e & f rtl".toList

theorem slash_spaced :
    depthAfter 0 slashFront = some 0 ∧
      slashFront.getLast? ≠ some '\\' ∧
      ¬FlagsBehindEscapes .standard
          (slashFront ++ '/' :: slashBack) slashBack ∧
      ∃ rule before behind,
        Rule.read { table := {} } (slashFront ++ '/' :: slashBack) =
            .ok rule ∧
          Rule.read { table := {} }
              (slashFront ++ ' ' :: '/' :: slashBack) =
            .ok before ∧
          Rule.read { table := {} }
              (slashFront ++ '/' :: ' ' :: slashBack) =
            .ok behind ∧
          before.Alike rule ∧ behind.Alike rule := by
  have hOutside : depthAfter 0 slashFront = some 0 := by
    decide +kernel
  have hApart : slashFront.getLast? ≠ some '\\' := by
    decide +kernel
  have hRead :
      Rule.read { table := {} } (slashFront ++ '/' :: slashBack) =
        .ok (Rule.ofText { table := {} }
          (slashFront ++ '/' :: slashBack)) :=
    Rule.read_ofText (by decide +kernel)
  have hFlags :
      ¬FlagsBehindEscapes .standard
        (slashFront ++ '/' :: slashBack) slashBack := by
    rintro ⟨fields, flags, column, escapes, hFields, hSome,
      hBack, hAll⟩
    have hPart :
          (RuleFields.ofText .standard
            (trim (slashFront ++ '/' :: slashBack)) 0).toOption.map
          (fun fields => fields.flags.map Prod.fst) =
        some (some "rtl".toList) := by
      decide +kernel
    have hText :
        trimRight slashBack =
          "d_e & f ".toList ++ "rtl".toList := by
      decide +kernel
    have hOther : isEscapes "d_e & f ".toList = false := by
      decide +kernel
    rw [hFields] at hPart
    have hRtl : flags = "rtl".toList := by
      simpa [Except.toOption, hSome] using hPart
    rw [hText, hRtl] at hBack
    rw [← List.append_cancel_right hBack, hOther] at hAll
    cases hAll
  rcases Rule.read_spaced (by decide) hOutside hRead with
    ⟨hSpaceBefore, hSpaceBehind⟩
  rcases hSpaceBefore (.inr hFlags) with
    ⟨before, hBefore, hAlike⟩
  rcases hSpaceBehind hApart hFlags with
    ⟨behind, hBehind, hSame⟩
  exact
    ⟨hOutside, hApart, hFlags, _, before, behind, hRead, hBefore,
      hBehind, hAlike, hSame⟩

/- A rule text in which the arrow follows an escaped backslash. -/
def escapedFront : List Char :=
  "a\\\\".toList

/- A rule text in which an escape follows the arrow. -/
def escapedBack : List Char :=
  "\\y rtl".toList

/-
  A blank behind the arrow makes a rule that cannot be read,
  or takes the flags into the replacement.
-/
theorem arrow_spaced_differs :
    (depthAfter 0 escapedFront = some 0 ∧
        (Rule.read { table := {} }
          (escapedFront ++ '>' :: ['b'])).isOk = true ∧
        (Rule.read { table := {} }
          (escapedFront ++ '>' :: ' ' :: ['b'])).isOk = false) ∧
      depthAfter 0 ['a'] = some 0 ∧
        ∃ rule spaced,
          Rule.read { table := {} } ('a' :: '>' :: escapedBack) =
              .ok rule ∧
            Rule.read { table := {} }
                ('a' :: '>' :: ' ' :: escapedBack) =
              .ok spaced ∧
            rule.flags ≠ spaced.flags := by
  refine ⟨by decide +kernel, by decide +kernel, _, _,
    Rule.read_ofText (by decide +kernel),
    Rule.read_ofText (by decide +kernel), by decide +kernel⟩

end Diachrony
