import Diachrony.Proofs.Source.FlagLists
import Diachrony.Proofs.Source.Gaps
import Diachrony.Proofs.Source.Readings
import Diachrony.Proofs.Source.Refusals
import Diachrony.Source.RuleText

/-
  What rule texts spell.

  A rule text spells flags and a body: its brackets are
  balanced, its flags start where they are found, and the
  tokens before them stand for the body. Rules that are read
  from two texts are alike if the texts spell the same.

  Key definitions include:
    * `Rule.Alike`
    * `StandsFor`
    * `Divides`
    * `SpellsRule`

  Key theorems include:
    * `StandsFor.of_derives`
    * `SpellsRule.of_read`
    * `SpellsRule.read`
-/

namespace Diachrony

open Unicode

------------------------------------------------------------
-- Rules
------------------------------------------------------------

/-
  Rules that change words in the same way: only their texts,
  places and diagnostics may differ.
-/
structure Rule.Alike
    (rule other : Rule) : Prop where
  branches_eq : rule.branches = other.branches
  predicates_eq : rule.predicates = other.predicates
  flags_eq : rule.flags = other.flags
  mismatched_eq : rule.mismatched = other.mismatched

theorem Rule.Alike.refl
    {rule : Rule} :
    rule.Alike rule :=
  ⟨rfl, rfl, rfl, rfl⟩

theorem Rule.Alike.symm
    {rule other : Rule}
    (hAlike : rule.Alike other) :
    other.Alike rule where
  branches_eq := hAlike.branches_eq.symm
  predicates_eq := hAlike.predicates_eq.symm
  flags_eq := hAlike.flags_eq.symm
  mismatched_eq := hAlike.mismatched_eq.symm

theorem Rule.Alike.trans
    {rule other third : Rule}
    (hAlike : rule.Alike other)
    (hOther : other.Alike third) :
    rule.Alike third where
  branches_eq := hAlike.branches_eq.trans hOther.branches_eq
  predicates_eq :=
    hAlike.predicates_eq.trans hOther.predicates_eq
  flags_eq := hAlike.flags_eq.trans hOther.flags_eq
  mismatched_eq :=
    hAlike.mismatched_eq.trans hOther.mismatched_eq

/- What rules with the same flags and body are alike to. -/
def Rule.plain
    (flags : Flags)
    (body : RuleBody) : Rule :=
  Rule.assemble { table := {} } "" flags [] body

theorem Rule.assemble_plain
    (setting : RuleSetting)
    (source : String)
    (flags : Flags)
    (diagnostics : List Diagnostic)
    (body : RuleBody) :
    (Rule.assemble setting source flags diagnostics body).Alike
      (Rule.plain flags body) :=
  ⟨rfl, rfl, rfl, rfl⟩

------------------------------------------------------------
-- Bodies
------------------------------------------------------------

/- The context of a rule text that stands nowhere. -/
def RuleSetting.grammar
    (setting : RuleSetting) : ReadContext :=
  setting.context "" 0

/- Tokens that stand for a body in whatever columns they are. -/
def StandsFor
    (context : ReadContext)
    (form : RuleForm)
    (bares : List (TokenKind × String))
    (body : RuleBody) : Prop :=
  ∀ line finish rule tokens,
    tokens.map Token.bare = bares →
      DerivesBody (context.relocate line finish rule) form
        tokens body

theorem StandsFor.of_derives
    {context : ReadContext}
    {form : RuleForm}
    {tokens : List Token}
    {body : RuleBody}
    {line finish : Int}
    {rule : Option String}
    (hColumns : (tokens.map Token.column).Nodup)
    (hBody :
      DerivesBody (context.relocate line finish rule) form
        tokens body) :
    StandsFor context form (tokens.map Token.bare) body := by
  intro _ _ _ others hSame
  rcases exists_moveBy hColumns hSame.symm with ⟨move, rfl⟩
  exact hBody.relocate

------------------------------------------------------------
-- Fields
------------------------------------------------------------

/-
  How a text behind the sign of a rule is divided into a
  body and flags, if there are any.
-/
structure Divides
    (limit : DigitLimit)
    (text body : List Char)
    (flags : Option (List Char)) : Prop where
  text_eq : text = body ++ flags.getD []
  start_eq :
    flagsStart? (isFlagList limit) text =
      .ok (flags.map fun _ => body.length)

/- What the flags of a rule spell, if there are any. -/
def SpellsFlags
    (limit : DigitLimit)
    (text : Option (List Char))
    (flags : Flags) : Prop :=
  match text with
  | none => flags = {}
  | some text =>
      ∃ diagnostics,
        Flags.read limit text 0 0 = .ok (flags, diagnostics)

/- What a text spells behind the sign of a rule. -/
structure SpellsRule
    (setting : RuleSetting)
    (form : RuleForm)
    (text : List Char)
    (flags : Flags)
    (body : RuleBody) : Prop where
  balanced : balances [] text = true
  divided :
    ∃ bodyText flagText bares,
      Divides setting.digitLimit text bodyText flagText ∧
        SpellsFlags setting.digitLimit flagText flags ∧
        ReadsAs 0 bodyText bares ∧
        StandsFor setting.grammar form bares body

/- A part of a text that ends inside of a longer one. -/
theorem exists_middle
    {front rest body flags : List Char}
    (hText : front ++ rest = body ++ flags)
    (hLength : front.length ≤ body.length) :
    ∃ middle, body = front ++ middle ∧ rest = middle ++ flags := by
  have hPart : front <+: body :=
    List.prefix_of_prefix_length_le
      (List.prefix_append front rest)
      (hText ▸ List.prefix_append body flags) hLength
  rcases hPart with ⟨middle, rfl⟩
  rw [List.append_assoc] at hText
  exact ⟨middle, rfl, List.append_cancel_left hText⟩

section Texts

variable {setting : RuleSetting}
variable {form : RuleForm}
variable {text rest : List Char}
variable {flags : Flags}
variable {body : RuleBody}
variable {rule : Rule}

theorem RuleForm.ofText_unsigned
    {text : List Char}
    (hHead : ∀ c ∈ text.head?, c ≠ '+' ∧ c ≠ '-') :
    RuleForm.ofText text = (.substitution, text) := by
  unfold ofText
  split
  · exact absurd rfl (hHead _ rfl).1
  · exact absurd rfl (hHead _ rfl).2
  · rfl

/- The sign of a rule is no bracket. -/
theorem balances_of_form
    {brackets : List Char}
    (hForm : RuleForm.ofText text = (form, rest)) :
    balances brackets text = balances brackets rest := by
  unfold RuleForm.ofText at hForm
  split at hForm
  all_goals
    cases hForm
    rfl

theorem Divides.fields
    {bodyText : List Char}
    {flagText : Option (List Char)}
    (hDivides :
      Divides setting.digitLimit rest bodyText flagText)
    (hForm : RuleForm.ofText text = (form, rest))
    (column : Int) :
    ∃ fields,
      RuleFields.ofText setting.digitLimit text column =
          .ok fields ∧
        fields.form = form ∧ fields.body = bodyText ∧
          fields.flags.map Prod.fst = flagText := by
  unfold RuleFields.ofText
  rw [hForm]
  dsimp only
  rw [hDivides.start_eq]
  have hText := hDivides.text_eq
  cases flagText with
  | none =>
      rw [Option.getD_none, List.append_nil] at hText
      exact ⟨_, rfl, rfl, hText, rfl⟩
  | some part =>
      rw [Option.getD_some] at hText
      rw [hText]
      refine ⟨_, rfl, rfl, List.take_left, ?_⟩
      exact congrArg some List.drop_left

theorem Divides.of_fields
    {fields : RuleFields}
    {column : Int}
    (hFields :
      RuleFields.ofText setting.digitLimit text column =
        .ok fields) :
    ∃ rest,
      RuleForm.ofText text = (fields.form, rest) ∧
        Divides setting.digitLimit rest fields.body
          (fields.flags.map Prod.fst) := by
  unfold RuleFields.ofText at hFields
  dsimp only at hFields
  split at hFields
  · cases hFields
  · rename_i hStart
    cases hFields
    exact ⟨_, rfl, (List.append_nil _).symm, hStart⟩
  rename_i i hStart
  cases hFields
  generalize hForm : RuleForm.ofText text = parts at hStart ⊢
  rcases parts with ⟨form, rest⟩
  have hInside := flagsStartFrom_le hStart
  rw [List.length_nil, Nat.zero_add] at hInside
  refine ⟨rest, rfl, (List.take_append_drop i rest).symm, ?_⟩
  rw [hStart]
  simp [hInside]

theorem SpellsFlags.of_readFlags
    {fields : RuleFields}
    {line : Int}
    {diagnostics : List Diagnostic}
    (hRead :
      fields.readFlags setting.digitLimit line =
        .ok (flags, diagnostics)) :
    SpellsFlags setting.digitLimit
      (fields.flags.map Prod.fst) flags := by
  unfold RuleFields.readFlags at hRead
  split at hRead
  · rename_i hNone
    cases hRead
    rw [hNone]
    rfl
  · rename_i hSome
    rw [hSome]
    exact Flags.read_place hRead 0 0

theorem SpellsFlags.readFlags
    {fields : RuleFields}
    (hFlags :
      SpellsFlags setting.digitLimit
        (fields.flags.map Prod.fst) flags)
    (line : Int) :
    ∃ diagnostics,
      fields.readFlags setting.digitLimit line =
        .ok (flags, diagnostics) := by
  unfold RuleFields.readFlags
  cases hText : fields.flags with
  | none =>
      rw [hText] at hFlags
      exact ⟨[], by rw [show flags = {} from hFlags]⟩
  | some part =>
      rw [hText] at hFlags
      rcases hFlags with ⟨diagnostics, hRead⟩
      exact Flags.read_place hRead line part.2

/- What is read from a text is what the text spells. -/
theorem SpellsRule.of_read
    (hRead : Rule.read setting text = .ok rule) :
    ∃ form rest flags body,
      RuleForm.ofText (trim text) = (form, rest) ∧
        SpellsRule setting form rest flags body ∧
        rule.Alike (Rule.plain flags body) := by
  unfold Rule.read at hRead
  dsimp only at hRead
  split at hRead
  · cases hRead
  unfold Rule.readTrimmed at hRead
  split at hRead
  · cases hRead
  rename_i hBalanced
  split at hRead
  · cases hRead
  rename_i fields hFields
  unfold RuleFields.read at hRead
  split at hRead
  · cases hRead
  rename_i flags _ hFlags
  split at hRead
  · cases hRead
  rename_i tokens hTokens
  dsimp only at hRead
  split at hRead
  · cases hRead
  rename_i body _ hBody
  cases hRead
  rcases Divides.of_fields hFields with ⟨rest, hForm, hDivides⟩
  refine
    ⟨fields.form, rest, flags, body, hForm, ⟨?_, ?_⟩,
      Rule.assemble_plain _ _ _ _ _⟩
  · rw [← balances_of_form hForm]
    exact checkBrackets_eq_ok_iff.mp hBalanced
  have hTexts := TokenText.read_textsNonempty hTokens
  have hDerives := readBody_sound hTexts hBody
  unfold TokenText.read at hTokens
  split at hTokens
  · cases hTokens
  rename_i tokens hRead
  cases hTokens
  exact
    ⟨fields.body, _, _, hDivides, .of_readFlags hFlags,
      .of_readTokens hRead,
      .of_derives (readTokens_columns hRead).2 hDerives⟩

/- What a text spells is read from it. -/
theorem SpellsRule.read
    (hSome : trim text ≠ [])
    (hForm : RuleForm.ofText (trim text) = (form, rest))
    (hSpells : SpellsRule setting form rest flags body) :
    ∃ rule,
      Rule.read setting text = .ok rule ∧
        rule.Alike (Rule.plain flags body) := by
  rcases hSpells with
    ⟨hBalanced, bodyText, flagText, bares, hDivides, hFlags,
      hReads, hStands⟩
  rw [← balances_of_form hForm] at hBalanced
  have hCheck :
      checkBalanced (trim text) setting.line setting.column =
        .ok () :=
    checkBrackets_eq_ok_iff.mpr hBalanced
  rcases hDivides.fields hForm setting.column with
    ⟨fields, hFields, rfl, rfl, rfl⟩
  rcases hFlags.readFlags setting.line with
    ⟨flagDiagnostics, hFlagsRead⟩
  rcases hReads setting.line fields.bodyColumn with
    ⟨tokens, hTokens, hBares⟩
  let source := String.ofList (trim text)
  let context :=
    setting.context source
      (fields.bodyColumn + fields.body.length)
  have hDerives : DerivesBody context fields.form tokens body :=
    hStands setting.line context.finish context.rule tokens
      hBares
  rcases hDerives.reads with ⟨bodyDiagnostics, hBody⟩
  have hEmpty : (trim text).isEmpty = false :=
    List.isEmpty_eq_false_iff.mpr hSome
  refine
    ⟨_, ?_,
      Rule.assemble_plain setting source flags
        (flagDiagnostics.map (nameRule source) ++
          bodyDiagnostics)
        body⟩
  simp only [Rule.read, hEmpty, Rule.readTrimmed, hCheck,
    hFields, RuleFields.read, hFlagsRead, TokenText.read,
    hTokens, Bool.false_eq_true, if_false]
  rw [hBody]

/- A rule like those of other texts that spell the same. -/
theorem SpellsRule.read_alike
    (hSpells : SpellsRule setting form rest flags body)
    (hSome : trim text ≠ [])
    (hForm : RuleForm.ofText (trim text) = (form, rest))
    (hAlike : rule.Alike (Rule.plain flags body)) :
    ∃ same,
      Rule.read setting text = .ok same ∧ same.Alike rule := by
  rcases hSpells.read hSome hForm with ⟨same, hRead, hSame⟩
  exact ⟨same, hRead, hSame.trans hAlike.symm⟩

/-
  Texts that are read as rules that are alike, or neither of
  them as a rule.
-/
structure Rule.ReadAlike
    (setting : RuleSetting)
    (text other : List Char) : Prop where
  isOk_eq :
    (Rule.read setting text).isOk = (Rule.read setting other).isOk
  alike : ∀ rule same,
    Rule.read setting text = .ok rule →
      Rule.read setting other = .ok same → same.Alike rule

/- Texts that spell the same are read alike. -/
theorem Rule.ReadAlike.of_spells
    {other : List Char}
    {otherForm : RuleForm}
    {otherRest : List Char}
    (hSome : trim text ≠ [])
    (hOther : trim other ≠ [])
    (hForm : RuleForm.ofText (trim text) = (form, rest))
    (hOtherForm :
      RuleForm.ofText (trim other) = (otherForm, otherRest))
    (hSpells : ∀ flags body,
      SpellsRule setting form rest flags body ↔
        SpellsRule setting otherForm otherRest flags body) :
    Rule.ReadAlike setting text other := by
  have hForth : ∀ rule,
      Rule.read setting text = .ok rule →
        ∃ same,
          Rule.read setting other = .ok same ∧
            same.Alike rule := by
    intro rule hRead
    rcases SpellsRule.of_read hRead with
      ⟨_, _, flags, body, hHere, hText, hAlike⟩
    cases hForm.symm.trans hHere
    exact
      ((hSpells flags body).mp hText).read_alike hOther
        hOtherForm hAlike
  have hBack : ∀ same,
      Rule.read setting other = .ok same →
        (Rule.read setting text).isOk = true := by
    intro same hRead
    rcases SpellsRule.of_read hRead with
      ⟨_, _, flags, body, hHere, hText, hAlike⟩
    cases hOtherForm.symm.trans hHere
    rcases
      ((hSpells flags body).mpr hText).read_alike hSome hForm
        hAlike with
      ⟨rule, hRule, -⟩
    rw [hRule]
    rfl
  refine ⟨?_, fun rule same hRule hSame => ?_⟩
  · cases hText : Rule.read setting text with
    | ok rule =>
        rcases hForth rule hText with ⟨same, hSame, -⟩
        rw [hSame]
        rfl
    | error e =>
        cases hAgain : Rule.read setting other with
        | error e => rfl
        | ok same =>
            have hOk := hBack same hAgain
            rw [hText] at hOk
            cases hOk
  · rcases hForth rule hRule with ⟨again, hAgain, hAlike⟩
    cases hSame.symm.trans hAgain
    exact hAlike

/- Outer blanks make no difference. -/
theorem Rule.read_of_trim
    {other : List Char}
    (hTrim : trim text = trim other) :
    Rule.read setting text = Rule.read setting other := by
  rw [Rule.read, Rule.read, hTrim]

end Texts

end Diachrony
