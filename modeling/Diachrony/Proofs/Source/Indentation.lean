import Diachrony.Proofs.Source.Displacement
import Diachrony.Proofs.Source.Locations
import Diachrony.Proofs.Source.Tokenization

/-
  Rules that are indented.

  A rule text in another column is read in the same way, and
  what is reported about it is reported as many columns
  further to the right. Blanks before a rule are dropped
  without being counted: the column that the text is read
  with is taken for that of the first character that is not
  blank, however many blanks stand before it.

  Key definitions include:
    * `RuleSetting.displace`
    * `Rule.displace`

  Key theorems include:
    * `TokenText.read_displace`
    * `Flags.read_displace`
    * `Rule.read_displace`
    * `Rule.read_indented`
-/

namespace Diachrony

open Unicode

variable {limit : DigitLimit}
variable {line column columns : Int}

------------------------------------------------------------
-- Brackets and tokens
------------------------------------------------------------

/- The tokens of a text that stands further to the right. -/
def TokenText.displace
    (columns : Int)
    (text : TokenText) : TokenText where
  tokens := text.tokens.map (Token.displace columns)
  finish := text.finish + columns

/- The outcome of checking or splitting such a text. -/
def displacedText
    {α : Type}
    (columns : Int)
    (move : α → α) :
    Except SourceError α → Except SourceError α
  | .error e => .error (e.displace columns)
  | .ok value => .ok (move value)

theorem add_displacement
    (n : Int) :
    column + columns + n = column + n + columns :=
  Int.add_right_comm column columns n

theorem checkBrackets_displace
    (opened : List (Char × Int))
    (text : List Char) :
    checkBrackets line (column + columns)
        (opened.map (Prod.map id (· + columns))) text =
      displacedText columns id
        (checkBrackets line column opened text) := by
  fun_induction checkBrackets line column opened text
  all_goals
    rw [checkBrackets.eq_def]
    simp_all [displacedText, SourceError.displace,
      @add_displacement _ columns]

theorem checkBalanced_displace
    (text : List Char) :
    checkBalanced text line (column + columns) =
      displacedText columns id (checkBalanced text line column) :=
  checkBrackets_displace [] text

theorem Token.spelling_displace
    (token : Token) :
    (token.displace columns).spelling = token.spelling :=
  rfl

theorem Token.before_displace
    (token : Token)
    (later : Except SourceError (List Token)) :
    (token.displace columns).before
        (displacedText columns
          (List.map (Token.displace columns)) later) =
      displacedText columns (List.map (Token.displace columns))
        (token.before later) := by
  cases later <;> rfl

theorem Token.Fits.displace
    {depth : Nat}
    {behind : List Char}
    {token : Token}
    (hFits : token.Fits depth behind column) :
    (token.displace columns).Fits depth behind
      (column + columns) := by
  cases hFits with
  | text hRun hBehind => exact .text hRun hBehind
  | escape c => exact .escape c
  | doubleStar => exact .doubleStar
  | star hBehind => exact .star hBehind
  | plus hDepth => exact .plus hDepth
  | sign hKind => exact .sign hKind

theorem Tokenizes.displace
    {depth : Nat}
    {text : List Char}
    {result : Except SourceError (List Token)}
    (hCut : Tokenizes line column depth text result) :
    Tokenizes line (column + columns) depth text
      (displacedText columns (List.map (Token.displace columns))
        result) := by
  induction hCut with
  | nil => exact .nil
  | dangling => exact .dangling
  | blank hBlank _ ih =>
      rw [← add_displacement] at ih
      exact .blank hBlank ih
  | @token column depth token rest result hFits _ ih =>
      rw [← add_displacement] at ih
      rw [← Token.before_displace, ← token.spelling_displace]
      exact .token hFits.displace ih

theorem readTokens_displace
    (depth : Nat)
    (text : List Char) :
    readTokens line (column + columns) depth text =
      displacedText columns (List.map (Token.displace columns))
        (readTokens line column depth text) :=
  readTokens_eq_iff.mpr
    (tokenizes_readTokens line column depth text).displace

theorem TokenText.read_displace
    (text : List Char) :
    TokenText.read text line (column + columns) =
      displacedText columns (TokenText.displace columns)
        (TokenText.read text line column) := by
  unfold TokenText.read
  rw [readTokens_displace]
  cases readTokens line column 0 text with
  | error e => rfl
  | ok tokens =>
      simp only [displacedText, TokenText.displace]
      rw [Int.add_right_comm]

------------------------------------------------------------
-- Flags
------------------------------------------------------------

def Place.displace
    (columns : Int)
    (place : Place) : Place :=
  { place with column := place.column + columns }

section Flags

variable {place : Place}
variable {item : FlagItem}
variable {flags : Flags}

@[simp]
theorem displaced_fail
    {α : Type}
    (move : α → α)
    (cause : Cause) :
    displaced columns move (place.fail cause) =
      (place.displace columns).fail cause :=
  rfl

theorem FlagItem.number_displace
    (name : String)
    (argument : List Char)
    (low high : Nat) :
    FlagItem.number limit (place.displace columns) name argument
        low high =
      displaced columns id
        (FlagItem.number limit place name argument low high) := by
  unfold FlagItem.number
  cases hNumber : readNumber limit argument with
  | error e =>
      simp [apply_ite (displaced columns id),
        displace_of_readNumber hNumber]
  | ok value => simp [apply_ite (displaced columns id)]

theorem FlagItem.flag_displace :
    item.flag (place.displace columns) =
      displaced columns id (item.flag place) := by
  unfold FlagItem.flag
  cases FlagName.ofText? item.name with
  | none => rfl
  | some name =>
      cases item.argument <;>
        simp [apply_ite (displaced columns id)]

theorem FlagItem.applyRepeat_displace :
    item.applyRepeat limit (place.displace columns) flags =
      displaced columns id
        (item.applyRepeat limit place flags) := by
  unfold FlagItem.applyRepeat
  cases item.argument with
  | none => rfl
  | some argument =>
      simp only [FlagItem.number_displace]
      cases
        FlagItem.number limit place item.name argument 1
          maxPassesLimit <;>
        rfl

theorem FlagItem.applyOptional_displace :
    item.applyOptional (place.displace columns) flags =
      displaced columns id (item.applyOptional place flags) := by
  unfold FlagItem.applyOptional
  cases item.argument with
  | none => rfl
  | some argument => simp [apply_ite (displaced columns id)]

theorem FlagItem.applyChance_displace :
    item.applyChance limit (place.displace columns) flags =
      displaced columns id
        (item.applyChance limit place flags) := by
  unfold FlagItem.applyChance
  cases item.argument with
  | none => rfl
  | some argument =>
      simp only [FlagItem.number_displace]
      cases
        FlagItem.number limit place item.name argument 0 100 <;>
        rfl

theorem FlagItem.applyPersist_displace :
    item.applyPersist limit (place.displace columns) flags =
      displaced columns id
        (item.applyPersist limit place flags) := by
  unfold FlagItem.applyPersist
  cases item.argument with
  | none => rfl
  | some argument =>
      simp only [FlagItem.number_displace]
      cases
        FlagItem.number limit place item.name argument 1
          persistAll <;>
        rfl

theorem FlagItem.apply_displace
    (name : FlagName) :
    item.apply limit (place.displace columns) flags name =
      displaced columns id
        (item.apply limit place flags name) := by
  cases name with
  | repeating => exact applyRepeat_displace
  | persistent => exact applyRepeat_displace
  | rightToLeft | ignore | ditto | stop => rfl
  | optional => exact applyOptional_displace
  | chance => exact applyChance_displace
  | persist => exact applyPersist_displace

theorem FlagName.diagnostics_displace
    (name : FlagName) :
    name.diagnostics (place.displace columns) =
      (name.diagnostics place).map
        (Diagnostic.displace columns) := by
  cases name <;> rfl

theorem readFlagItem_displace
    (text : List Char) :
    readFlagItem limit (place.displace columns) text flags =
      displaced columns (displaceReports columns)
        (readFlagItem limit place text flags) := by
  unfold readFlagItem
  simp only [FlagItem.flag_displace, FlagItem.apply_displace,
    FlagName.diagnostics_displace]
  by_cases hNone : text.isEmpty
  · simp [hNone]
  rw [if_neg hNone, if_neg hNone]
  cases (FlagItem.ofText text).flag place with
  | error e => rfl
  | ok name =>
      simp only [displaced_ok, id_eq]
      cases
        (FlagItem.ofText text).apply limit place flags name <;>
        rfl

theorem readFlagItems_displace
    (diagnostics : List Diagnostic)
    (parts : List (List Char)) :
    readFlagItems limit line (column + columns) flags
        (diagnostics.map (Diagnostic.displace columns)) parts =
      displaced columns (displaceReports columns)
        (readFlagItems limit line column flags diagnostics
          parts) := by
  induction parts generalizing column flags diagnostics with
  | nil => rfl
  | cons part rest ih =>
      have hItem :
          ∀ blanks : Int,
            readFlagItem limit ⟨line, column + columns + blanks⟩
                (trim part) flags =
              displaced columns (displaceReports columns)
                (readFlagItem limit ⟨line, column + blanks⟩
                  (trim part) flags) := by
        intro blanks
        rw [add_displacement, ← readFlagItem_displace]
        rfl
      simp only [readFlagItems, hItem]
      cases
        readFlagItem limit
          ⟨line,
            column +
              (part.length - (trimLeft part).length : Nat)⟩
          (trim part) flags with
      | error e => rfl
      | ok read =>
          simp only [displaced_ok, displaceReports,
            @add_displacement _ columns, ← List.map_append]
          exact ih _

theorem Flags.read_displace
    (text : List Char) :
    Flags.read limit text line (column + columns) =
      displaced columns (displaceReports columns)
        (Flags.read limit text line column) :=
  readFlagItems_displace [] _

end Flags

------------------------------------------------------------
-- Fields
------------------------------------------------------------

/- The fields of a text that stands further to the right. -/
def RuleFields.displace
    (columns : Int)
    (fields : RuleFields) : RuleFields :=
  { fields with
    bodyColumn := fields.bodyColumn + columns
    flags := fields.flags.map (Prod.map id (· + columns)) }

/- Only a number can keep a text from being looked through. -/
theorem displace_of_isFlagList
    {text : List Char}
    {e : ReadError}
    (hList : isFlagList limit text = .error e) :
    e.displace columns = e := by
  unfold isFlagList at hList
  split at hList
  · cases hList
  · cases hList
  · rename_i hOther _
    cases hList
    cases e with
    | malformed fault => exact (hOther fault rfl).elim
    | notDecimal number => rfl
    | tooManyDigits number => rfl

theorem RuleFields.ofText_displace
    (text : List Char) :
    RuleFields.ofText limit text (column + columns) =
      displaced columns (RuleFields.displace columns)
        (RuleFields.ofText limit text column) := by
  unfold RuleFields.ofText
  dsimp only
  cases hStart :
      flagsStart? (isFlagList limit)
        (RuleForm.ofText text).2 with
  | error e =>
      obtain ⟨part, _, hList⟩ := flagsStartFrom_error hStart
      rw [displaced_error, displace_of_isFlagList hList]
  | ok start =>
      cases start <;>
        simp [displace, @add_displacement _ columns]

theorem RuleFields.readFlags_displace
    (fields : RuleFields) :
    (fields.displace columns).readFlags limit line =
      displaced columns (displaceReports columns)
        (fields.readFlags limit line) := by
  unfold RuleFields.readFlags
  cases hFlags : fields.flags with
  | none =>
      simp [RuleFields.displace, hFlags, displaceReports]
  | some flags =>
      simp [RuleFields.displace, hFlags, Flags.read_displace]

------------------------------------------------------------
-- Rules
------------------------------------------------------------

/- The same setting for a text in another column. -/
def RuleSetting.displace
    (columns : Int)
    (setting : RuleSetting) : RuleSetting :=
  { setting with column := setting.column + columns }

/- The same rule with what is reported about it displaced. -/
def Rule.displace
    (columns : Int)
    (rule : Rule) : Rule :=
  { rule with
    diagnostics :=
      rule.diagnostics.map (Diagnostic.displace columns) }

theorem Diagnostic.sameReport_displace
    (one other : Diagnostic) :
    (one.displace columns).sameReport (other.displace columns) =
      one.sameReport other := by
  have hColumn :
      one.column.map (· + columns) =
          other.column.map (· + columns) ↔
        one.column = other.column :=
    (Option.map_injective fun _ _ => by omega).eq_iff
  change
    (_ && _ && _ &&
        decide
          (one.column.map (· + columns) =
            other.column.map (· + columns)) && _) =
      _
  rw [decide_eq_decide.mpr hColumn]
  rfl

theorem Diagnostic.addNew_displace
    (reported : List Diagnostic)
    (diagnostic : Diagnostic) :
    addNew (reported.map (displace columns))
        (diagnostic.displace columns) =
      (addNew reported diagnostic).map (displace columns) := by
  have hReported :
      (diagnostic.displace columns).isReported
          (reported.map (displace columns)) =
        diagnostic.isReported reported := by
    simp only [isReported, List.any_map, Function.comp_def,
      sameReport_displace]
  unfold addNew
  rw [hReported, apply_ite (List.map _), List.map_append]
  rfl

theorem Diagnostic.foldl_addNew_displace
    (reported added : List Diagnostic) :
    (added.map (displace columns)).foldl addNew
        (reported.map (displace columns)) =
      (added.foldl addNew reported).map (displace columns) := by
  induction added generalizing reported with
  | nil => rfl
  | cons first rest ih =>
      rw [List.map_cons, List.foldl_cons, List.foldl_cons,
        addNew_displace, ih]

theorem Rule.assemble_displace
    (setting : RuleSetting)
    (source : String)
    (flags : Flags)
    (diagnostics : List Diagnostic)
    (body : RuleBody) :
    Rule.assemble (setting.displace columns) source flags
        (diagnostics.map (Diagnostic.displace columns)) body =
      (Rule.assemble setting source flags diagnostics
        body).displace columns := by
  have hOn :
      ∀ problem,
        (setting.displace columns).diagnostic source problem =
          (setting.diagnostic source problem).displace columns :=
    fun _ => rfl
  simp only [assemble, displace, hOn,
    ← Diagnostic.foldl_addNew_displace, List.map_append,
    List.map_map]
  rfl

theorem RuleFields.read_displace
    (setting : RuleSetting)
    (source : String)
    (fields : RuleFields) :
    (fields.displace columns).read (setting.displace columns)
        source =
      displaced columns (Rule.displace columns)
        (fields.read setting source) := by
  have hFlags :
      (fields.displace columns).readFlags
          (setting.displace columns).digitLimit
          (setting.displace columns).line =
        displaced columns (displaceReports columns)
          (fields.readFlags setting.digitLimit setting.line) :=
    fields.readFlags_displace
  have hTokens :
      TokenText.read (fields.displace columns).body
          (setting.displace columns).line
          (fields.displace columns).bodyColumn =
        displacedText columns (TokenText.displace columns)
          (TokenText.read fields.body setting.line
            fields.bodyColumn) :=
    TokenText.read_displace fields.body
  unfold RuleFields.read
  rw [hFlags, hTokens]
  cases fields.readFlags setting.digitLimit setting.line with
  | error e => rfl
  | ok flags =>
  cases
    TokenText.read fields.body setting.line
      fields.bodyColumn with
  | error e => rfl
  | ok tokens =>
  have hBody :
      readBody
          ((setting.displace columns).context source
            (tokens.displace columns).finish)
          (fields.displace columns).form
          (tokens.displace columns).tokens =
        displaced columns (displaceReports columns)
          (readBody (setting.context source tokens.finish)
            fields.form tokens.tokens) :=
    @readBody_displace columns
      (setting.context source tokens.finish) fields.form
      tokens.tokens
  simp only [displaced_ok, displacedText, hBody]
  cases
    readBody (setting.context source tokens.finish) fields.form
      tokens.tokens with
  | error e => rfl
  | ok body =>
      simp only [displaced_ok, displaceReports,
        ← Rule.assemble_displace, List.map_append, List.map_map]
      rfl

theorem Rule.readTrimmed_displace
    (setting : RuleSetting)
    (text : List Char) :
    Rule.readTrimmed (setting.displace columns) text =
      displaced columns (Rule.displace columns)
        (Rule.readTrimmed setting text) := by
  have hBrackets :
      checkBalanced text (setting.displace columns).line
          (setting.displace columns).column =
        displacedText columns id
          (checkBalanced text setting.line setting.column) :=
    checkBalanced_displace text
  have hFields :
      RuleFields.ofText (setting.displace columns).digitLimit
          text (setting.displace columns).column =
        displaced columns (RuleFields.displace columns)
          (RuleFields.ofText setting.digitLimit text
            setting.column) :=
    RuleFields.ofText_displace text
  unfold Rule.readTrimmed
  rw [hBrackets, hFields]
  cases checkBalanced text setting.line setting.column with
  | error e => rfl
  | ok _ =>
  cases
    RuleFields.ofText setting.digitLimit text
      setting.column with
  | error e => rfl
  | ok fields =>
      exact fields.read_displace setting (String.ofList text)

/- A rule is read in the same way in every column. -/
theorem Rule.read_displace
    (setting : RuleSetting)
    (text : List Char) :
    Rule.read (setting.displace columns) text =
      displaced columns (Rule.displace columns)
        (Rule.read setting text) := by
  unfold Rule.read
  dsimp only
  rw [apply_ite (displaced columns (Rule.displace columns)),
    readTrimmed_displace]
  rfl

------------------------------------------------------------
-- Indentation
------------------------------------------------------------

variable {blanks : List Char}

theorem trim_blanks_append
    (hBlanks : ∀ c ∈ blanks, isBlank c = true)
    (text : List Char) :
    trim (blanks ++ text) = trim text := by
  rw [trim, trimLeft, List.dropWhile_append_of_pos hBlanks,
    ← trimLeft, ← trim]

/- Blanks before a rule make no difference at all. -/
theorem Rule.read_blanks_append
    (hBlanks : ∀ c ∈ blanks, isBlank c = true)
    (setting : RuleSetting)
    (text : List Char) :
    Rule.read setting (blanks ++ text) =
      Rule.read setting text := by
  unfold Rule.read
  rw [trim_blanks_append hBlanks]

/-
  A text that is refused is refused behind blanks in any
  column, for the same cause. The error is as far behind the
  column that the whole is read with as it was behind the
  first column, so that it only points to the same character
  of the whole if there are no blanks.
-/
theorem Rule.read_indented
    (setting : RuleSetting)
    (column : Int)
    (blanks text : List Char)
    (fault : SourceError)
    (hBlanks : ∀ c ∈ blanks, isBlank c = true)
    (hRead :
      Rule.read { setting with column := 0 } text =
        .error (.malformed fault)) :
    Rule.read { setting with column := column }
          (blanks ++ text) =
        .error (.malformed
          { fault with column := column + fault.column }) ∧
      (Rule.read { setting with column := column }
            (blanks ++ text) =
          .error (.malformed
            { fault with
              column :=
                column + blanks.length + fault.column }) ↔
        blanks = []) := by
  have hMoved :
      ({ setting with column := column } : RuleSetting) =
        RuleSetting.displace column
          { setting with column := 0 } := by
    simp [RuleSetting.displace]
  have hFault :
      Rule.read { setting with column := column }
          (blanks ++ text) =
        .error (.malformed
          { fault with column := column + fault.column }) := by
    rw [read_blanks_append hBlanks, hMoved, read_displace,
      hRead, Int.add_comm column fault.column]
    rfl
  refine ⟨hFault, ?_⟩
  rw [hFault]
  constructor
  · intro hSame
    injection hSame with hSame
    injection hSame with hSame
    have hColumn := congrArg SourceError.column hSame
    dsimp only at hColumn
    exact List.eq_nil_of_length_eq_zero (by omega)
  · rintro rfl
    simp

/- The setting of a text that is read by itself. -/
def plainSetting : RuleSetting where
  table := {}

/- A rule that ends after its target. -/
def missingArrow : SourceError where
  cause := .expectedArrow
  atEnd := true
  line := 0
  column := 1

theorem missingArrow_indented :
    (∀ c ∈ [' ', '\t'], isBlank c = true) ∧
      Rule.read { plainSetting with column := 0 } ['a'] =
          .error (.malformed missingArrow) ∧
        Rule.read { plainSetting with column := 4 }
              ([' ', '\t'] ++ ['a']) =
            .error (.malformed
              { missingArrow with
                column := 4 + missingArrow.column }) ∧
          (Rule.read { plainSetting with column := 4 }
                ([' ', '\t'] ++ ['a']) =
              .error (.malformed
                { missingArrow with
                  column :=
                    4 + ([' ', '\t'] : List Char).length +
                      missingArrow.column }) ↔
            [' ', '\t'] = ([] : List Char)) := by
  have hBlanks : ∀ c ∈ [' ', '\t'], isBlank c = true :=
    List.forall_mem_cons.mpr
      ⟨rfl, List.forall_mem_singleton.mpr rfl⟩
  have hRead :
      Rule.read { plainSetting with column := 0 } ['a'] =
        .error (.malformed missingArrow) :=
    eq_error_of_refusal? (by decide +kernel)
  exact
    ⟨hBlanks, hRead,
      Rule.read_indented plainSetting 4 [' ', '\t'] ['a']
        missingArrow hBlanks hRead⟩

/-
  Behind two blanks the target ends in column 3, but the
  error still points to column 1, which is a blank.
-/
theorem missingArrow_not_moved :
    Rule.read plainSetting "a".toList =
        .error (.malformed missingArrow) ∧
      Rule.read plainSetting "  a".toList =
          .error (.malformed missingArrow) ∧
        Rule.read plainSetting "  a".toList ≠
          .error
            (.malformed { missingArrow with column := 3 }) := by
  have hBehind :
      Rule.read plainSetting "  a".toList =
        .error (.malformed missingArrow) :=
    eq_error_of_refusal? (by decide +kernel)
  refine
    ⟨eq_error_of_refusal? (by decide +kernel), hBehind, ?_⟩
  rw [hBehind]
  intro hSame
  injection hSame with hSame
  injection hSame with hSame
  cases congrArg SourceError.column hSame

end Diachrony
