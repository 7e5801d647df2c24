import Diachrony.Proofs.Source.Columns

/-
  Readers of displaced tokens.

  Tokens that stand some columns further to the right are
  read in the same way. What is read is the same, and all
  that is reported about it is reported as many columns
  further to the right.

  Key definitions include:
    * `Token.displace`
    * `ReadContext.displace`
    * `displaced`
    * `ReadsDisplaced`

  Key theorems include:
    * `readUnits_displace`
    * `ReadsDisplaced.separated`
    * `readBody_displace`
-/

namespace Diachrony

------------------------------------------------------------
-- Displacement
------------------------------------------------------------

def Token.displace
    (columns : Int) : Token → Token :=
  Token.moveBy (· + columns)

def SourceError.displace
    (columns : Int)
    (e : SourceError) : SourceError :=
  { e with column := e.column + columns }

/- A number that cannot be read has no column. -/
def ReadError.displace
    (columns : Int) : ReadError → ReadError
  | .malformed e => .malformed (e.displace columns)
  | .notDecimal text => .notDecimal text
  | .tooManyDigits text => .tooManyDigits text

def Diagnostic.displace
    (columns : Int)
    (diagnostic : Diagnostic) : Diagnostic :=
  { diagnostic with
    column := diagnostic.column.map (· + columns) }

/- A context in which the text ends further to the right. -/
def ReadContext.displace
    (columns : Int)
    (context : ReadContext) : ReadContext :=
  { context with finish := context.finish + columns }

def OpenGroup.displace
    (columns : Int)
    (group : OpenGroup) : OpenGroup :=
  { group with opening := group.opening.displace columns }

/- The same value, with what is reported and left displaced. -/
def Parsed.displace
    {α : Type}
    (columns : Int)
    (parsed : Parsed α) : Parsed α where
  value := parsed.value
  diagnostics :=
    parsed.diagnostics.map (Diagnostic.displace columns)
  rest := parsed.rest.map (Token.displace columns)

/- The same value, with the tokens left over displaced. -/
def displaceRest
    {α : Type}
    (columns : Int)
    (read : α × List Token) : α × List Token :=
  (read.1, read.2.map (Token.displace columns))

/-
  The outcome of reading displaced tokens, where `move` says
  what is displaced of a value that is read.
-/
def displaced
    {α : Type}
    (columns : Int)
    (move : α → α) :
    Except ReadError α → Except ReadError α
  | .error e => .error (e.displace columns)
  | .ok value => .ok (move value)

/-
  A reader, and the same reader in a displaced context: the
  latter reads displaced tokens as the former reads the
  tokens where they are.
-/
def ReadsDisplaced
    {α : Type}
    (columns : Int)
    (read moved :
      List Token → Except ReadError (Parsed α)) : Prop :=
  ∀ tokens,
    moved (tokens.map (Token.displace columns)) =
      displaced columns (Parsed.displace columns) (read tokens)

variable {α : Type}
variable {columns : Int}
variable {context : ReadContext}
variable {move : α → α}
variable {stops : List TokenKind}
variable {tokens : List Token}

------------------------------------------------------------
-- Single tokens
------------------------------------------------------------

@[simp]
theorem Token.kind_displace
    (token : Token) :
    (token.displace columns).kind = token.kind :=
  rfl

@[simp]
theorem Token.text_displace
    (token : Token) :
    (token.displace columns).text = token.text :=
  rfl

@[simp]
theorem ReadContext.symbols_displace
    (text : String) :
    (context.displace columns).symbols text =
      context.symbols text :=
  rfl

@[simp]
theorem ReadContext.literals_displace
    (text : String) :
    (context.displace columns).literals text =
      context.literals text :=
  rfl

@[simp]
theorem OpenGroup.displace_mk
    (opening : Token)
    (before : Pattern) :
    OpenGroup.displace columns ⟨opening, before⟩ =
      ⟨opening.displace columns, before⟩ :=
  rfl

@[simp]
theorem OpenGroup.opening_displace
    (group : OpenGroup) :
    (group.displace columns).opening =
      group.opening.displace columns :=
  rfl

@[simp]
theorem OpenGroup.before_displace
    (group : OpenGroup) :
    (group.displace columns).before = group.before :=
  rfl

@[simp]
theorem Parsed.displace_mk
    (value : α)
    (diagnostics : List Diagnostic)
    (rest : List Token) :
    Parsed.displace columns ⟨value, diagnostics, rest⟩ =
      ⟨value, diagnostics.map (Diagnostic.displace columns),
        rest.map (Token.displace columns)⟩ :=
  rfl

@[simp]
theorem Parsed.value_displace
    (parsed : Parsed α) :
    (parsed.displace columns).value = parsed.value :=
  rfl

@[simp]
theorem Parsed.diagnostics_displace
    (parsed : Parsed α) :
    (parsed.displace columns).diagnostics =
      parsed.diagnostics.map (Diagnostic.displace columns) :=
  rfl

@[simp]
theorem Parsed.rest_displace
    (parsed : Parsed α) :
    (parsed.displace columns).rest =
      parsed.rest.map (Token.displace columns) :=
  rfl

@[simp]
theorem displaced_ok
    (value : α) :
    displaced columns move (.ok value) = .ok (move value) :=
  rfl

@[simp]
theorem displaced_error
    (e : ReadError) :
    displaced columns move (.error e) =
      .error (e.displace columns) :=
  rfl

@[simp]
theorem displaced_failOn
    (token : Token)
    (cause : Cause) :
    displaced columns move (context.failOn token cause) =
      (context.displace columns).failOn
        (token.displace columns) cause :=
  rfl

@[simp]
theorem displaced_failAt
    (tokens : List Token)
    (cause : Cause) :
    displaced columns move (context.failAt tokens cause) =
      (context.displace columns).failAt
        (tokens.map (Token.displace columns)) cause := by
  cases tokens <;> rfl

theorem skipToken?_displace
    (kind : TokenKind)
    (tokens : List Token) :
    skipToken? kind (tokens.map (Token.displace columns)) =
      (skipToken? kind tokens).map
        (List.map (Token.displace columns)) := by
  cases tokens with
  | nil => rfl
  | cons token rest =>
      by_cases hKind : token.kind = kind <;>
        simp [skipToken?, hKind]

theorem expectToken_displace
    (kind : TokenKind)
    (cause : Cause)
    (tokens : List Token) :
    expectToken (context.displace columns) kind cause
        (tokens.map (Token.displace columns)) =
      displaced columns (List.map (Token.displace columns))
        (expectToken context kind cause tokens) := by
  unfold expectToken
  rw [skipToken?_displace]
  cases skipToken? kind tokens with
  | none => exact (displaced_failAt tokens cause).symm
  | some rest => rfl

theorem readLazy_displace
    (tokens : List Token) :
    readLazy (tokens.map (Token.displace columns)) =
      displaceRest columns (readLazy tokens) := by
  unfold readLazy
  rw [skipToken?_displace]
  cases skipToken? .question tokens <;> rfl

theorem ReadContext.number_displace
    (token : Token) :
    (context.displace columns).number (token.displace columns) =
      context.number token :=
  rfl

/- What is wrong with a number is not wrong with its place. -/
theorem displace_of_readNumber
    {limit : DigitLimit}
    {text : List Char}
    {e : ReadError}
    (hRead : readNumber limit text = .error e) :
    e.displace columns = e := by
  rcases readNumber_error hRead with ⟨_, rfl⟩ | ⟨_, rfl⟩ <;> rfl

------------------------------------------------------------
-- Categories
------------------------------------------------------------

theorem ReadContext.nestedMembers_displace
    (name : Token) :
    (context.displace columns).nestedMembers
        (name.displace columns) =
      ((context.nestedMembers name).1,
        (context.nestedMembers name).2.map
          (Diagnostic.displace columns)) := by
  simp only [nestedMembers, displace, Token.text_displace]
  cases context.table.resolve? name.text <;> rfl

theorem ReadContext.named_displace
    (name : Token) :
    (context.displace columns).named (name.displace columns) =
      ((context.named name).1,
        (context.named name).2.map
          (Diagnostic.displace columns)) := by
  simp only [named, displace, Token.text_displace]
  cases context.table.resolve? name.text <;> rfl

theorem readMembers_displace
    (start : List Token)
    (member : Member)
    (members : List Member)
    (diagnostics : List Diagnostic)
    (tokens : List Token) :
    readMembers (context.displace columns)
        (start.map (Token.displace columns)) member members
        (diagnostics.map (Diagnostic.displace columns))
        (tokens.map (Token.displace columns)) =
      displaced columns (Parsed.displace columns)
        (readMembers context start member members diagnostics
          tokens) := by
  fun_induction readMembers context start member members
      diagnostics tokens
  all_goals
    rw [readMembers.eq_def]
    simp_all +zetaDelta [ReadContext.nestedMembers_displace]

theorem loneName?_displace
    (tokens : List Token) :
    loneName? (tokens.map (Token.displace columns)) =
      (loneName? tokens).map fun lone =>
        (lone.1.displace columns,
          lone.2.map (Token.displace columns)) := by
  match tokens with
  | [] => rfl
  | [_] => rfl
  | name :: closing :: rest =>
      simp only [List.map_cons, loneName?, Token.kind_displace,
        Token.text_displace]
      rw [apply_ite (Option.map _)]
      rfl

theorem readReference_displace :
    ReadsDisplaced columns (readReference context)
      (readReference (context.displace columns)) := by
  intro tokens
  have hMembers :=
    @readMembers_displace columns context tokens [] [] [] tokens
  rw [List.map_nil] at hMembers
  unfold readReference
  rw [loneName?_displace, hMembers]
  cases loneName? tokens with
  | some lone =>
      simp [ReadContext.named_displace]
  | none =>
      cases readMembers context tokens [] [] [] tokens with
      | error e => rfl
      | ok members =>
          simp only [Option.map_none, displaced_ok,
            Parsed.displace, expectToken_displace]
          cases
            expectToken context .rightBracket
              .expectedCategoryEnd members.rest <;>
            rfl

theorem readTag_displace
    (ref : CategoryRef)
    (tokens : List Token) :
    readTag (context.displace columns) ref
        (tokens.map (Token.displace columns)) =
      displaced columns (displaceRest columns)
        (readTag context ref tokens) := by
  unfold readTag
  rw [skipToken?_displace]
  match skipToken? .caret tokens with
  | none => rfl
  | some [] => rfl
  | some (tag :: rest) =>
      by_cases hTag : tag.kind = .text ∧ isDigits tag.text
      · cases hNumber : context.number tag with
        | error e =>
            simp [hTag, ReadContext.number_displace, hNumber,
              displace_of_readNumber hNumber]
        | ok n =>
            simp [hTag, ReadContext.number_displace, hNumber,
              displaceRest]
      · simp [hTag]

theorem readCategory_displace :
    ReadsDisplaced columns (readCategory context)
      (readCategory (context.displace columns)) := by
  intro tokens
  unfold readCategory
  rw [skipToken?_displace]
  cases skipToken? .rightBracket tokens with
  | some rest => rfl
  | none =>
      simp only [Option.map_none, readReference_displace tokens]
      cases readReference context tokens with
      | error e => rfl
      | ok ref =>
          simp only [displaced_ok, Parsed.displace,
            readTag_displace]
          cases readTag context ref.value ref.rest <;> rfl

------------------------------------------------------------
-- Patterns
------------------------------------------------------------

theorem readBounds_displace
    (tokens : List Token) :
    readBounds (context.displace columns)
        (tokens.map (Token.displace columns)) =
      displaced columns (displaceRest columns)
        (readBounds context tokens) := by
  cases tokens with
  | nil => rfl
  | cons token rest =>
      by_cases hDigits : token.kind = .text ∧ isDigits token.text
      · cases hNumber : context.number token with
        | error e =>
            simp [readBounds, hDigits, hNumber,
              ReadContext.number_displace,
              displace_of_readNumber hNumber]
        | ok n =>
            by_cases hNone : n < 1 <;>
              simp [readBounds, hDigits, hNumber, hNone,
                ReadContext.number_displace, displaceRest]
      · simp only [List.map_cons, readBounds,
          Token.kind_displace, Token.text_displace, hDigits,
          if_false]
        rw [apply_ite (displaced _ _), apply_ite (displaced _ _)]
        rfl

theorem readRepeat_displace
    (element : Element)
    (tokens : List Token) :
    readRepeat (context.displace columns) element
        (tokens.map (Token.displace columns)) =
      displaced columns (displaceRest columns)
        (readRepeat context element tokens) := by
  unfold readRepeat
  rw [readBounds_displace]
  cases readBounds context tokens with
  | error e => rfl
  | ok bounds =>
      simp only [displaced_ok, displaceRest, readLazy_displace,
        expectToken_displace]
      cases
        expectToken context .rightBrace .expectedRepeatEnd
          (readLazy bounds.2).2 <;>
        rfl

section Units

variable {groups : List OpenGroup}
variable {pattern : Pattern}
variable {diagnostics : List Diagnostic}
variable {token : Token}
variable {rest : List Token}

/- Braces repeat the last element, if they can be read. -/
theorem readUnits_repeat
    {last : Element}
    (hStop : ¬(groups.isEmpty ∧ token.kind ∈ stops))
    (hKind : token.kind = .leftBrace)
    (hLast : pattern.getLast? = some last) :
    readUnits context stops groups pattern diagnostics
        (token :: rest) =
      match readRepeat context last rest with
      | .error e => .error e
      | .ok (repeated, after) =>
          readUnits context stops groups
            (Pattern.replaceLast pattern repeated) diagnostics
            after := by
  rw [readUnits.eq_def]
  dsimp only
  rw [if_neg hStop]
  simp only [hKind, hLast]
  split <;> simp_all

/- A category is added, if it can be read. -/
theorem readUnits_category
    (hStop : ¬(groups.isEmpty ∧ token.kind ∈ stops))
    (hKind : token.kind = .leftBracket) :
    readUnits context stops groups pattern diagnostics
        (token :: rest) =
      match readCategory context rest with
      | .error e => .error e
      | .ok read =>
          readUnits context stops groups
            (pattern ++ [read.value])
            (diagnostics ++ read.diagnostics) read.rest := by
  rw [readUnits.eq_def]
  dsimp only
  rw [if_neg hStop]
  simp only [hKind]
  split <;> simp_all

/- The tokens that are not read as a unit by themselves. -/
def unitStarts : List TokenKind :=
  [ .leftParen, .leftBrace, .leftBracket, .text, .escape,
    .star, .doubleStar ]

/- Any other token is an element, or no part of a pattern. -/
theorem readUnits_single
    (hStop : ¬(groups.isEmpty ∧ token.kind ∈ stops))
    (hKind : token.kind ∉ unitStarts)
    (hParen :
      ∀ group outer,
        token.kind = .rightParen →
          groups = group :: outer → False) :
    readUnits context stops groups pattern diagnostics
        (token :: rest) =
      match token.kind.element? with
      | some element =>
          readUnits context stops groups (pattern ++ [element])
            diagnostics rest
      | none =>
          context.failOn token (.unexpected token.text) := by
  rw [readUnits.eq_def]
  dsimp only
  rw [if_neg hStop]
  split
  case h_1 hToken => exact (hParen _ _ hToken rfl).elim
  case h_9 => rfl
  all_goals simp_all [unitStarts]

theorem not_group_displace
    (hParen :
      ∀ group outer,
        token.kind = .rightParen →
          groups = group :: outer → False)
    (group : OpenGroup)
    (outer : List OpenGroup)
    (hKind : (token.displace columns).kind = .rightParen)
    (hGroups :
      groups.map (OpenGroup.displace columns) =
        group :: outer) :
    False := by
  obtain ⟨first, more, hFirst, _⟩ :=
    List.map_eq_cons_iff.mp hGroups
  exact hParen first more hKind hFirst

theorem readUnits_displace
    (groups : List OpenGroup)
    (pattern : Pattern)
    (diagnostics : List Diagnostic)
    (tokens : List Token) :
    readUnits (context.displace columns) stops
        (groups.map (OpenGroup.displace columns)) pattern
        (diagnostics.map (Diagnostic.displace columns))
        (tokens.map (Token.displace columns)) =
      displaced columns (Parsed.displace columns)
        (readUnits context stops groups pattern diagnostics
          tokens) := by
  fun_induction readUnits context stops groups pattern
      diagnostics tokens
  case case8 hStop hKind last hLast e hRepeat =>
    rw [List.map_cons,
      readUnits_repeat (by simpa using hStop)
        ((Token.kind_displace _).trans hKind) hLast,
      readRepeat_displace, hRepeat]
    rfl
  case case9 hStop hKind last hLast _ _ hRepeat _ ih =>
    rw [List.map_cons,
      readUnits_repeat (by simpa using hStop)
        ((Token.kind_displace _).trans hKind) hLast,
      readRepeat_displace, hRepeat]
    exact ih
  case case10 hStop hKind e hCategory =>
    rw [List.map_cons,
      readUnits_category (by simpa using hStop)
        ((Token.kind_displace _).trans hKind),
      readCategory_displace, hCategory]
    rfl
  case case11 hStop hKind read hCategory _ ih =>
    rw [List.map_cons,
      readUnits_category (by simpa using hStop)
        ((Token.kind_displace _).trans hKind),
      readCategory_displace, hCategory]
    rw [List.map_append] at ih
    exact ih
  case case16 hStop _ _ _ _ _ _ _ _ hElement hParen ih =>
    rw [List.map_cons,
      readUnits_single (by simpa using hStop)
        (by simp_all [unitStarts])
        (not_group_displace hParen),
      Token.kind_displace]
    rw [wfParam] at hElement
    rw [hElement]
    exact ih
  case case17 hStop _ _ _ _ _ _ _ hElement hParen =>
    rw [List.map_cons,
      readUnits_single (by simpa using hStop)
        (by simp_all [unitStarts])
        (not_group_displace hParen),
      Token.kind_displace]
    rw [wfParam] at hElement
    rw [hElement]
    rfl
  all_goals
    rw [readUnits.eq_def]
    simp_all [readLazy_displace, displaceRest, wfParam]

theorem readPattern_displace :
    ReadsDisplaced columns (readPattern context stops)
      (readPattern (context.displace columns) stops) :=
  fun tokens => readUnits_displace [] [] [] tokens

end Units

------------------------------------------------------------
-- Indices
------------------------------------------------------------

theorem readIndex_displace
    (token : Token) :
    readIndex (context.displace columns)
        (token.displace columns) =
      displaced columns id (readIndex context token) := by
  unfold readIndex
  simp only [Token.kind_displace, Token.text_displace]
  split
  · rename_i negative digits _ _
    cases hNumber : readNumber context.digitLimit digits with
    | error e =>
        simp [ReadContext.displace, hNumber,
          displace_of_readNumber hNumber]
    | ok n => simp [ReadContext.displace, hNumber]
  · exact (displaced_failOn token _).symm

theorem readIndices_displace
    (tokens : List Token) :
    readIndices (context.displace columns)
        (tokens.map (Token.displace columns)) =
      displaced columns (displaceRest columns)
        (readIndices context tokens) := by
  fun_induction readIndices context tokens
  all_goals
    simp_all [readIndices, readIndex_displace, displaceRest]

theorem readIndices?_displace
    (tokens : List Token) :
    readIndices? (context.displace columns)
        (tokens.map (Token.displace columns)) =
      displaced columns (displaceRest columns)
        (readIndices? context tokens) := by
  unfold readIndices?
  rw [skipToken?_displace]
  cases skipToken? .atSign tokens with
  | none => rfl
  | some rest =>
      simp only [Option.map_some, readIndices_displace]
      cases readIndices context rest <;> rfl

------------------------------------------------------------
-- Lists
------------------------------------------------------------

theorem ReadsDisplaced.separated
    {separator : TokenKind}
    {readItem movedItem :
      List Token → Except ReadError (Parsed α)}
    (hItem : ReadsDisplaced columns readItem movedItem) :
    ReadsDisplaced columns (readSeparated separator readItem)
      (readSeparated separator movedItem) := by
  intro tokens
  fun_induction readSeparated separator readItem tokens
  all_goals
    rw [readSeparated, hItem]
    simp_all [skipToken?_displace]

------------------------------------------------------------
-- Environments
------------------------------------------------------------

theorem readRightSide_displace :
    ReadsDisplaced columns (readRightSide context)
      (readRightSide (context.displace columns)) := by
  intro tokens
  unfold readRightSide
  rw [readPattern_displace tokens]
  cases readPattern context environmentStops tokens with
  | error e => rfl
  | ok right =>
      simp [skipToken?_displace, apply_ite (displaced columns _)]

theorem readEnvironment_displace :
    ReadsDisplaced columns (readEnvironment context)
      (readEnvironment (context.displace columns)) := by
  intro tokens
  unfold readEnvironment
  rw [readPattern_displace tokens]
  cases readPattern context environmentStops tokens with
  | error e => rfl
  | ok left =>
      simp only [displaced_ok, Parsed.rest_displace,
        Parsed.value_displace, Parsed.diagnostics_displace,
        skipToken?_displace]
      cases skipToken? .underscore left.rest with
      | some rest =>
          simp only [Option.map_some,
            readRightSide_displace rest]
          cases readRightSide context rest <;> simp
      | none =>
          simp only [Option.map_none, readIndices?_displace]
          rw [apply_ite (displaced columns _)]
          cases readIndices? context left.rest <;>
            simp [displaceRest]

theorem readEnvironments_displace :
    ReadsDisplaced columns (readEnvironments context)
      (readEnvironments (context.displace columns)) :=
  readEnvironment_displace.separated.separated

theorem readConditions_displace
    (sign : TokenKind) :
    ReadsDisplaced columns (readConditions context sign)
      (readConditions (context.displace columns) sign) := by
  intro tokens
  unfold readConditions
  rw [skipToken?_displace]
  cases skipToken? sign tokens with
  | none => rfl
  | some rest => exact readEnvironments_displace rest

------------------------------------------------------------
-- Targets and replacements
------------------------------------------------------------

theorem readBranch_displace :
    ReadsDisplaced columns (readBranch context)
      (readBranch (context.displace columns)) := by
  intro tokens
  unfold readBranch
  rw [readPattern_displace tokens]
  cases readPattern context clauseStops tokens with
  | error e => rfl
  | ok target =>
      simp only [displaced_ok, Parsed.rest_displace,
        Parsed.value_displace, readIndices?_displace]
      rw [apply_ite (displaced columns _)]
      cases readIndices? context target.rest <;>
        simp [displaceRest]

theorem ReadContext.unwritable_displace
    (tokens : List Token)
    (pattern : Pattern) :
    (context.displace columns).unwritable
        (tokens.map (Token.displace columns)) pattern =
      (context.unwritable tokens pattern).map
        (Diagnostic.displace columns) := by
  cases tokens with
  | nil => rfl
  | cons first rest =>
      simp only [List.map_cons, unwritable, List.map_map]
      rfl

theorem readReplacement_displace :
    ReadsDisplaced columns (readReplacement context)
      (readReplacement (context.displace columns)) := by
  intro tokens
  unfold readReplacement
  rw [readPattern_displace tokens]
  cases readPattern context clauseStops tokens with
  | error e => rfl
  | ok replacement =>
      simp [skipToken?_displace, apply_ite (displaced columns _),
        ReadContext.unwritable_displace]

theorem readClauses_displace
    (replacements : List Pattern) :
    ReadsDisplaced columns (readClauses context replacements)
      (readClauses (context.displace columns) replacements) := by
  intro tokens
  unfold readClauses
  rw [readConditions_displace .slash tokens]
  cases readConditions context .slash tokens with
  | error e => rfl
  | ok environments =>
      simp only [displaced_ok, Parsed.rest_displace,
        readConditions_displace .bang environments.rest]
      cases readConditions context .bang environments.rest <;>
        simp

theorem readPredicate_displace :
    ReadsDisplaced columns (readPredicate context)
      (readPredicate (context.displace columns)) := by
  intro tokens
  unfold readPredicate readReplacements
  rw [readReplacement_displace.separated tokens]
  cases readSeparated .comma (readReplacement context) tokens with
  | error e => rfl
  | ok replacements =>
      simp only [displaced_ok, Parsed.rest_displace,
        Parsed.value_displace,
        readClauses_displace _ replacements.rest]
      cases
        readClauses context replacements.value
          replacements.rest <;>
        simp

theorem readPredicates_displace :
    ReadsDisplaced columns (readPredicates context)
      (readPredicates (context.displace columns)) := by
  intro tokens
  unfold readPredicates
  rw [skipToken?_displace]
  cases skipToken? .greater tokens with
  | none => exact (displaced_failAt tokens _).symm
  | some rest => exact readPredicate_displace.separated rest

------------------------------------------------------------
-- Bodies
------------------------------------------------------------

theorem readTargets_displace
    (form : RuleForm) :
    ReadsDisplaced columns (readTargets context form)
      (readTargets (context.displace columns) form) := by
  intro tokens
  cases form with
  | insertion => rfl
  | substitution => exact readBranch_displace.separated tokens
  | deletion => exact readBranch_displace.separated tokens

theorem readChanges_displace
    (form : RuleForm) :
    ReadsDisplaced columns (readChanges context form)
      (readChanges (context.displace columns) form) := by
  intro tokens
  cases form with
  | substitution => exact readPredicates_displace tokens
  | insertion =>
      simp only [readChanges, readPredicate_displace tokens]
      cases readPredicate context tokens <;> rfl
  | deletion =>
      simp only [readChanges, readClauses_displace _ tokens]
      cases readClauses context [nothing] tokens <;> rfl

/- A value, with what is reported about it displaced. -/
def displaceReports
    {α : Type}
    (columns : Int)
    (read : α × List Diagnostic) : α × List Diagnostic :=
  (read.1, read.2.map (Diagnostic.displace columns))

/- So the body of a rule is the same wherever it stands. -/
theorem readBody_displace
    (form : RuleForm)
    (tokens : List Token) :
    readBody (context.displace columns) form
        (tokens.map (Token.displace columns)) =
      displaced columns (displaceReports columns)
        (readBody context form tokens) := by
  unfold readBody
  rw [readTargets_displace form tokens]
  cases readTargets context form tokens with
  | error e => rfl
  | ok branches =>
      simp only [displaced_ok, Parsed.rest_displace,
        readChanges_displace form branches.rest]
      cases readChanges context form branches.rest with
      | error e => rfl
      | ok predicates =>
          cases hRest : predicates.rest with
          | nil => simp [hRest, displaceReports]
          | cons token rest => simp [hRest]

end Diachrony
