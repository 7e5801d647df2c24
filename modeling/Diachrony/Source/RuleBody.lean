import Diachrony.Rule
import Diachrony.Source.Indices
import Diachrony.Source.PatternText

/-
  The body of a rule: everything but its flags.

  A body lists targets, and after each arrow replacements
  with their environments and exceptions. An insertion has
  no targets of its own and a deletion no replacements.

  Key definitions include:
    * `readSeparated`
    * `readEnvironments`
    * `readBranches`
    * `readReplacements`
    * `readClauses`
    * `RuleForm`
    * `RuleBody`
    * `readBody`
-/

namespace Diachrony

------------------------------------------------------------
-- Lists
------------------------------------------------------------

/-
  Read one or more items with a separator between them. An
  item is always shorter than what it is read from together
  with the separator after it.
-/
def readSeparated
    {α : Type}
    (separator : TokenKind)
    (readItem : List Token → Except ReadError (Parsed α))
    (tokens : List Token) : Except ReadError (Parsed (List α)) :=
  match readItem tokens with
  | .error e => .error e
  | .ok item =>
      match skipToken? separator item.rest with
      | none =>
          .ok ⟨[item.value], item.diagnostics, item.rest⟩
      | some more =>
          if more.length < tokens.length then
            match readSeparated separator readItem more with
            | .error e => .error e
            | .ok items =>
                .ok
                  ⟨item.value :: items.value,
                    item.diagnostics ++ items.diagnostics,
                    items.rest⟩
          else
            .ok ⟨[item.value], item.diagnostics, item.rest⟩
termination_by tokens.length

------------------------------------------------------------
-- Environments
------------------------------------------------------------

/- The tokens that end a pattern of an environment. -/
def environmentStops : List TokenKind :=
  [ .underscore, .comma, .ampersand, .atSign, .greater, .slash,
    .bang ]

/- The tokens that end a target or a replacement. -/
def clauseStops : List TokenKind :=
  [.comma, .atSign, .greater, .slash, .bang]

/-
  Read the right side of an environment. The tokens are
  those after the underscore.
-/
def readRightSide
    (context : ReadContext)
    (tokens : List Token) : Except ReadError (Parsed Pattern) :=
  match readPattern context environmentStops tokens with
  | .error e => .error e
  | .ok right =>
      if (skipToken? .underscore right.rest).isSome then
        context.failAt right.rest .secondUnderscore
      else if (skipToken? .atSign right.rest).isSome then
        context.failAt right.rest .indexedLocalEnvironment
      else
        .ok right

/- Read an environment. -/
def readEnvironment
    (context : ReadContext)
    (tokens : List Token) :
    Except ReadError (Parsed Environment) :=
  match readPattern context environmentStops tokens with
  | .error e => .error e
  | .ok left =>
      match skipToken? .underscore left.rest with
      | some rest =>
          match readRightSide context rest with
          | .error e => .error e
          | .ok right =>
              .ok
                ⟨.around left.value right.value,
                  left.diagnostics ++ right.diagnostics,
                  right.rest⟩
      | none =>
          if left.value.isEmpty then
            context.failAt tokens .emptyEnvironment
          else
            match readIndices? context left.rest with
            | .error e => .error e
            | .ok (indices, rest) =>
                .ok
                  ⟨.anywhere left.value indices,
                    left.diagnostics, rest⟩

/- Read environments that must all hold. -/
def readGroup
    (context : ReadContext) :
    List Token → Except ReadError (Parsed EnvironmentGroup) :=
  readSeparated .ampersand (readEnvironment context)

/- Read groups of environments one of which must hold. -/
def readEnvironments
    (context : ReadContext) :
    List Token →
    Except ReadError (Parsed (List EnvironmentGroup)) :=
  readSeparated .comma (readGroup context)

------------------------------------------------------------
-- Targets
------------------------------------------------------------

/- Read a target with its match indices. -/
def readBranch
    (context : ReadContext)
    (tokens : List Token) : Except ReadError (Parsed Branch) :=
  match readPattern context clauseStops tokens with
  | .error e => .error e
  | .ok target =>
      if target.value.isEmpty then
        context.failAt tokens .emptyTarget
      else
        match readIndices? context target.rest with
        | .error e => .error e
        | .ok (indices, rest) =>
            .ok
              ⟨{ target := target.value, indices := indices },
                target.diagnostics, rest⟩

/- Read the targets of a rule. -/
def readBranches
    (context : ReadContext) :
    List Token → Except ReadError (Parsed (List Branch)) :=
  readSeparated .comma (readBranch context)

------------------------------------------------------------
-- Replacements
------------------------------------------------------------

/- What is reported about the elements of a replacement. -/
def ReadContext.unwritable
    (context : ReadContext)
    (tokens : List Token)
    (pattern : Pattern) : List Diagnostic :=
  match tokens with
  | [] => []
  | first :: _ =>
      (pattern.filter fun element => !element.writable).map
        fun element =>
          context.diagnostic first (.unwritable element.text)

/- Read a replacement. -/
def readReplacement
    (context : ReadContext)
    (tokens : List Token) : Except ReadError (Parsed Pattern) :=
  match readPattern context clauseStops tokens with
  | .error e => .error e
  | .ok replacement =>
      if replacement.value.isEmpty then
        context.failAt tokens .emptyReplacement
      else if (skipToken? .atSign replacement.rest).isSome then
        context.failAt replacement.rest .indexedReplacement
      else
        .ok
          ⟨replacement.value,
            replacement.diagnostics ++
              context.unwritable tokens replacement.value,
            replacement.rest⟩

/- Read the replacements of a predicate. -/
def readReplacements
    (context : ReadContext) :
    List Token → Except ReadError (Parsed (List Pattern)) :=
  readSeparated .comma (readReplacement context)

------------------------------------------------------------
-- Predicates
------------------------------------------------------------

/- Read groups of environments after a sign, if it comes next. -/
def readConditions
    (context : ReadContext)
    (sign : TokenKind)
    (tokens : List Token) :
    Except ReadError (Parsed (List EnvironmentGroup)) :=
  match skipToken? sign tokens with
  | none => .ok ⟨[], [], tokens⟩
  | some rest => readEnvironments context rest

/- Read the conditions of given replacements. -/
def readClauses
    (context : ReadContext)
    (replacements : List Pattern)
    (tokens : List Token) :
    Except ReadError (Parsed Predicate) :=
  match readConditions context .slash tokens with
  | .error e => .error e
  | .ok environments =>
      match
        readConditions context .bang environments.rest
      with
      | .error e => .error e
      | .ok exceptions =>
          .ok
            ⟨{ replacements := replacements
               environments := environments.value
               exceptions := exceptions.value },
              environments.diagnostics ++ exceptions.diagnostics,
              exceptions.rest⟩

/- Read replacements with their conditions. -/
def readPredicate
    (context : ReadContext)
    (tokens : List Token) :
    Except ReadError (Parsed Predicate) :=
  match readReplacements context tokens with
  | .error e => .error e
  | .ok replacements =>
      match
        readClauses context replacements.value replacements.rest
      with
      | .error e => .error e
      | .ok predicate =>
          .ok
            ⟨predicate.value,
              replacements.diagnostics ++ predicate.diagnostics,
              predicate.rest⟩

/- Read the predicates of a rule, each after its arrow. -/
def readPredicates
    (context : ReadContext)
    (tokens : List Token) :
    Except ReadError (Parsed (List Predicate)) :=
  match skipToken? .greater tokens with
  | none => context.failAt tokens .expectedArrow
  | some rest => readSeparated .greater (readPredicate context) rest

------------------------------------------------------------
-- Bodies
------------------------------------------------------------

/- The forms of rules. -/
inductive RuleForm where
  | substitution
  | insertion
  | deletion
  deriving Repr, DecidableEq

/- The branches and predicates of a rule. -/
structure RuleBody where
  branches : List Branch
  predicates : List Predicate
  deriving Repr

/- The pattern that inserts or deletes. -/
def nothing : Pattern :=
  [.null]

/- Read the branches of a rule; an insertion has one already. -/
def readTargets
    (context : ReadContext)
    (form : RuleForm)
    (tokens : List Token) :
    Except ReadError (Parsed (List Branch)) :=
  match form with
  | .insertion => .ok ⟨[{ target := nothing }], [], tokens⟩
  | .substitution => readBranches context tokens
  | .deletion => readBranches context tokens

/- Read the predicates of a rule. -/
def readChanges
    (context : ReadContext)
    (form : RuleForm)
    (tokens : List Token) :
    Except ReadError (Parsed (List Predicate)) :=
  match form with
  | .substitution => readPredicates context tokens
  | .insertion =>
      match readPredicate context tokens with
      | .error e => .error e
      | .ok predicate =>
          .ok
            ⟨[predicate.value], predicate.diagnostics,
              predicate.rest⟩
  | .deletion =>
      match readClauses context [nothing] tokens with
      | .error e => .error e
      | .ok predicate =>
          .ok
            ⟨[predicate.value], predicate.diagnostics,
              predicate.rest⟩

/- Read the whole body of a rule. -/
def readBody
    (context : ReadContext)
    (form : RuleForm)
    (tokens : List Token) :
    Except ReadError (RuleBody × List Diagnostic) :=
  match readTargets context form tokens with
  | .error e => .error e
  | .ok branches =>
      match readChanges context form branches.rest with
      | .error e => .error e
      | .ok predicates =>
          match predicates.rest with
          | token :: _ =>
              context.failOn token (.unexpected token.text)
          | [] =>
              .ok
                ({ branches := branches.value
                   predicates := predicates.value },
                branches.diagnostics ++ predicates.diagnostics)

end Diachrony
