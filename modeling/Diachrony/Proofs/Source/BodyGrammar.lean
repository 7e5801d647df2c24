import Diachrony.Proofs.Source.Patterns

/-
  The grammar of rule bodies.

  Patterns are the units of this grammar, and the operators
  stand between them: commas between targets, replacements
  and groups, arrows before replacements, a slash before
  environments and an exclamation mark before exceptions. An
  underscore stands between the sides of a local
  environment, and indices follow a sign that announces
  them. Each derivation says which branches and predicates
  its tokens stand for.

  Key definitions include:
    * `SpellsInteger`
    * `DerivesSeparated`
    * `DerivesSelection`
    * `DerivesTarget`
    * `DerivesEnvironment`
    * `DerivesClauses`
    * `DerivesPredicate`
    * `DerivesTargets`
    * `DerivesChanges`
    * `DerivesBody`
-/

namespace Diachrony

open Unicode

------------------------------------------------------------
-- Lists
------------------------------------------------------------

/- One or more items with separators between them. -/
inductive DerivesSeparated
    {α : Type}
    (separator : TokenKind)
    (derives : List Token → α → Prop) :
    List Token → List α → Prop
  | one
      {tokens : List Token}
      {value : α}
      (hItem : derives tokens value) :
      DerivesSeparated separator derives tokens [value]
  | more
      {first later : List Token}
      {token : Token}
      {value : α}
      {values : List α}
      (hItem : derives first value)
      (hSeparator : token.kind = separator)
      (hLater : DerivesSeparated separator derives later values) :
      DerivesSeparated separator derives
        (first ++ token :: later) (value :: values)

------------------------------------------------------------
-- Indices
------------------------------------------------------------

/-
  A number as it is written, possibly with a sign, of no
  more digits than it may have.
-/
inductive SpellsInteger
    (limit : DigitLimit) :
    List Char → Int → Prop
  | plain
      {digits : List Char}
      {n : Nat}
      (hAdmitted : limit.admits digits.length = true)
      (hNumber : number? digits = some n) :
      SpellsInteger limit digits n
  | negative
      {digits : List Char}
      {n : Nat}
      (hAdmitted : limit.admits digits.length = true)
      (hNumber : number? digits = some n) :
      SpellsInteger limit ('-' :: digits) (-n)

/-
  The index that a written number stands for. Matches are
  counted from one but kept as counted from zero; zero and
  negative numbers are kept as they are written.
-/
def keptIndex
    (written : Int) : Int :=
  if 0 < written then written - 1 else written

/- A text that spells an index. -/
inductive DerivesIndex
    (context : ReadContext) :
    List Token → Int → Prop
  | single
      {token : Token}
      {written : Int}
      (hKind : token.kind = .text)
      (hInteger :
        SpellsInteger context.digitLimit token.text.toList
          written) :
      DerivesIndex context [token] (keptIndex written)

/- Indices after the sign that announces them, if any. -/
inductive DerivesSelection
    (context : ReadContext) :
    List Token → Option (List Int) → Prop
  | missing :
      DerivesSelection context [] none
  | given
      {sign : Token}
      {tokens : List Token}
      {indices : List Int}
      (hSign : sign.kind = .atSign)
      (hIndices :
        DerivesSeparated .pipe (DerivesIndex context) tokens
          indices) :
      DerivesSelection context (sign :: tokens) (some indices)

------------------------------------------------------------
-- Targets and replacements
------------------------------------------------------------

/- A pattern that is not empty, and which matches it selects. -/
inductive DerivesTarget
    (context : ReadContext) :
    List Token → Branch → Prop
  | target
      {tokens selection : List Token}
      {pattern : Pattern}
      {indices : Option (List Int)}
      (hPattern : Derives context .units tokens pattern)
      (hSome : pattern ≠ [])
      (hSelection : DerivesSelection context selection indices) :
      DerivesTarget context (tokens ++ selection)
        { target := pattern, indices := indices }

/- A pattern that is not empty. -/
inductive DerivesReplacement
    (context : ReadContext) :
    List Token → Pattern → Prop
  | replacement
      {tokens : List Token}
      {pattern : Pattern}
      (hPattern : Derives context .units tokens pattern)
      (hSome : pattern ≠ []) :
      DerivesReplacement context tokens pattern

------------------------------------------------------------
-- Environments
------------------------------------------------------------

/-
  Two patterns around an underscore, or one that is not
  empty and the matches it selects.
-/
inductive DerivesEnvironment
    (context : ReadContext) :
    List Token → Environment → Prop
  | around
      {before after : List Token}
      {underscore : Token}
      {left right : Pattern}
      (hLeft : Derives context .units before left)
      (hUnderscore : underscore.kind = .underscore)
      (hRight : Derives context .units after right) :
      DerivesEnvironment context
        (before ++ underscore :: after) (.around left right)
  | anywhere
      {tokens selection : List Token}
      {pattern : Pattern}
      {indices : Option (List Int)}
      (hPattern : Derives context .units tokens pattern)
      (hSome : pattern ≠ [])
      (hSelection : DerivesSelection context selection indices) :
      DerivesEnvironment context (tokens ++ selection)
        (.anywhere pattern indices)

/- Environments that must all hold. -/
abbrev DerivesGroup
    (context : ReadContext) :
    List Token → EnvironmentGroup → Prop :=
  DerivesSeparated .ampersand (DerivesEnvironment context)

/- Groups of environments one of which must hold. -/
abbrev DerivesEnvironments
    (context : ReadContext) :
    List Token → List EnvironmentGroup → Prop :=
  DerivesSeparated .comma (DerivesGroup context)

/- Environments after a sign, if there are any. -/
inductive DerivesConditions
    (context : ReadContext)
    (sign : TokenKind) :
    List Token → List EnvironmentGroup → Prop
  | missing :
      DerivesConditions context sign [] []
  | given
      {token : Token}
      {tokens : List Token}
      {groups : List EnvironmentGroup}
      (hSign : token.kind = sign)
      (hGroups : DerivesEnvironments context tokens groups) :
      DerivesConditions context sign (token :: tokens) groups

------------------------------------------------------------
-- Predicates
------------------------------------------------------------

/- The environments and exceptions of given replacements. -/
inductive DerivesClauses
    (context : ReadContext)
    (replacements : List Pattern) :
    List Token → Predicate → Prop
  | clauses
      {first later : List Token}
      {environments exceptions : List EnvironmentGroup}
      (hEnvironments :
        DerivesConditions context .slash first environments)
      (hExceptions :
        DerivesConditions context .bang later exceptions) :
      DerivesClauses context replacements (first ++ later)
        { replacements := replacements
          environments := environments
          exceptions := exceptions }

/- Replacements with their environments and exceptions. -/
inductive DerivesPredicate
    (context : ReadContext) :
    List Token → Predicate → Prop
  | predicate
      {first later : List Token}
      {replacements : List Pattern}
      {predicate : Predicate}
      (hReplacements :
        DerivesSeparated .comma (DerivesReplacement context)
          first replacements)
      (hClauses :
        DerivesClauses context replacements later predicate) :
      DerivesPredicate context (first ++ later) predicate

------------------------------------------------------------
-- Bodies
------------------------------------------------------------

/-
  The branches of a rule: those of its targets, or the one
  of an insertion, which matches nothing.
-/
inductive DerivesTargets
    (context : ReadContext) :
    RuleForm → List Token → List Branch → Prop
  | listed
      {form : RuleForm}
      {tokens : List Token}
      {branches : List Branch}
      (hForm : form ≠ .insertion)
      (hTargets :
        DerivesSeparated .comma (DerivesTarget context) tokens
          branches) :
      DerivesTargets context form tokens branches
  | insertion :
      DerivesTargets context .insertion []
        [{ target := nothing }]

/-
  The predicates of a rule: each after its arrow, or the one
  of an insertion, or the one of a deletion, which writes
  nothing.
-/
inductive DerivesChanges
    (context : ReadContext) :
    RuleForm → List Token → List Predicate → Prop
  | substitution
      {arrow : Token}
      {tokens : List Token}
      {predicates : List Predicate}
      (hArrow : arrow.kind = .greater)
      (hPredicates :
        DerivesSeparated .greater (DerivesPredicate context)
          tokens predicates) :
      DerivesChanges context .substitution (arrow :: tokens)
        predicates
  | insertion
      {tokens : List Token}
      {predicate : Predicate}
      (hPredicate : DerivesPredicate context tokens predicate) :
      DerivesChanges context .insertion tokens [predicate]
  | deletion
      {tokens : List Token}
      {predicate : Predicate}
      (hClauses :
        DerivesClauses context [nothing] tokens predicate) :
      DerivesChanges context .deletion tokens [predicate]

/- The body of a rule of a given form. -/
inductive DerivesBody
    (context : ReadContext)
    (form : RuleForm) :
    List Token → RuleBody → Prop
  | body
      {first later : List Token}
      {branches : List Branch}
      {predicates : List Predicate}
      (hTargets : DerivesTargets context form first branches)
      (hChanges :
        DerivesChanges context form later predicates) :
      DerivesBody context form (first ++ later)
        { branches := branches, predicates := predicates }

end Diachrony
