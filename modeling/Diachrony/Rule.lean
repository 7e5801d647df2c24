import Diachrony.Diagnostic
import Diachrony.Environment
import Diachrony.Flags

/-
  Rules and blocks of rules.

  A rule turns a target into a replacement wherever an
  environment holds and no exception does. It may have
  several targets, called branches, which are tried in
  order, and several predicates, of which the later ones
  apply where the environments of the earlier ones fail.

  Key definitions include:
    * `Branch`
    * `Predicate`
    * `Rule`
    * `BlockHead`
    * `Item`
    * `Item.rules`
-/

namespace Diachrony

------------------------------------------------------------
-- Rules
------------------------------------------------------------

/-
  One target of a rule. Indices select which of its matches
  may change.
-/
structure Branch where
  target : Pattern
  indices : Option (List Int) := none
  deriving Repr

/- The written form of a branch. -/
def Branch.text
    (branch : Branch) : String :=
  Pattern.text branch.target ++ indicesText branch.indices

/-
  Replacements with the conditions under which they apply:
  one of the environments must hold, if there are any, and
  none of the exceptions may.
-/
structure Predicate where
  replacements : List Pattern
  environments : List EnvironmentGroup := []
  exceptions : List EnvironmentGroup := []
  deriving Repr

/-
  The replacement that belongs to a branch. If there are
  fewer replacements than branches, they are used in turn.
-/
def Predicate.replacementFor
    (predicate : Predicate)
    (branch : Nat) : Pattern :=
  let turn := branch % predicate.replacements.length
  predicate.replacements[turn]?.getD []

/-
  A pairing of a predicate, a branch and a slot that is
  disabled, because the paired categories differ in length.
-/
abbrev Pairing :=
  Nat × Nat × String

/- A sound change rule. -/
structure Rule where
  branches : List Branch
  predicates : List Predicate
  flags : Flags := {}
  source : String := ""
  line : Int := 0
  index : Int := 0
  diagnostics : List Diagnostic := []
  mismatched : List Pairing := []
  deriving Repr

namespace Rule

/- The name of a rule: its text, or its number. -/
def name
    (rule : Rule) : String :=
  if rule.source = "" then
    "rule #" ++ toString rule.index
  else
    rule.source

/- A rule as shown in a listing. -/
def describe
    (rule : Rule) : String :=
  "Rule(" ++ quote rule.name ++ ")"

/- A diagnostic about a run of a rule. -/
def diagnostic
    (rule : Rule)
    (problem : Problem) : Diagnostic where
  problem := problem
  line := some rule.line
  rule := some rule.name

end Rule

------------------------------------------------------------
-- Disabled pairings
------------------------------------------------------------

/- The order in which pairings are listed. -/
def Pairing.le
    (one other : Pairing) : Bool :=
  if one.1 ≠ other.1 then
    one.1 < other.1
  else if one.2.1 ≠ other.2.1 then
    one.2.1 < other.2.1
  else
    one.2.2 ≤ other.2.2

/- Insert a pairing into a sorted list, if it is not there. -/
def Pairing.insert
    (pairing : Pairing) :
    List Pairing → List Pairing
  | [] => [pairing]
  | other :: rest =>
      if pairing = other then
        other :: rest
      else if pairing.le other then
        pairing :: other :: rest
      else
        other :: Pairing.insert pairing rest

/- The distinct pairings of a list in order. -/
def Pairing.sorted
    (pairings : List Pairing) : List Pairing :=
  pairings.foldr Pairing.insert []

------------------------------------------------------------
-- Blocks
------------------------------------------------------------

/- What a block has besides its items. -/
structure BlockHead where
  flags : Flags := {}
  source : String := ""
  line : Int := 0
  index : Int := 0
  deriving Repr, DecidableEq

namespace BlockHead

/- The name of a block: its text, or its number. -/
def name
    (head : BlockHead) : String :=
  if head.source = "" then
    "block #" ++ toString head.index
  else
    head.source

/- A diagnostic about a run of a block. -/
def diagnostic
    (head : BlockHead)
    (problem : Problem) : Diagnostic where
  problem := problem
  line := some head.line
  rule := some head.name

end BlockHead

/- A rule, or a block of items that is run as a unit. -/
inductive Item where
  | rule (rule : Rule)
  | block (head : BlockHead) (items : List Item)
  deriving Repr

namespace Item

/- The flags of an item. -/
def flags : Item → Flags
  | .rule r => r.flags
  | .block head _ => head.flags

/- The name of an item. -/
def name : Item → String
  | .rule r => r.name
  | .block head _ => head.name

/- An item as shown in a listing. -/
def describe : Item → String
  | .rule r => r.describe
  | .block head items =>
      "Block(" ++ quote head.name ++ ", " ++
        toString items.length ++ " rules)"

end Item

mutual

/- The rules of an item, in order. -/
def Item.rules : Item → List Rule
  | .rule r => [r]
  | .block _ items => Items.rules items

/- The rules of a list of items, in order. -/
def Items.rules : List Item → List Rule
  | [] => []
  | item :: rest => Item.rules item ++ Items.rules rest

end

end Diachrony
