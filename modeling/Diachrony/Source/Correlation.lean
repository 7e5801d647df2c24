import Diachrony.Pattern.Slots
import Diachrony.Rule

/-
  Checking the correlation of categories.

  A category in a replacement takes its member from the
  category that binds the same slot in the target or, for a
  tagged one, in an environment. Both have to be of one
  length. A replacement category that is bound to nothing
  must have a single member.

  Key definitions include:
    * `slotSources`
    * `Finding`
    * `correlationFindings`
-/

namespace Diachrony

------------------------------------------------------------
-- Sources of slots
------------------------------------------------------------

/- The patterns of an environment. -/
def Environment.patterns : Environment → List Pattern
  | .around left right => [left, right]
  | .anywhere pattern _ => [pattern]

/- The tagged references in groups of environments. -/
def taggedRefs
    (groups : List EnvironmentGroup) : List CategoryRef :=
  ((groups.flatten.flatMap Environment.patterns).flatMap
    Pattern.categoryRefs).filter CategoryRef.explicit

/-
  The references that may bind a slot for a branch and a
  predicate, the first one for a slot deciding.
-/
def slotSources
    (branch : Branch)
    (predicate : Predicate) : List CategoryRef :=
  (Pattern.categoryRefs branch.target).filter
      (fun ref => ref.slot.isSome) ++
    taggedRefs predicate.environments

/- The reference that binds the slot of another reference. -/
def slotSource?
    (sources : List CategoryRef)
    (ref : CategoryRef) : Option CategoryRef :=
  match ref.slot with
  | none => none
  | some slot =>
      if slot = "" then
        none
      else
        sources.find? fun source => source.slot = some slot

------------------------------------------------------------
-- Findings
------------------------------------------------------------

/-
  What is found out about a replacement category: the
  problem, and the pairing that it disables, if any.
-/
structure Finding where
  problem : Problem
  pairing : Option Pairing := none
  deriving Repr, DecidableEq

/- What is found out about one reference in a replacement. -/
def correlationFinding?
    (predicateIndex branchIndex : Nat)
    (sources : List CategoryRef)
    (ref : CategoryRef) : Option Finding :=
  match ref.category with
  | none => none
  | some category =>
      match slotSource? sources ref with
      | none =>
          if category.size = 1 then
            none
          else
            some { problem := .nothingToCorrelate ref.text }
      | some source =>
          match source.category with
          | none => none
          | some other =>
              if other.size = category.size then
                none
              else
                some
                  { problem :=
                      .unequalLengths source.text other.size
                        ref.text category.size
                    pairing := some
                      (predicateIndex, branchIndex,
                        ref.slot.getD "") }

/- What is found out about a predicate and a branch. -/
def pairFindings
    (predicate : Predicate × Nat)
    (branch : Branch × Nat) : List Finding :=
  let sources := slotSources branch.1 predicate.1
  (Pattern.categoryRefs
    (predicate.1.replacementFor branch.2)).filterMap
      (correlationFinding? predicate.2 branch.2 sources)

/- What is found out about the categories of a rule. -/
def correlationFindings
    (branches : List Branch)
    (predicates : List Predicate) : List Finding :=
  predicates.zipIdx.flatMap fun predicate =>
    branches.zipIdx.flatMap (pairFindings predicate)

end Diachrony
