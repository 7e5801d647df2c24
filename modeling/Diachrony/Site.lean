import Diachrony.Integrity
import Diachrony.Rule

/-
  Sites: the places of a word where a rule applies.

  At a position the branches of a rule are tried in order,
  and for each branch that matches the predicates. The
  first pair whose environments hold makes the site. It is
  replaced unless an exception vetoes it or its
  replacement cannot be built.

  Key definitions include:
    * `EngineOptions`
    * `Site`
    * `Rule.allowedStarts`
    * `Rule.findSite`
    * `Site.isVetoed`
    * `Site.build`
    * `Verdict`
    * `Rule.judge`
-/

namespace Diachrony

------------------------------------------------------------
-- Options
------------------------------------------------------------

/-
  How rules are run: the general pass bound of persistent
  rules, the step budget of each match, whether a persistent
  run ends when a form of the word comes back, and whether
  the work is checked.
-/
structure EngineOptions where
  maxPasses : Int := 1000
  maxMatchSteps : Int := defaultBudget
  detectCycles : Bool := true
  strict : Bool := true
  deriving Repr, DecidableEq

------------------------------------------------------------
-- Finding a site
------------------------------------------------------------

/-
  A place where a branch matches and the environments of a
  predicate hold.
-/
structure Site where
  branch : Nat
  found : Match
  predicateIndex : Nat
  predicate : Predicate
  bindings : Bindings
  deriving Repr

/-
  Where a branch may start: anywhere, or at the starts of
  the matches that its indices select. A search that runs
  out of steps selects nothing.
-/
def Branch.allowedStarts
    (budget : Int)
    (word : WordArray)
    (branch : Branch) :
    Except RunFault (Option (List Nat)) :=
  match branch.indices with
  | none => .ok none
  | some indices =>
      match Pattern.findAll branch.target word budget with
      | .ok found =>
          .ok (some ((select found indices).map Match.start))
      | .error (.outOfSteps _) => .ok (some [])
      | .error .foreignElement => .error .foreignElement

/- Where each branch of a list may start in a word. -/
def allowedStartsOf
    (budget : Int)
    (word : WordArray) :
    List Branch → Except RunFault (List (Option (List Nat)))
  | [] => .ok []
  | branch :: rest =>
      match branch.allowedStarts budget word with
      | .error fault => .error fault
      | .ok starts =>
          match allowedStartsOf budget word rest with
          | .error fault => .error fault
          | .ok others => .ok (starts :: others)

/- Where each branch of a rule may start in a word. -/
def Rule.allowedStarts
    (rule : Rule)
    (budget : Int)
    (word : WordArray) :
    Except RunFault (List (Option (List Nat))) :=
  allowedStartsOf budget word rule.branches

/-
  A position of the scan. The origin is the same position
  in the word as it was when the scan began.
-/
structure Cursor where
  word : WordArray
  pos : Nat
  limit : Nat
  origin : Nat
  deriving Repr, DecidableEq

namespace Cursor

/- The surroundings of a span that was matched. -/
def surroundings
    (cursor : Cursor)
    (budget : Int)
    (found : Match) : Surroundings where
  word := cursor.word
  start := found.start
  stop := found.stop
  target := cursor.word.span found.start found.stop
  budget := budget

/- What is asked of a target. -/
def targetRequest
    (cursor : Cursor)
    (budget : Int) : MatchRequest where
  limit := some (cursor.limit : Int)
  budget := budget

/- Whether a branch may start here. -/
def isAllowed
    (cursor : Cursor)
    (allowed : Option (List Nat)) : Bool :=
  allowed.all fun starts => starts.contains cursor.origin

end Cursor

/- The bindings under which a predicate admits a match. -/
def Predicate.admits
    (predicate : Predicate)
    (site : Surroundings)
    (bindings : Bindings) :
    Except MatchFault (Option Bindings) :=
  if predicate.environments.isEmpty then
    .ok (some bindings)
  else
    anyHolds site bindings predicate.environments

/- The site that a branch and one predicate make. -/
def Predicate.site?
    (cursor : Cursor)
    (budget : Int)
    (branch : Nat)
    (found : Match)
    (entry : Predicate × Nat) :
    Except MatchFault (Option Site) :=
  match
    entry.1.admits
      (cursor.surroundings budget found) found.bindings
  with
  | .error fault => .error fault
  | .ok none => .ok none
  | .ok (some bindings) =>
      .ok (some
        { branch := branch
          found := found
          predicateIndex := entry.2
          predicate := entry.1
          bindings := bindings })

/- The site that a branch makes at a position. -/
def Branch.site?
    (rule : Rule)
    (cursor : Cursor)
    (budget : Int)
    (entry : (Branch × Option (List Nat)) × Nat) :
    Except MatchFault (Option Site) :=
  if !cursor.isAllowed entry.1.2 then
    .ok none
  else
    match
      Pattern.matchAt entry.1.1.target cursor.word cursor.pos
        (cursor.targetRequest budget)
    with
    | .error fault => .error fault
    | .ok none => .ok none
    | .ok (some found) =>
        firstSome
          (Predicate.site? cursor budget entry.2 found)
          rule.predicates.zipIdx

/- The site of a rule at a position. -/
def Rule.findSite
    (rule : Rule)
    (budget : Int)
    (allowed : List (Option (List Nat)))
    (cursor : Cursor) :
    Except MatchFault (Option Site) :=
  firstSome
    (Branch.site? rule cursor budget)
    (rule.branches.zip allowed).zipIdx

------------------------------------------------------------
-- Exceptions
------------------------------------------------------------

/- Whether an exception holds at a site. -/
def Site.isVetoed
    (site : Site)
    (cursor : Cursor)
    (budget : Int) : Except MatchFault Bool :=
  match
    anyHolds (cursor.surroundings budget site.found)
      site.bindings site.predicate.exceptions
  with
  | .error fault => .error fault
  | .ok found => .ok found.isSome

------------------------------------------------------------
-- Replacements
------------------------------------------------------------

namespace Site

/- The position that the slot of a reference is bound to. -/
def boundPosition?
    (site : Site)
    (ref : CategoryRef) : Option Int :=
  match ref.slot with
  | none => none
  | some slot =>
      if slot = "" then none else site.bindings.get? slot

/- Whether the pairing of a slot at this site is disabled. -/
def isMismatched
    (site : Site)
    (rule : Rule)
    (ref : CategoryRef) : Bool :=
  rule.mismatched.contains
    (site.predicateIndex, site.branch, ref.slot.getD "")

/-
  The symbols that a category in a replacement writes: the
  member at the bound position, or the only member if
  nothing is bound.
-/
def correlate
    (site : Site)
    (rule : Rule)
    (ref : CategoryRef) : Except Problem (List Symbol) :=
  match ref.category with
  | none => .error (.undefinedCategory ref.name)
  | some category =>
      match site.boundPosition? ref with
      | none =>
          if category.size = 1 then
            .ok (category.members.flatMap Member.symbols)
          else
            .error (.noMemberChosen ref.text)
      | some position =>
          if site.isMismatched rule ref ∨
              (category.size : Int) ≤ position then
            .error (.memberMissing ref.text)
          else
            .ok ((nth? category.members position).getD []
              |>.symbols)

/- The matched symbols of a site. -/
def span
    (site : Site)
    (word : WordArray) : Word :=
  word.span site.found.start site.found.stop

/- The symbol that a copying element repeats. -/
def previous?
    (site : Site)
    (word : WordArray)
    (written : List Symbol) : Option Symbol :=
  match written.getLast? with
  | some symbol => some symbol
  | none =>
      if 0 < site.found.start then
        word[site.found.start - 1]?
      else
        none

/- The symbols that an element adds to those written so far. -/
def emit
    (site : Site)
    (rule : Rule)
    (word : WordArray)
    (written : List Symbol) :
    Element → Except Problem (List Symbol)
  | .literal symbol => .ok [symbol]
  | .null => .ok []
  | .target reversed =>
      .ok (if reversed then (site.span word).reverse
        else site.span word)
  | .ditto => .ok (site.previous? word written).toList
  | .category ref => site.correlate rule ref
  | element => .error (.unwritable element.text)

/- The symbols that a replacement writes after others. -/
def buildFrom
    (site : Site)
    (rule : Rule)
    (word : WordArray)
    (written : List Symbol) :
    Pattern → Except Problem (List Symbol)
  | [] => .ok written
  | element :: rest =>
      match site.emit rule word written element with
      | .error problem => .error problem
      | .ok symbols =>
          site.buildFrom rule word (written ++ symbols) rest

/- The symbols that replace the span of a site. -/
def build
    (site : Site)
    (rule : Rule)
    (word : WordArray) : Except Problem (List Symbol) :=
  site.buildFrom rule word []
    (site.predicate.replacementFor site.branch)

end Site

------------------------------------------------------------
-- Verdicts
------------------------------------------------------------

/- What becomes of a position. -/
inductive Verdict where
  | miss
  | abandoned (problem : Problem)
  | vetoed (site : Site)
  | skipped (site : Site) (problem : Problem)
  | replaced (site : Site) (symbols : List Symbol)
  deriving Repr

namespace Verdict

/- The site of a verdict, if one was found. -/
def site? : Verdict → Option Site
  | miss => none
  | abandoned _ => none
  | vetoed site => some site
  | skipped site _ => some site
  | replaced site _ => some site

/- The problem that a verdict reports. -/
def problem? : Verdict → Option Problem
  | abandoned problem => some problem
  | skipped _ problem => some problem
  | _ => none

/- Whether a verdict is a veto. -/
def isVeto : Verdict → Bool
  | vetoed _ => true
  | _ => false

end Verdict

/- The verdict on a site that no exception vetoes. -/
def Site.replacing
    (site : Site)
    (options : EngineOptions)
    (rule : Rule)
    (word : WordArray) : Except RunFault Verdict :=
  match site.build rule word with
  | .error problem => .ok (.skipped site problem)
  | .ok symbols =>
      if symbols = site.span word then
        .ok (.replaced site symbols)
      else
        match
          checkSite options.strict word.toList
            site.found.start site.found.stop
            (symbols.map Value.text)
        with
        | .error violation => .error (.violation violation)
        | .ok () => .ok (.replaced site symbols)

/- The verdict on a position. -/
def Rule.judge
    (rule : Rule)
    (options : EngineOptions)
    (allowed : List (Option (List Nat)))
    (cursor : Cursor) : Except RunFault Verdict :=
  match rule.findSite options.maxMatchSteps allowed cursor with
  | .error .foreignElement => .error .foreignElement
  | .error (.outOfSteps steps) =>
      .ok (.abandoned (.outOfSteps steps))
  | .ok none => .ok .miss
  | .ok (some site) =>
      match site.isVetoed cursor options.maxMatchSteps with
      | .error .foreignElement => .error .foreignElement
      | .error (.outOfSteps steps) =>
          .ok (.skipped site (.outOfSteps steps))
      | .ok true => .ok (.vetoed site)
      | .ok false => site.replacing options rule cursor.word

end Diachrony
