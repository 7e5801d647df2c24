import Diachrony.Proofs.Scan.Budget
import Diachrony.Proofs.Scan.Concurrence

/-
  Scanning with and without lazy marks.

  Rules without references in what they test for that differ
  in lazy marks find the same sites, and whether an
  exception vetoes a site is decided alike. So their scans
  come to the same, if no match is abandoned where they
  look.

  Key definitions include:
    * `Rule.AlikeButLazy`
    * `Rule.testedRefs`
    * `Rule.DecidesAt`
    * `Rule.DecidesScan`

  Key theorems include:
    * `Rule.findSite_concur`
    * `Rule.judge_eager`
    * `Rule.sweep_eager`
-/

namespace Diachrony

------------------------------------------------------------
-- Rules without lazy marks
------------------------------------------------------------

/- A branch whose target is without its lazy marks. -/
def Branch.eager
    (branch : Branch) : Branch :=
  { branch with target := Pattern.eager branch.target }

/- A predicate whose conditions are without lazy marks. -/
def Predicate.eager
    (predicate : Predicate) : Predicate :=
  { predicate with
    environments := eagerGroups predicate.environments
    exceptions := eagerGroups predicate.exceptions }

/- The references in what a rule tests for. -/
def Rule.testedRefs
    (rule : Rule) : List CategoryRef :=
  rule.branches.flatMap
      (fun branch => Pattern.categoryRefs branch.target) ++
    rule.predicates.flatMap fun predicate =>
      groupRefs predicate.environments ++
        groupRefs predicate.exceptions

/-
  Rules that differ in lazy marks of their targets, their
  environments and their exceptions. Nothing else matters to
  a run but what the rules are called.
-/
structure Rule.AlikeButLazy
    (one other : Rule) : Prop where
  branches :
    one.branches.map Branch.eager =
      other.branches.map Branch.eager
  predicates :
    one.predicates.map Predicate.eager =
      other.predicates.map Predicate.eager
  flags : one.flags = other.flags
  mismatched : one.mismatched = other.mismatched

section Free

variable {rule : Rule}
variable (hFree : rule.testedRefs = [])

include hFree

theorem Rule.target_free
    {branch : Branch}
    (hBranch : branch ∈ rule.branches) :
    Pattern.categoryRefs branch.target = [] :=
  List.flatMap_eq_nil_iff.mp
    (List.append_eq_nil_iff.mp hFree).1 branch hBranch

theorem Rule.groups_free
    {predicate : Predicate}
    (hPredicate : predicate ∈ rule.predicates) :
    groupRefs predicate.environments = [] ∧
      groupRefs predicate.exceptions = [] :=
  List.append_eq_nil_iff.mp
    (List.flatMap_eq_nil_iff.mp
      (List.append_eq_nil_iff.mp hFree).2 predicate hPredicate)

end Free

------------------------------------------------------------
-- Sites
------------------------------------------------------------

/- A site whose predicate is without its lazy marks. -/
def Site.eager
    (site : Site) : Site :=
  { site with predicate := site.predicate.eager }

section Sites

variable {one other : Rule}
variable {cursor : Cursor}
variable {budget : Int}

theorem Predicate.admits_concur
    {one other : Predicate}
    {site : Surroundings}
    {bindings : Bindings}
    (hSame : one.eager = other.eager)
    (hFree : groupRefs one.environments = []) :
    Concur (one.admits site bindings)
      (other.admits site bindings) := by
  have hGroups := congrArg Predicate.environments hSame
  have hEmpty :
      one.environments.isEmpty = other.environments.isEmpty := by
    have hBoth := congrArg List.isEmpty hGroups
    simpa only [eager, eagerGroups, List.isEmpty_map] using
      hBoth
  rw [admits, admits, ← hEmpty]
  split
  · exact .same _
  · exact anyHolds_concur hGroups hFree

/- What is made of a match that is admitted. -/
theorem Predicate.site?_eager
    (branch : Nat)
    (found : Match)
    (predicate : Predicate)
    (index : Nat) :
    (Predicate.site? cursor budget branch found
        (predicate, index)).map (Option.map Site.eager) =
      (predicate.admits (cursor.surroundings budget found)
        found.bindings).map
          (Option.map fun bindings =>
            { branch := branch
              found := found
              predicateIndex := index
              predicate := predicate.eager
              bindings := bindings }) := by
  rw [site?]
  cases predicate.admits (cursor.surroundings budget found)
      found.bindings with
  | error fault => rfl
  | ok result => cases result <;> rfl

theorem Predicate.site?_concur
    {branch : Nat}
    {found : Match}
    {entry later : Predicate × Nat}
    (hSame :
      Prod.map Predicate.eager id entry =
        Prod.map Predicate.eager id later)
    (hFree : groupRefs entry.1.environments = []) :
    Concur
      ((Predicate.site? cursor budget branch found entry).map
        (Option.map Site.eager))
      ((Predicate.site? cursor budget branch found later).map
        (Option.map Site.eager)) := by
  rcases entry with ⟨predicate, index⟩
  rcases later with ⟨otherPredicate, otherIndex⟩
  rcases Prod.mk.inj hSame with ⟨hPredicate, hIndex⟩
  obtain rfl : index = otherIndex := hIndex
  rw [site?_eager, site?_eager, hPredicate]
  exact (admits_concur hPredicate hFree).map _

/- What a branch that may start here makes of its match. -/
theorem Branch.site?_eager
    {rule : Rule}
    {branch : Branch}
    {allowed : Option (List Nat)}
    (hAllowed : cursor.isAllowed allowed = true)
    (index : Nat) :
    (Branch.site? rule cursor budget
        ((branch, allowed), index)).map
          (Option.map Site.eager) =
      (Pattern.matchAt branch.target cursor.word cursor.pos
        (cursor.targetRequest budget)).bind fun result =>
          match result with
          | none => .ok none
          | some found =>
              firstSome
                (fun entry =>
                  (Predicate.site? cursor budget index found
                    entry).map (Option.map Site.eager))
                rule.predicates.zipIdx := by
  rw [site?, hAllowed]
  cases Pattern.matchAt branch.target cursor.word cursor.pos
      (cursor.targetRequest budget) with
  | error fault => rfl
  | ok result =>
      cases result with
      | none => rfl
      | some found => exact (firstSome_image fun _ _ => rfl).symm

theorem Rule.findSite_eager
    (rule : Rule)
    (allowed : List (Option (List Nat))) :
    (rule.findSite budget allowed cursor).map
        (Option.map Site.eager) =
      firstSome
        (fun entry =>
          (Branch.site? rule cursor budget entry).map
            (Option.map Site.eager))
        (rule.branches.zip allowed).zipIdx :=
  (firstSome_image fun _ _ => rfl).symm

variable (hAlike : one.AlikeButLazy other)
variable (hFree : one.testedRefs = [])

include hAlike hFree

theorem Branch.site?_concur
    {entry later : (Branch × Option (List Nat)) × Nat}
    (hSame :
      Prod.map (Prod.map Branch.eager id) id entry =
        Prod.map (Prod.map Branch.eager id) id later)
    (hBranch : entry.1.1 ∈ one.branches) :
    Concur
      ((Branch.site? one cursor budget entry).map
        (Option.map Site.eager))
      ((Branch.site? other cursor budget later).map
        (Option.map Site.eager)) := by
  rcases entry with ⟨⟨branch, allowed⟩, index⟩
  rcases later with ⟨⟨otherBranch, otherAllowed⟩, otherIndex⟩
  rcases Prod.mk.inj hSame with ⟨hPair, hIndex⟩
  rcases Prod.mk.inj hPair with ⟨hBranches, hAlloweds⟩
  obtain rfl : allowed = otherAllowed := hAlloweds
  obtain rfl : index = otherIndex := hIndex
  cases hAllowed : cursor.isAllowed allowed with
  | false =>
      rw [site?, site?, hAllowed]
      exact .same _
  | true =>
  rw [site?_eager hAllowed, site?_eager hAllowed]
  have hMatches :=
    Pattern.matchAt_concur (congrArg Branch.target hBranches)
      (Rule.target_free hFree hBranch) cursor.word cursor.pos
      (rfl : (cursor.targetRequest budget).longest = true)
  refine hMatches.bind fun result _ => ?_
  cases result with
  | none => exact .same _
  | some found =>
      have hPredicates :
          one.predicates.zipIdx.map
              (Prod.map Predicate.eager id) =
            other.predicates.zipIdx.map
              (Prod.map Predicate.eager id) := by
        rw [← List.zipIdx_map, ← List.zipIdx_map,
          hAlike.predicates]
      apply firstSome_concur_map hPredicates
      intro predicate hPredicate otherPredicate hBoth
      exact Predicate.site?_concur hBoth
        (Rule.groups_free hFree
          (List.fst_mem_of_mem_zipIdx hPredicate)).1

/- The sites that are found differ in lazy marks at most. -/
theorem Rule.findSite_concur
    (allowed : List (Option (List Nat))) :
    Concur
      ((one.findSite budget allowed cursor).map
        (Option.map Site.eager))
      ((other.findSite budget allowed cursor).map
        (Option.map Site.eager)) := by
  have hBranches :
      (one.branches.zip allowed).zipIdx.map
          (Prod.map (Prod.map Branch.eager id) id) =
        (other.branches.zip allowed).zipIdx.map
          (Prod.map (Prod.map Branch.eager id) id) := by
    rw [← List.zipIdx_map, ← List.zipIdx_map, ← List.zip_map,
      ← List.zip_map, hAlike.branches]
  rw [findSite_eager, findSite_eager]
  apply firstSome_concur_map hBranches
  intro entry hEntry later hBoth
  exact Branch.site?_concur hAlike hFree hBoth
    (List.of_mem_zip (List.fst_mem_of_mem_zipIdx hEntry)).1

end Sites

------------------------------------------------------------
-- Verdicts
------------------------------------------------------------

section Verdicts

variable {one other : Rule}
variable {options : EngineOptions}
variable {allowed : List (Option (List Nat))}
variable {cursor : Cursor}
variable {budget : Int}

variable {site spot : Site}

/- What sites have in common that differ in lazy marks. -/
theorem Site.eager_inj
    (hSame : site.eager = spot.eager) :
    site.branch = spot.branch ∧
      site.found = spot.found ∧
      site.predicateIndex = spot.predicateIndex ∧
      site.predicate.eager = spot.predicate.eager ∧
      site.bindings = spot.bindings := by
  simpa only [eager, mk.injEq] using hSame

theorem Site.isVetoed_eq :
    site.isVetoed cursor budget =
      (anyHolds (cursor.surroundings budget site.found)
        site.bindings site.predicate.exceptions).map
          Option.isSome := by
  rw [isVetoed]
  cases anyHolds (cursor.surroundings budget site.found)
    site.bindings site.predicate.exceptions <;> rfl

/- A site is vetoed whether or not its marks are lazy. -/
theorem Site.isVetoed_concur
    (hSame : site.eager = spot.eager)
    (hFree : groupRefs site.predicate.exceptions = []) :
    Concur (site.isVetoed cursor budget)
      (spot.isVetoed cursor budget) := by
  rcases Site.eager_inj hSame with
    ⟨_, hFound, _, hPredicate, hBindings⟩
  have hExceptions := congrArg Predicate.exceptions hPredicate
  rw [isVetoed_eq, isVetoed_eq, ← hFound, ← hBindings]
  exact (anyHolds_concur hExceptions hFree).map _

theorem Site.emit_eager
    (rule : Rule)
    (word : WordArray)
    (written : List Symbol)
    (element : Element) :
    site.eager.emit rule word written element =
      site.emit rule word written element := by
  cases element <;> rfl

theorem Site.buildFrom_eager
    (rule : Rule)
    (word : WordArray)
    (written : List Symbol)
    (pattern : Pattern) :
    site.eager.buildFrom rule word written pattern =
      site.buildFrom rule word written pattern := by
  induction pattern generalizing written with
  | nil => rfl
  | cons element rest ih =>
      simp only [buildFrom, emit_eager, ih]

theorem Site.build_eager
    (rule : Rule)
    (word : WordArray) :
    site.eager.build rule word = site.build rule word :=
  site.buildFrom_eager rule word [] _

theorem Site.build_of_eager
    (hSame : site.eager = spot.eager)
    (hPairings : one.mismatched = other.mismatched)
    (word : WordArray) :
    site.build one word = spot.build other word := by
  calc site.build one word
      = spot.build one word := by
        rw [← build_eager, hSame, build_eager]
    _ = spot.build other word :=
        buildFrom_eq_of_mismatched hPairings _ _ _ _

/- A verdict whose site is without its lazy marks. -/
def Verdict.eager : Verdict → Verdict
  | .miss => .miss
  | .abandoned problem => .abandoned problem
  | .vetoed site => .vetoed site.eager
  | .skipped site problem => .skipped site.eager problem
  | .replaced site symbols => .replaced site.eager symbols

theorem Site.replacing_of_eager
    (hSame : site.eager = spot.eager)
    (hPairings : one.mismatched = other.mismatched)
    (word : WordArray) :
    (site.replacing options one word).map Verdict.eager =
      (spot.replacing options other word).map
        Verdict.eager := by
  have hFound := (Site.eager_inj hSame).2.1
  have hBuild := Site.build_of_eager hSame hPairings word
  have hSpan : site.span word = spot.span word := by
    rw [span, span, hFound]
  rw [replacing, replacing, hBuild, hSpan, hFound]
  cases spot.build other word with
  | error problem =>
      simp only [Except.map, Verdict.eager, hSame]
  | ok symbols =>
      dsimp only
      split
      · simp only [Except.map, Verdict.eager, hSame]
      split
      · rfl
      · simp only [Except.map, Verdict.eager, hSame]

/- No match is abandoned where a rule judges a position. -/
def Rule.DecidesAt
    (rule : Rule)
    (options : EngineOptions)
    (allowed : List (Option (List Nat)))
    (cursor : Cursor) : Prop :=
  ∀ verdict,
    rule.judge options allowed cursor = .ok verdict →
      ∀ problem, verdict.problem? = some problem →
        problem.Decided

instance Problem.decidableDecided
    (problem : Problem) :
    Decidable problem.Decided :=
  inferInstanceAs (Decidable (problem.kind ≠ .matchBudget))

instance Rule.decidableDecidesAt
    (rule : Rule)
    (options : EngineOptions)
    (allowed : List (Option (List Nat)))
    (cursor : Cursor) :
    Decidable (rule.DecidesAt options allowed cursor) :=
  decidable_of_iff
    (∀ verdict ∈ (rule.judge options allowed cursor).toOption,
      ∀ problem ∈ verdict.problem?, problem.Decided) <| by
    unfold DecidesAt
    cases rule.judge options allowed cursor <;>
      simp [Except.toOption]

theorem Rule.DecidesAt.findSite
    {rule : Rule}
    (hDecides : rule.DecidesAt options allowed cursor) :
    ¬Abandoned
      (rule.findSite options.maxMatchSteps allowed cursor) := by
  rintro ⟨steps, hFind⟩
  have hJudge :
      rule.judge options allowed cursor =
        .ok (.abandoned (.outOfSteps steps)) := by
    rw [judge, hFind]
  exact hDecides _ hJudge _ rfl rfl

theorem Rule.DecidesAt.isVetoed
    {rule : Rule}
    (hDecides : rule.DecidesAt options allowed cursor)
    (hFind :
      rule.findSite options.maxMatchSteps allowed cursor =
        .ok (some site)) :
    ¬Abandoned
      (site.isVetoed cursor options.maxMatchSteps) := by
  rintro ⟨steps, hVeto⟩
  have hJudge :
      rule.judge options allowed cursor =
        .ok (.skipped site (.outOfSteps steps)) := by
    simp only [judge, hFind, hVeto]
  exact hDecides _ hJudge _ rfl rfl

/- Sites that differ in lazy marks are judged alike. -/
theorem Rule.judge_of_sites
    (hPairings : one.mismatched = other.mismatched)
    (hSite :
      one.findSite options.maxMatchSteps allowed cursor =
        .ok (some site))
    (hSpot :
      other.findSite options.maxMatchSteps allowed cursor =
        .ok (some spot))
    (hSame : site.eager = spot.eager)
    (hVeto :
      site.isVetoed cursor options.maxMatchSteps =
        spot.isVetoed cursor options.maxMatchSteps) :
    (one.judge options allowed cursor).map Verdict.eager =
      (other.judge options allowed cursor).map
        Verdict.eager := by
  simp only [judge, hSite, hSpot, hVeto]
  cases spot.isVetoed cursor options.maxMatchSteps with
  | error fault =>
      cases fault with
      | foreignElement => rfl
      | outOfSteps steps =>
          simp only [Except.map, Verdict.eager, hSame]
  | ok vetoed =>
      cases vetoed with
      | true => simp only [Except.map, Verdict.eager, hSame]
      | false =>
          exact Site.replacing_of_eager hSame hPairings _

/-
  Where no match is abandoned, rules that differ in lazy
  marks come to the same verdict.
-/
theorem Rule.judge_eager
    (hAlike : one.AlikeButLazy other)
    (hFree : one.testedRefs = [])
    (hOne : one.DecidesAt options allowed cursor)
    (hOther : other.DecidesAt options allowed cursor) :
    (one.judge options allowed cursor).map Verdict.eager =
      (other.judge options allowed cursor).map
        Verdict.eager := by
  have hSites :
      (one.findSite options.maxMatchSteps allowed cursor).map
          (Option.map Site.eager) =
        (other.findSite options.maxMatchSteps allowed
          cursor).map (Option.map Site.eager) :=
    (Rule.findSite_concur hAlike hFree allowed).eq
      (fun hLost => hOne.findSite hLost.of_map)
      (fun hLost => hOther.findSite hLost.of_map)
  cases hSite :
      one.findSite options.maxMatchSteps allowed cursor with
  | error fault =>
      rw [hSite] at hSites
      cases hSpot :
          other.findSite options.maxMatchSteps allowed
            cursor with
      | ok reply =>
          rw [hSpot] at hSites
          cases hSites
      | error otherFault =>
          rw [hSpot] at hSites
          cases hSites
          simp only [judge, hSite, hSpot]
          cases fault <;> rfl
  | ok result =>
  rw [hSite] at hSites
  cases result with
  | none =>
      have hSpot := eq_none_of_map_image hSites.symm
      simp only [judge, hSite, hSpot]
  | some site =>
      rcases exists_of_map_image hSites.symm with
        ⟨spot, hSpot, hSame⟩
      rcases Rule.finds_of_findSite hSite with
        ⟨_, _, hFinds⟩
      have hPredicate :=
        List.mem_of_getElem? hFinds.predicate_eq
      have hVeto :=
        (Site.isVetoed_concur hSame.symm
          (Rule.groups_free hFree hPredicate).2).eq
          (hOne.isVetoed hSite) (hOther.isVetoed hSpot)
      exact Rule.judge_of_sites hAlike.mismatched hSite hSpot
        hSame.symm hVeto

end Verdicts

------------------------------------------------------------
-- Scans
------------------------------------------------------------

namespace Verdict

@[simp]
theorem applyTo_eager
    (verdict : Verdict)
    (word : WordArray) :
    verdict.eager.applyTo word = verdict.applyTo word := by
  cases verdict <;> rfl

@[simp]
theorem consumed_eager
    (verdict : Verdict) :
    verdict.eager.consumed = verdict.consumed := by
  cases verdict <;> rfl

@[simp]
theorem advance_eager
    (verdict : Verdict) :
    verdict.eager.advance = verdict.advance := by
  cases verdict <;> rfl

@[simp]
theorem nextLimit_eager
    (verdict : Verdict)
    (limit : Nat) :
    verdict.eager.nextLimit limit = verdict.nextLimit limit := by
  cases verdict <;> rfl

@[simp]
theorem followedBy_eager
    (verdict : Verdict)
    (word : WordArray)
    (later : Sweep) :
    verdict.eager.followedBy word later =
      verdict.followedBy word later := by
  cases verdict <;> rfl

/- What verdicts that differ in lazy marks do is the same. -/
structure SameEffect
    (one other : Verdict) : Prop where
  applyTo : ∀ word, one.applyTo word = other.applyTo word
  consumed : one.consumed = other.consumed
  advance : one.advance = other.advance
  nextLimit : ∀ limit, one.nextLimit limit = other.nextLimit limit
  followedBy :
    ∀ word later,
      one.followedBy word later = other.followedBy word later

theorem sameEffect_of_eager
    {one other : Verdict}
    (hSame : one.eager = other.eager) :
    one.SameEffect other where
  applyTo word := by
    rw [← applyTo_eager, hSame, applyTo_eager]
  consumed := by
    rw [← consumed_eager, hSame, consumed_eager]
  advance := by
    rw [← advance_eager, hSame, advance_eager]
  nextLimit limit := by
    rw [← nextLimit_eager, hSame, nextLimit_eager]
  followedBy word later := by
    rw [← followedBy_eager, hSame, followedBy_eager]

end Verdict

/-
  A rule decides a scan of a word that makes some visits:
  its searches for selected matches come to a result, and no
  match is abandoned where the scan looks.
-/
structure Rule.DecidesScan
    (rule : Rule)
    (options : EngineOptions)
    (word : Word)
    (visits : List Visit) : Prop where
  searched : rule.Searched options word
  decided :
    ∀ allowed,
      rule.allowedStarts options.maxMatchSteps word.toArray =
          .ok allowed →
        ∀ visit ∈ visits,
          rule.DecidesAt options allowed visit.cursor

instance Branch.decidableSearched
    (budget : Int)
    (word : WordArray)
    (branch : Branch) :
    Decidable (branch.Searched budget word) :=
  decidable_of_iff
    (branch.indices.isSome →
      (Pattern.findAll branch.target word
        budget).toOption.isSome) <| by
    unfold Searched
    cases Pattern.findAll branch.target word budget <;>
      simp [Except.toOption]

instance Rule.decidableSearched
    (rule : Rule)
    (options : EngineOptions)
    (word : Word) :
    Decidable (rule.Searched options word) :=
  inferInstanceAs
    (Decidable (∀ branch ∈ rule.branches,
      branch.Searched options.maxMatchSteps word.toArray))

instance Rule.decidableDecidesScan
    (rule : Rule)
    (options : EngineOptions)
    (word : Word)
    (visits : List Visit) :
    Decidable (rule.DecidesScan options word visits) :=
  decidable_of_iff
    (rule.Searched options word ∧
      ∀ allowed ∈
          (rule.allowedStarts options.maxMatchSteps
            word.toArray).toOption,
        ∀ visit ∈ visits,
          rule.DecidesAt options allowed visit.cursor) <| by
    constructor
    · rintro ⟨hSearched, hDecided⟩
      refine ⟨hSearched, fun allowed hAllowed => ?_⟩
      rw [hAllowed] at hDecided
      exact hDecided allowed rfl
    · rintro ⟨hSearched, hDecided⟩
      refine ⟨hSearched, fun allowed hAllowed => ?_⟩
      apply hDecided allowed
      cases hStarts :
          rule.allowedStarts options.maxMatchSteps
            word.toArray with
      | error fault =>
          rw [hStarts] at hAllowed
          cases hAllowed
      | ok starts =>
          rw [hStarts] at hAllowed
          cases hAllowed
          rfl

theorem Branch.eager_inj
    {one other : Branch}
    (hSame : one.eager = other.eager) :
    Pattern.eager one.target = Pattern.eager other.target ∧
      one.indices = other.indices := by
  simpa only [eager, mk.injEq] using hSame

/- The matches that the indices of branches select. -/
theorem Branch.allowedStarts_eager
    {one other : Branch}
    {budget : Int}
    {word : WordArray}
    (hSame : one.eager = other.eager)
    (hFree : Pattern.categoryRefs one.target = [])
    (hOne : one.Searched budget word)
    (hOther : other.Searched budget word) :
    other.allowedStarts budget word =
      one.allowedStarts budget word := by
  rcases Branch.eager_inj hSame with ⟨hTarget, hIndices⟩
  rw [allowedStarts, allowedStarts, ← hIndices]
  cases hSome : one.indices with
  | none => rfl
  | some indices =>
      rcases hOne (by rw [hSome]; rfl) with ⟨found, hFound⟩
      rcases hOther (by rw [← hIndices, hSome]; rfl) with
        ⟨others, hOthers⟩
      have hBoth :=
        Pattern.findAll_concur hTarget hFree word budget
      rw [hFound, hOthers] at hBoth
      dsimp only
      rw [hFound, hOthers, hBoth.ok_inj]

theorem allowedStartsOf_eager
    {branches others : List Branch}
    {budget : Int}
    {word : WordArray}
    (hSame : branches.map Branch.eager = others.map Branch.eager)
    (hFree :
      ∀ branch ∈ branches,
        Pattern.categoryRefs branch.target = [])
    (hOne : ∀ branch ∈ branches, branch.Searched budget word)
    (hOther : ∀ branch ∈ others, branch.Searched budget word) :
    allowedStartsOf budget word others =
      allowedStartsOf budget word branches := by
  induction branches generalizing others with
  | nil =>
      obtain rfl := List.map_eq_nil_iff.mp hSame.symm
      rfl
  | cons branch rest ih =>
      rcases List.map_eq_cons_iff.mp hSame.symm with
        ⟨otherBranch, otherRest, rfl, hBranch, hRest⟩
      rcases List.forall_mem_cons.mp hFree with
        ⟨hFreeHere, hFreeRest⟩
      rcases List.forall_mem_cons.mp hOne with
        ⟨hOneHere, hOneRest⟩
      rcases List.forall_mem_cons.mp hOther with
        ⟨hOtherHere, hOtherRest⟩
      rw [allowedStartsOf, allowedStartsOf,
        Branch.allowedStarts_eager hBranch.symm hFreeHere
          hOneHere hOtherHere,
        ih hRest.symm hFreeRest hOneRest hOtherRest]

namespace Rule

variable {one other : Rule}
variable {options : EngineOptions}
variable {allowed : List (Option (List Nat))}

section Scans

variable (hAlike : one.AlikeButLazy other)
variable (hFree : one.testedRefs = [])

include hAlike hFree

/- A verdict that stands for the other rule as well. -/
theorem exists_verdict_eager
    {cursor : Cursor}
    {verdict : Verdict}
    (hVerdict :
      one.judge options allowed cursor = .ok verdict)
    (hOne : one.DecidesAt options allowed cursor)
    (hOther : other.DecidesAt options allowed cursor) :
    ∃ reply,
      other.judge options allowed cursor = .ok reply ∧
        reply.SameEffect verdict := by
  have hSame := judge_eager hAlike hFree hOne hOther
  rw [hVerdict] at hSame
  cases hReply : other.judge options allowed cursor with
  | error fault =>
      rw [hReply] at hSame
      cases hSame
  | ok reply =>
      rw [hReply] at hSame
      exact ⟨reply, rfl,
        Verdict.sameEffect_of_eager
          (Except.ok.inj hSame).symm⟩

theorem sweepRight_eager
    {word : WordArray}
    {pos origin left : Nat}
    {visits : List Visit}
    (hVisits :
      one.visitsRight options allowed word pos origin left =
        .ok visits)
    (hDecides :
      ∀ visit ∈ visits,
        one.DecidesAt options allowed visit.cursor ∧
          other.DecidesAt options allowed visit.cursor) :
    other.sweepRight options allowed word pos origin left =
      one.sweepRight options allowed word pos origin left := by
  induction left using Nat.strongRecOn
    generalizing word pos origin visits with
  | _ left ih =>
  rcases visitsRight_cases hVisits with
    ⟨verdict, hVerdict, ⟨rfl, rfl⟩ |
      ⟨next, later, rfl, hLater, rfl⟩⟩
  · rcases List.forall_mem_singleton.mp hDecides with
      ⟨hOne, hOther⟩
    rcases exists_verdict_eager hAlike hFree hVerdict hOne
        hOther with
      ⟨reply, hReply, hSame⟩
    rw [sweepRight, sweepRight, hVerdict, judgeRight, hReply]
    simp only [hSame.applyTo, hSame.followedBy]
  · rcases List.forall_mem_cons.mp hDecides with
      ⟨⟨hOne, hOther⟩, hDecidesLater⟩
    rcases exists_verdict_eager hAlike hFree hVerdict hOne
        hOther with
      ⟨reply, hReply, hSame⟩
    have hRest :=
      ih (next - (verdict.consumed - 1)) (by omega) hLater
        hDecidesLater
    rw [sweepRight, sweepRight, hVerdict, judgeRight, hReply]
    simp only [hSame.applyTo, hSame.advance, hSame.consumed,
      hSame.followedBy, hRest]

theorem sweepLeft_eager
    {word : WordArray}
    {limit pos : Nat}
    {visits : List Visit}
    (hVisits :
      one.visitsLeft options allowed word limit pos =
        .ok visits)
    (hDecides :
      ∀ visit ∈ visits,
        one.DecidesAt options allowed visit.cursor ∧
          other.DecidesAt options allowed visit.cursor) :
    other.sweepLeft options allowed word limit pos =
      one.sweepLeft options allowed word limit pos := by
  induction pos using Nat.strongRecOn
    generalizing word limit visits with
  | _ pos ih =>
  rcases visitsLeft_cases hVisits with
    ⟨verdict, hVerdict, ⟨rfl, rfl⟩ |
      ⟨next, later, rfl, hLater, rfl⟩⟩
  · rcases List.forall_mem_singleton.mp hDecides with
      ⟨hOne, hOther⟩
    rcases exists_verdict_eager hAlike hFree hVerdict hOne
        hOther with
      ⟨reply, hReply, hSame⟩
    rw [sweepLeft, sweepLeft, hVerdict, judgeLeft, hReply]
    simp only [hSame.applyTo, hSame.followedBy]
  · rcases List.forall_mem_cons.mp hDecides with
      ⟨⟨hOne, hOther⟩, hDecidesLater⟩
    rcases exists_verdict_eager hAlike hFree hVerdict hOne
        hOther with
      ⟨reply, hReply, hSame⟩
    have hRest :=
      ih next (Nat.lt_succ_self next) hLater hDecidesLater
    rw [sweepLeft, sweepLeft, hVerdict, judgeLeft, hReply]
    simp only [hSame.applyTo, hSame.nextLimit,
      hSame.followedBy, hRest]

/- The matches that indices select are the same. -/
theorem allowedStarts_eager
    {word : Word}
    (hOne : one.Searched options word)
    (hOther : other.Searched options word) :
    other.allowedStarts options.maxMatchSteps word.toArray =
      one.allowedStarts options.maxMatchSteps word.toArray :=
  allowedStartsOf_eager hAlike.branches
    (fun _ hBranch => target_free hFree hBranch) hOne hOther

/-
  Rules that differ in lazy marks scan a word alike, if both
  decide the scan.
-/
theorem sweep_eager
    {word : Word}
    {visits : List Visit}
    (hVisits : one.visits options word = .ok visits)
    (hOne : one.DecidesScan options word visits)
    (hOther : other.DecidesScan options word visits) :
    other.sweep options word = one.sweep options word := by
  have hAllowed :=
    allowedStarts_eager hAlike hFree hOne.searched
      hOther.searched
  rw [Rule.visits] at hVisits
  rw [sweep, sweep, hAllowed]
  cases hStarts :
      one.allowedStarts options.maxMatchSteps
        word.toArray with
  | error fault => rfl
  | ok allowed =>
  rw [hStarts] at hVisits hAllowed
  have hDecides :
      ∀ visit ∈ visits,
        one.DecidesAt options allowed visit.cursor ∧
          other.DecidesAt options allowed visit.cursor :=
    fun visit hVisit =>
      ⟨hOne.decided allowed hStarts visit hVisit,
        hOther.decided allowed hAllowed visit hVisit⟩
  rw [← hAlike.flags]
  dsimp only at hVisits ⊢
  split
  · rename_i hLeft
    rw [if_pos hLeft] at hVisits
    exact sweepLeft_eager hAlike hFree hVisits hDecides
  · rename_i hRight
    rw [if_neg hRight] at hVisits
    exact sweepRight_eager hAlike hFree hVisits hDecides

end Scans

end Rule

end Diachrony
