import Diachrony.Proofs.Run.License
import Diachrony.Proofs.Run.Reports
import Diachrony.Proofs.Scan.Correlation
import Diachrony.Proofs.Scan.Environments

/-
  Correlation carries the position of a member.

  Whatever pass of a run a site is found in, the members
  that the references of the target and of the environment
  have matched determine what the references paired with
  them write: the members at the same positions. Where there
  is no such member the site stays as it is, and the run
  reports it.

  Key definitions include:
    * `Rule.Carries`
    * `Rule.CarriesWhere`
    * `Rule.Correlates`
    * `Rule.Decides`

  Key theorems include:
    * `Rule.Decides.carries`
    * `Rule.Decides.carries_target`
    * `Rule.Decides.carries_environment`
    * `Rule.correlation_carries`
-/

namespace Diachrony

------------------------------------------------------------
-- What becomes of a reference
------------------------------------------------------------

/-
  A visit does justice to a reference, between two parts of
  the replacement of a site, that is held to a position:
    * if the site is replaced, the reference has written its
      member at the position;
    * if it has no such member, or its slot was found to pair
      categories of different lengths, the word stays as it
      is, and a mismatch is reported, unless an element
      before the reference is what caused the site to be
      skipped.
-/
structure Rule.Carries
    (rule : Rule)
    (outcome : RuleOutcome)
    (visit : Visit)
    (site : Site)
    (front : Pattern)
    (own : CategoryRef)
    (back : Pattern)
    (position : Nat) : Prop where
  written :
    ∀ symbols,
      visit.verdict = .replaced site symbols →
        site.Emits rule visit.cursor.word front own back
          position symbols
  missing :
    ∀ category slot,
      own.category = some category →
      own.slot = some slot →
      (category.size ≤ position ∨
        rule.FindsUnequal site.predicateIndex site.branch
          slot) →
        visit.result = visit.cursor.word ∧
          ((∃ problem,
            site.buildFrom rule visit.cursor.word [] front =
                .error problem ∧
              visit.verdict = .skipped site problem) ∨
          (visit.verdict =
              .skipped site (.memberMissing own.text) ∧
            ∃ diagnostic ∈ outcome.diagnostics,
              diagnostic.kind = .correlationMismatch ∧
                (rule.diagnostic
                  (.memberMissing own.text)).sameReport
                    diagnostic = true))

/-
  A visit carries a position to all references of the
  replacement of a site that are paired with something.
-/
def Rule.CarriesWhere
    (rule : Rule)
    (outcome : RuleOutcome)
    (visit : Visit)
    (site : Site)
    (paired : Pattern → CategoryRef → Prop)
    (position : Nat) : Prop :=
  ∀ front own back,
    site.predicate.replacementFor site.branch =
      front ++ .category own :: back →
    paired front own →
      rule.Carries outcome visit site front own back position

/-
  On the way to the match of a site, a reference between two
  parts of the target has matched its member at a position.
-/
def Site.HasMatched
    (site : Site)
    (options : EngineOptions)
    (cursor : Cursor)
    (before : Pattern)
    (ref : CategoryRef)
    (after : Pattern)
    (position : Nat) : Prop :=
  ref.MatchesAt
    ((cursor.targetRequest options.maxMatchSteps).window
      cursor.word)
    before after ⟨cursor.pos, []⟩
    ⟨site.found.stop, site.found.bindings⟩ position

/- References have the same tag. -/
def CategoryRef.SharesTag
    (ref own : CategoryRef) : Prop :=
  ref.explicit = true ∧
    own.explicit = true ∧
    own.slot = ref.slot

/-
  References are paired: they have the same tag, or they are
  untagged and as many untagged ones stand before each.
-/
def CategoryRef.IsPaired
    (before : Pattern)
    (ref : CategoryRef)
    (front : Pattern)
    (own : CategoryRef) : Prop :=
  ref.SharesTag own ∨
    (ref.explicit = false ∧
      own.explicit = false ∧
      Pattern.untagged front = Pattern.untagged before)

/-
  A visit that finds a site made by a branch carries
  positions over:
    * a reference by itself in the target has matched one of
      its members, and those that are paired with it write
      theirs at that position;
    * so has a tagged one by itself in a group of
      environments that held;
    * whatever a slot is bound to, and wherever it was bound,
      is a position, and those with that tag write theirs;
    * a reference inside a group is not written, and nor is
      anything else.
-/
structure Rule.Correlates
    (rule : Rule)
    (options : EngineOptions)
    (outcome : RuleOutcome)
    (visit : Visit)
    (branch : Branch)
    (site : Site) : Prop where
  target :
    ∀ before ref after,
      branch.target = before ++ .category ref :: after →
        (∃ position,
          site.HasMatched options visit.cursor before ref after
            position) ∧
        ∀ position,
          site.HasMatched options visit.cursor before ref after
            position →
          rule.CarriesWhere outcome visit site
            (ref.IsPaired before) position
  environment :
    ∀ group ∈ site.predicate.environments,
      EnvironmentGroup.holds
          (visit.cursor.surroundings options.maxMatchSteps
            site.found)
          site.found.bindings group =
        .ok (some site.bindings) →
      ∀ environment ∈ group, ∀ before ref after,
        before ++ .category ref :: after ∈
          environment.patterns →
        ref.explicit = true →
          ∃ request start found position,
            Pattern.matchAt (before ++ .category ref :: after)
                visit.cursor.word ((start : Nat) : Int)
                request =
              .ok (some found) ∧
              ref.MatchesAt (request.window visit.cursor.word)
                before after (request.point start)
                ⟨found.stop, found.bindings⟩ position ∧
              rule.CarriesWhere outcome visit site
                (fun _ own => ref.SharesTag own) position
  bound :
    ∀ slot bound,
      site.bindings.get? slot = some bound →
        ∃ position : Nat,
          bound = position ∧
            rule.CarriesWhere outcome visit site
              (fun _ own =>
                own.explicit = true ∧ own.slot = some slot)
              position
  grouped :
    ∀ front element back own,
      site.predicate.replacementFor site.branch =
        front ++ element :: back →
      own ∈ element.categoryRefs →
      element ≠ .category own →
        visit.result = visit.cursor.word ∧
          ∃ problem,
            site.buildFrom rule visit.cursor.word []
                (front ++ [element]) =
              .error problem ∧
              visit.verdict = .skipped site problem

------------------------------------------------------------
-- Bindings of a site
------------------------------------------------------------

section Bindings

variable {rule : Rule}
variable {body : RuleBody}
variable {site : Site}
variable {cursor : Cursor}
variable {budget : Int}

/-
  What the references of the environments of a predicate
  preserve as they are read, holding environments keep.
-/
theorem Rule.Assembled.keeps_of_holds
    (hRule : rule.Assembled body)
    (hPredicate : site.predicate ∈ rule.predicates)
    (hHolds :
      site.predicate.HoldsAround
        (cursor.surroundings budget site.found)
        site.found.bindings site.bindings)
    {property : Bindings → Prop}
    (hRefs :
      ∀ group ∈ site.predicate.environments,
        ∀ pattern ∈ group.flatMap Environment.patterns,
          ∀ ref ∈ Pattern.categoryRefs pattern,
            ref.AsRead → ref.Preserves property)
    (hProperty : property site.found.bindings) :
    property site.bindings := by
  rcases hHolds with ⟨_, hSame⟩ | ⟨group, hGroup, hHolds⟩
  · rw [hSame]
    exact hProperty
  · have hRead := hRule.asRead_of_group hPredicate hGroup
    have hMatched :=
      EnvironmentGroup.matchedInTurn hHolds
    exact
      hMatched.keeps
        (fun pattern hPattern => (hRead pattern hPattern).bounded)
        (fun pattern hPattern ref hRef =>
          hRefs group hGroup pattern hPattern ref hRef
            ((hRead pattern hPattern).refs ref hRef))
        hProperty

/- References that are paired have the same slot. -/
theorem CategoryRef.IsPaired.slot_eq
    {before after front back target replacement : Pattern}
    {ref own : CategoryRef}
    (hTarget :
      Pattern.assignSlots target =
        before ++ .category ref :: after)
    (hReplacement :
      Pattern.assignSlots replacement =
        front ++ .category own :: back)
    (hPaired : ref.IsPaired before front own) :
    own.slot = ref.slot := by
  rcases hPaired with ⟨_, _, hSame⟩ | ⟨hRef, hOwn, hCount⟩
  · exact hSame
  · rw [Pattern.slot_of_untagged hReplacement hOwn,
      Pattern.slot_of_untagged hTarget hRef, hCount]

end Bindings

------------------------------------------------------------
-- Decided sites
------------------------------------------------------------

/-
  A visit of a compiled rule decides a site: the rule
  licenses the site, the verdict is that on its replacement,
  and what the visit reports is in the outcome.
-/
structure Rule.Decides
    (rule : Rule)
    (body : RuleBody)
    (options : EngineOptions)
    (word : Word)
    (outcome : RuleOutcome)
    (visit : Visit)
    (branch : Branch)
    (site : Site) : Prop where
  assembled : rule.Assembled body
  licensed :
    rule.Licenses options word visit.cursor branch site
  replacing :
    site.replacing options rule visit.cursor.word =
      .ok visit.verdict
  reported :
    ∀ problem,
      visit.verdict.problem? = some problem →
        (rule.diagnostic problem).isReported
          outcome.diagnostics = true

namespace Rule.Decides

variable {rule : Rule}
variable {body : RuleBody}
variable {options : EngineOptions}
variable {word : Word}
variable {outcome : RuleOutcome}
variable {visit : Visit}
variable {branch : Branch}
variable {site : Site}

theorem predicate_mem
    (hDecides :
      rule.Decides body options word outcome visit branch site) :
    site.predicate ∈ rule.predicates :=
  List.mem_of_getElem? hDecides.licensed.predicate_eq

theorem branch_mem
    (hDecides :
      rule.Decides body options word outcome visit branch site) :
    branch ∈ rule.branches :=
  List.mem_of_getElem? hDecides.licensed.branch_eq

/- A site that cannot be built stays as it is. -/
theorem kept_of_error
    (hDecides :
      rule.Decides body options word outcome visit branch site)
    {problem : Problem}
    (hBuild :
      site.build rule visit.cursor.word = .error problem) :
    visit.result = visit.cursor.word ∧
      visit.verdict = .skipped site problem := by
  rcases Site.replacing_cases hDecides.replacing with
    ⟨other, hOther, hVerdict⟩ | ⟨built, hBuilt, _⟩
  · cases hBuild.symm.trans hOther
    refine ⟨?_, hVerdict⟩
    rw [Visit.result, hVerdict]
    rfl
  · cases hBuild.symm.trans hBuilt

/- A missing member is reported as a mismatch. -/
theorem mismatch_reported
    (hDecides :
      rule.Decides body options word outcome visit branch site)
    {text : String}
    (hVerdict :
      visit.verdict = .skipped site (.memberMissing text)) :
    ∃ diagnostic ∈ outcome.diagnostics,
      diagnostic.kind = .correlationMismatch ∧
        (rule.diagnostic (.memberMissing text)).sameReport
          diagnostic = true := by
  have hReported :=
    hDecides.reported (.memberMissing text)
      (by rw [hVerdict]; rfl)
  rcases List.any_eq_true.mp hReported with
    ⟨diagnostic, hDiagnostic, hSame⟩
  refine ⟨diagnostic, hDiagnostic, ?_, hSame⟩
  simp only [Diagnostic.sameReport, Bool.and_eq_true,
    decide_eq_true_eq] at hSame
  exact hSame.1.1.1.1.symm

/- Where a slot is bound, the members are carried over. -/
theorem carries
    (hDecides :
      rule.Decides body options word outcome visit branch site)
    {front back : Pattern}
    {own : CategoryRef}
    {position : Nat}
    (hReplacement :
      site.predicate.replacementFor site.branch =
        front ++ .category own :: back)
    (hBound :
      site.boundPosition? own = some (position : Int)) :
    rule.Carries outcome visit site front own back
      position where
  written := by
    intro symbols hVerdict
    have hReplacing := hDecides.replacing
    rw [hVerdict] at hReplacing
    rcases Site.replacing_cases hReplacing with
      ⟨_, _, hOther⟩ | ⟨built, hBuild, hSame⟩
    · cases hOther
    · cases hSame
      exact Site.emits_of_build hReplacement hBound hBuild
  missing := by
    intro category slot hCategory hSlot hMissing
    have hPairing :
        site.isMismatched rule own = true ↔
          rule.FindsUnequal site.predicateIndex site.branch
            slot := by
      rw [Site.isMismatched, hSlot, List.contains_iff_mem]
      exact hDecides.assembled.mem_mismatched
    have hFailing :
        site.isMismatched rule own = true ∨
          category.size ≤ position := by
      rw [hPairing]
      exact hMissing.symm
    rcases Site.build_of_missing hReplacement hBound hCategory
        hFailing with
      hBuild | ⟨problem, hFront, hBuild⟩
    · rcases hDecides.kept_of_error hBuild with
        ⟨hKept, hVerdict⟩
      exact ⟨hKept, Or.inr
        ⟨hVerdict, hDecides.mismatch_reported hVerdict⟩⟩
    · rcases hDecides.kept_of_error hBuild with
        ⟨hKept, hVerdict⟩
      exact ⟨hKept, Or.inl ⟨problem, hFront, hVerdict⟩⟩

/- A slot that is bound carries over to those that have it. -/
theorem carriesWhere
    (hDecides :
      rule.Decides body options word outcome visit branch site)
    {paired : Pattern → CategoryRef → Prop}
    {slot : String}
    {position : Nat}
    (hPaired : ∀ front own back,
      site.predicate.replacementFor site.branch =
        front ++ .category own :: back →
      paired front own → own.slot = some slot)
    (hBound :
      site.bindings.get? slot = some (position : Int)) :
    rule.CarriesWhere outcome visit site paired position := by
  intro front own back hReplacement hOwn
  apply hDecides.carries hReplacement
  have hSlot := hPaired front own back hReplacement hOwn
  rcases hDecides.assembled.exists_replacement
      hDecides.predicate_mem site.branch with
    ⟨pattern, hRead, hPattern⟩
  have hSlots := Pattern.wellSlotted_assignSlots hRead.refs
  rw [← hPattern, hReplacement] at hSlots
  rcases hSlots.behind with ⟨other, hOther, hSome, _⟩
  obtain rfl : slot = other :=
    Option.some.inj (hSlot.symm.trans hOther)
  rw [Site.boundPosition?, hSlot]
  dsimp only
  rw [if_neg hSome, hBound]

/- The match of a decided site ends a path of its target. -/
theorem path
    (hDecides :
      rule.Decides body options word outcome visit branch site) :
    ⟨site.found.stop, site.found.bindings⟩ ∈
      Pattern.paths
        ((visit.cursor.targetRequest
          options.maxMatchSteps).window visit.cursor.word)
        branch.target ⟨visit.cursor.pos, []⟩ := by
  rcases hDecides.assembled.exists_target hDecides.branch_mem
    with ⟨pattern, hRead, hPattern⟩
  have hBounds : Pattern.wellBounded branch.target = true := by
    rw [hPattern]
    exact hRead.bounded_assignSlots
  rcases (hDecides.licensed.longest hBounds).1 with
    ⟨reached, hReached, hFound⟩
  rw [← hFound]
  exact hReached

/- What a reference of the target has matched stays bound. -/
theorem bound_of_hasMatched
    (hDecides :
      rule.Decides body options word outcome visit branch site)
    {before after : Pattern}
    {ref : CategoryRef}
    (hTarget :
      branch.target = before ++ .category ref :: after)
    {position : Nat}
    (hMatched :
      site.HasMatched options visit.cursor before ref after
        position) :
    ∃ slot,
      ref.slot = some slot ∧
        site.bindings.get? slot = some (position : Int) := by
  rcases hDecides.assembled.exists_target hDecides.branch_mem
    with ⟨pattern, hRead, hPattern⟩
  have hSlots := Pattern.wellSlotted_assignSlots hRead.refs
  rw [← hPattern, hTarget] at hSlots
  rcases hSlots.behind with ⟨slot, hSlot, _, hBehind⟩
  refine ⟨slot, hSlot, ?_⟩
  have hTagged : ∀ other ∈ Pattern.categoryRefs after,
      other.slot = some slot → other.explicit = true :=
    fun other hOther hShared =>
      (hBehind other hOther hShared).2
  have hFound :
      site.found.bindings.get? slot =
        some (position : Int) :=
    hMatched.bound hSlot hTagged
  exact
    hDecides.assembled.keeps_of_holds hDecides.predicate_mem
      hDecides.licensed.holds
      (fun _ _ _ _ _ _ hRead =>
        CategoryRef.preserves_bound hRead.tagged_of_slot)
      hFound

/- A reference of the target carries over what it matched. -/
theorem carries_target
    (hDecides :
      rule.Decides body options word outcome visit branch site)
    {before after : Pattern}
    {ref : CategoryRef}
    (hTarget :
      branch.target = before ++ .category ref :: after)
    {position : Nat}
    (hMatched :
      site.HasMatched options visit.cursor before ref after
        position) :
    rule.CarriesWhere outcome visit site
      (ref.IsPaired before) position := by
  rcases hDecides.assembled.exists_target hDecides.branch_mem
    with ⟨target, _, hNumbered⟩
  rcases hDecides.assembled.exists_replacement
      hDecides.predicate_mem site.branch with
    ⟨replacement, _, hWritten⟩
  rcases hDecides.bound_of_hasMatched hTarget hMatched with
    ⟨slot, hSlot, hBound⟩
  apply hDecides.carriesWhere _ hBound
  intro front own back hReplacement hPaired
  have hSame :=
    hPaired.slot_eq (hNumbered.symm.trans hTarget)
      (hWritten.symm.trans hReplacement)
  exact hSame.trans hSlot

/- So does a tagged reference of a group that holds. -/
theorem carries_environment
    (hDecides :
      rule.Decides body options word outcome visit branch site)
    {group : EnvironmentGroup}
    (hGroup : group ∈ site.predicate.environments)
    (hHolds :
      EnvironmentGroup.holds
          (visit.cursor.surroundings options.maxMatchSteps
            site.found)
          site.found.bindings group =
        .ok (some site.bindings))
    {before after : Pattern}
    {ref : CategoryRef}
    (hMem :
      before ++ .category ref :: after ∈
        group.flatMap Environment.patterns)
    (hTagged : ref.explicit = true) :
    ∃ request start found position,
      Pattern.matchAt (before ++ .category ref :: after)
          visit.cursor.word ((start : Nat) : Int) request =
        .ok (some found) ∧
        ref.MatchesAt (request.window visit.cursor.word)
          before after (request.point start)
          ⟨found.stop, found.bindings⟩ position ∧
        rule.CarriesWhere outcome visit site
          (fun _ own => ref.SharesTag own) position := by
  have hRead :=
    hDecides.assembled.asRead_of_group hDecides.predicate_mem
      hGroup
  have hRef := Pattern.mem_categoryRefs_split before after ref
  rcases ((hRead _ hMem).refs ref hRef).tagged hTagged with
    ⟨n, hSlot⟩
  have hMatched := EnvironmentGroup.matchedInTurn hHolds
  rcases hMatched.exists_matchesAt
      (fun pattern hPattern => (hRead pattern hPattern).bounded)
      (fun pattern hPattern other hOther =>
        ((hRead pattern hPattern).refs other
          hOther).tagged_of_slot)
      hSlot hMem with
    ⟨request, start, found, position, hFound, hMatches, hBound⟩
  refine ⟨request, start, found, position, hFound, hMatches, ?_⟩
  apply hDecides.carriesWhere _ hBound
  intro front own back _ hShared
  exact hShared.2.2.trans hSlot

/- The slots of a decided site are bound to positions. -/
theorem areNumbered
    (hDecides :
      rule.Decides body options word outcome visit branch site) :
    site.bindings.AreNumbered := by
  have hNone : Bindings.AreNumbered [] := by
    intro slot bound hBound
    cases hBound
  have hKeeps :
      Reach.Keeps Bindings.AreNumbered
        (Pattern.paths
          ((visit.cursor.targetRequest
            options.maxMatchSteps).window visit.cursor.word)
          branch.target) :=
    Pattern.paths_keep branch.target fun ref _ =>
      ref.preserves_areNumbered
  exact
    hDecides.assembled.keeps_of_holds hDecides.predicate_mem
      hDecides.licensed.holds
      (fun _ _ _ _ ref _ _ => ref.preserves_areNumbered)
      (hKeeps hNone hDecides.path)

/- A decided site carries positions over. -/
theorem correlates
    (hDecides :
      rule.Decides body options word outcome visit branch site) :
    rule.Correlates options outcome visit branch site where
  target := by
    intro before ref after hTarget
    constructor
    · have hPath := hDecides.path
      rw [hTarget] at hPath
      exact CategoryRef.exists_matchesAt hPath
    · intro position hMatched
      exact hDecides.carries_target hTarget hMatched
  environment := by
    intro group hGroup hHolds environment hEnvironment before
      ref after hPattern hTagged
    have hMem :
        before ++ .category ref :: after ∈
          group.flatMap Environment.patterns :=
      List.mem_flatMap.mpr
        ⟨environment, hEnvironment, hPattern⟩
    exact
      hDecides.carries_environment hGroup hHolds hMem hTagged
  bound := by
    intro slot bound hBound
    rcases hDecides.areNumbered slot bound hBound with
      ⟨position, rfl⟩
    refine ⟨position, rfl, hDecides.carriesWhere ?_ hBound⟩
    intro front own back _ hShared
    exact hShared.2
  grouped := by
    intro front element back own hReplacement hRef hGroup
    rcases Site.build_of_group hReplacement hRef hGroup with
      ⟨problem, hFront, hBuild⟩
    rcases hDecides.kept_of_error hBuild with
      ⟨hKept, hVerdict⟩
    exact ⟨hKept, problem, hFront, hVerdict⟩

end Rule.Decides

------------------------------------------------------------
-- Runs
------------------------------------------------------------

/- A visit whose site no exception vetoes decides the site. -/
theorem Rule.exists_decides
    {rule : Rule}
    {body : RuleBody}
    {options : EngineOptions}
    {word : Word}
    {outcome : RuleOutcome}
    {visits : List Visit}
    {visit : Visit}
    {site : Site}
    (hRule : rule.Assembled body)
    (hVisits : rule.visits options word = .ok visits)
    (hVisit : visit ∈ visits)
    (hSite : visit.verdict.site? = some site)
    (hUnvetoed :
      site.isVetoed visit.cursor options.maxMatchSteps =
        .ok false)
    (hReported : ∀ problem,
      visit.verdict.problem? = some problem →
        (rule.diagnostic problem).isReported
          outcome.diagnostics = true) :
    ∃ branch,
      rule.Decides body options word outcome visit branch
        site := by
  rcases List.append_of_mem hVisit with ⟨earlier, later, rfl⟩
  rcases Rule.visits_judged hVisits with
    ⟨allowed, hAllowed, hVerdict, _⟩
  rcases Rule.judge_cases hVerdict with
    ⟨_, _, hOther⟩ | ⟨_, hOther⟩ | ⟨found, hFind, hEnd⟩
  · rw [hOther] at hSite
    cases hSite
  · rw [hOther] at hSite
    cases hSite
  obtain rfl : found = site := by
    rcases hEnd with ⟨_, _, hOther⟩ | ⟨_, hOther⟩ |
      ⟨_, hReplacing⟩
    · rw [hOther] at hSite
      exact Option.some.inj hSite
    · rw [hOther] at hSite
      exact Option.some.inj hSite
    · have hOwn := Site.site?_of_replacing hReplacing
      exact Option.some.inj (hOwn.symm.trans hSite)
  rcases Rule.findSite_licenses hAllowed hFind hUnvetoed with
    ⟨branch, hLicensed⟩
  rw [hUnvetoed] at hEnd
  rcases hEnd with ⟨_, hOther, _⟩ | ⟨hOther, _⟩ |
    ⟨_, hReplacing⟩
  · cases hOther
  · cases hOther
  · exact ⟨branch, hRule, hLicensed, hReplacing, hReported⟩

/- What a visit of one of its passes meets, a run reports. -/
theorem Rule.reported_of_visit
    {rule : Rule}
    {options : EngineOptions}
    {word : Word}
    {outcome : RuleOutcome}
    (hRun : rule.run options word = .ok outcome)
    {i : Nat}
    (hPass : i < outcome.passes)
    {visits : List Visit}
    (hVisits :
      rule.visits options ((rule.effect options)^[i] word) =
        .ok visits)
    {visit : Visit}
    (hVisit : visit ∈ visits)
    (problem : Problem)
    (hProblem : visit.verdict.problem? = some problem) :
    (rule.diagnostic problem).isReported
      outcome.diagnostics = true := by
  have hSweep :
      rule.sweep options ((rule.effect options)^[i] word) =
        .ok (Sweep.ofVisits visits
          ((rule.effect options)^[i] word)) := by
    rw [Rule.sweep_eq, hVisits]
    rfl
  apply (Rule.run_reports hRun).reported i hPass _ hSweep
  rw [Sweep.problems_ofVisits]
  exact List.mem_filterMap.mpr ⟨visit, hVisit, hProblem⟩

/-
  Correlation carries the position of a member over to the
  replacement, at every site of a run of a compiled rule
  that an environment admits and no exception vetoes.
-/
theorem Rule.correlation_carries
    {rule : Rule}
    {options : EngineOptions}
    {word : Word}
    {outcome : RuleOutcome}
    (hCompiled : rule.IsCompiled)
    (hRun : rule.run options word = .ok outcome)
    {i : Nat}
    (hPass : i < outcome.passes)
    {visits : List Visit}
    (hVisits :
      rule.visits options ((rule.effect options)^[i] word) =
        .ok visits)
    {visit : Visit}
    (hVisit : visit ∈ visits)
    {site : Site}
    (hSite : visit.verdict.site? = some site)
    (hUnvetoed :
      site.isVetoed visit.cursor options.maxMatchSteps =
        .ok false) :
    ∃ branch,
      rule.Licenses options ((rule.effect options)^[i] word)
          visit.cursor branch site ∧
        rule.Correlates options outcome visit branch site := by
  rcases hCompiled.exists_body with ⟨body, hRule⟩
  rcases Rule.exists_decides hRule hVisits hVisit hSite
      hUnvetoed
      (Rule.reported_of_visit hRun hPass hVisits hVisit) with
    ⟨branch, hDecides⟩
  exact ⟨branch, hDecides.licensed, hDecides.correlates⟩

/-
  A stop is voiced, and becomes what a vowel before it
  becomes, if there is one. The vowel behind it is raised.
-/
def voicingText : List Char :=
  "([a,e]^1)[p,t,k]^1[o,u] > [b,d]^1[i,y#]".toList

def voicingRule : Rule :=
  Rule.ofText { table := {} } voicingText

/- The third stop has no voiced one, and stays as it is. -/
def voicedOutcome : RuleOutcome where
  word := ["d", "y", "k", "o"]
  changes :=
    [ { rule := "([a,e]^1)[p,t,k]^1[o,u] > [b,d]^1[i,y#]"
        start := 0
        stop := 3
        before := ["e", "t", "u", "k", "o"]
        after := ["d", "y", "k", "o"]
        pass := 1 } ]
  diagnostics :=
    [ { problem := .memberMissing "[b,d]^1"
        line := some 0
        rule :=
          some "([a,e]^1)[p,t,k]^1[o,u] > [b,d]^1[i,y#]" } ]
  passes := 1
  examined := 3
  skipped := 1

theorem voicingRule_carries :
    voicingRule.run {} ["e", "t", "u", "k", "o"] =
        .ok voicedOutcome ∧
      ∃ visits written kept one other,
        voicingRule.visits {} ["e", "t", "u", "k", "o"] =
            .ok visits ∧
          (written ∈ visits ∧
            written.verdict.site? = some one ∧
            one.found =
              { start := 0
                stop := 3
                bindings := [("^1", 1), ("~0", 1)] } ∧
            ∃ branch,
              voicingRule.Correlates {} voicedOutcome written
                branch one) ∧
          kept ∈ visits ∧
          kept.verdict.site? = some other ∧
          other.found =
            { start := 2
              stop := 4
              bindings := [("^1", 2), ("~0", 0)] } ∧
          ∃ branch,
            voicingRule.Correlates {} voicedOutcome kept
              branch other := by
  have hCompiled : voicingRule.IsCompiled :=
    Rule.isCompiled_ofText (by decide +kernel)
  have hRun :
      voicingRule.run {} ["e", "t", "u", "k", "o"] =
        .ok voicedOutcome := by
    decide +kernel
  have hSites :
      (voicingRule.visits {} ["e", "t", "u", "k", "o"]).map
          (List.map fun visit =>
            visit.verdict.site?.map fun site =>
              (site.found,
                decide
                  (site.isVetoed visit.cursor defaultBudget =
                    .ok false))) =
        .ok
          [ some (⟨0, 3, [("^1", 1), ("~0", 1)]⟩, true),
            some (⟨2, 4, [("^1", 2), ("~0", 0)]⟩, true),
            none ] := by
    decide +kernel
  cases hVisits :
      voicingRule.visits {} ["e", "t", "u", "k", "o"] with
  | error fault =>
      rw [hVisits] at hSites
      cases hSites
  | ok visits =>
  rw [hVisits] at hSites
  rcases List.map_eq_cons_iff.mp (Except.ok.inj hSites) with
    ⟨written, rest, rfl, hWritten, hRest⟩
  rcases List.map_eq_cons_iff.mp hRest with
    ⟨kept, last, rfl, hKept, _⟩
  rcases Option.map_eq_some_iff.mp hWritten with
    ⟨one, hOne, hFound⟩
  rcases Option.map_eq_some_iff.mp hKept with
    ⟨other, hOther, hFound'⟩
  simp only [Prod.mk.injEq, decide_eq_true_eq]
    at hFound hFound'
  have hFirst : written ∈ written :: kept :: last :=
    List.mem_cons_self
  have hSecond : kept ∈ written :: kept :: last :=
    List.mem_cons_of_mem _ List.mem_cons_self
  rcases @Rule.correlation_carries voicingRule {} _ _ hCompiled
      hRun 0 (by decide) _ hVisits _ hFirst _ hOne hFound.2 with
    ⟨branch, _, hCorrelates⟩
  rcases @Rule.correlation_carries voicingRule {} _ _ hCompiled
      hRun 0 (by decide) _ hVisits _ hSecond _ hOther
      hFound'.2 with
    ⟨branch', _, hCorrelates'⟩
  exact ⟨hRun, _, written, kept, one, other, rfl,
    ⟨hFirst, hOne, hFound.1, branch, hCorrelates⟩,
    hSecond, hOther, hFound'.1, branch', hCorrelates'⟩

end Diachrony
