import Diachrony.Proofs.Run.Correlation

/-
  Mismatches are announced.

  A run skips a site for a mismatch where a reference of the
  replacement has no member at the position that its slot is
  bound to. Any reference that may bind the slot can have
  bound it, while only the first of them is compared when
  the rule is compiled. If all references with one tag have
  equally many members, this makes no difference, and what
  a run reports was announced.

  Key definitions include:
    * `Bindings.BoundBy`
    * `Site.Misses`
    * `Rule.TagsAgree`

  Key theorems include:
    * `CategoryRef.preserves_boundBy`
    * `Rule.Decides.boundBy`
    * `Rule.Decides.findsUnequal_of_misses`
    * `Rule.mismatch_announced`
-/

namespace Diachrony

------------------------------------------------------------
-- Where a binding comes from
------------------------------------------------------------

section BoundBy

variable {sources : List CategoryRef}
variable {ref : CategoryRef}

/-
  Each slot is bound to the position of a member of one of
  the references that have the slot.
-/
def Bindings.BoundBy
    (sources : List CategoryRef)
    (bindings : Bindings) : Prop :=
  ∀ slot bound,
    bindings.get? slot = some bound →
      ∃ source ∈ sources, ∃ position : Nat,
        source.slot = some slot ∧
          bound = position ∧
          source.HasMember position

theorem Bindings.boundBy_nil :
    Bindings.BoundBy sources [] := by
  intro slot bound hBound
  cases hBound

/- A reference binds its slot to the position of its member. -/
theorem CategoryRef.preserves_boundBy
    (hSource : ref.slot.isSome = true → ref ∈ sources) :
    ref.Preserves (Bindings.BoundBy sources) := by
  intro bindings position hBindings hMember _
  cases hSlot : ref.slot with
  | none =>
      rw [CategoryRef.record, hSlot]
      exact hBindings
  | some own =>
      rw [CategoryRef.record, hSlot]
      intro slot bound hBound
      rw [Bindings.get?_set] at hBound
      split at hBound
      · rename_i hSame
        refine ⟨ref, hSource (by rw [hSlot]; rfl), position,
          hSlot.trans (congrArg some hSame.symm),
          (Option.some.inj hBound).symm, hMember⟩
      · exact hBindings slot bound hBound

end BoundBy

------------------------------------------------------------
-- References that may bind a slot
------------------------------------------------------------

section Sources

variable {rule : Rule}
variable {body : RuleBody}
variable {predicate : Predicate}
variable {branch : Branch}
variable {source ref : CategoryRef}

theorem mem_taggedRefs
    {groups : List EnvironmentGroup} :
    ref ∈ taggedRefs groups ↔
      (∃ group ∈ groups,
        ∃ pattern ∈ group.flatMap Environment.patterns,
          ref ∈ Pattern.categoryRefs pattern) ∧
      ref.explicit = true := by
  rw [taggedRefs, List.mem_filter]
  refine and_congr_left fun _ => ?_
  simp only [List.mem_flatMap, List.mem_flatten]
  constructor
  · rintro ⟨pattern, ⟨environment, ⟨group, hGroup, hMem⟩,
      hPattern⟩, hRef⟩
    exact ⟨group, hGroup, pattern,
      ⟨environment, hMem, hPattern⟩, hRef⟩
  · rintro ⟨group, hGroup, pattern,
      ⟨environment, hMem, hPattern⟩, hRef⟩
    exact ⟨pattern, ⟨environment, ⟨group, hGroup, hMem⟩,
      hPattern⟩, hRef⟩

theorem mem_slotSources :
    ref ∈ slotSources branch predicate ↔
      (ref ∈ Pattern.categoryRefs branch.target ∧
        ref.slot.isSome = true) ∨
      ref ∈ taggedRefs predicate.environments := by
  rw [slotSources, List.mem_append, List.mem_filter]

/-
  A reference that may bind a slot has the slot of a tag, or
  it is an untagged one of the target.
-/
theorem Rule.Assembled.source_cases
    (hRule : rule.Assembled body)
    (hPredicate : predicate ∈ rule.predicates)
    (hBranch : branch ∈ rule.branches)
    (hSource : source ∈ slotSources branch predicate) :
    (source.explicit = true ∧
      ∃ n, source.slot = some (tagSlot n)) ∨
    (source.explicit = false ∧
      source ∈ Pattern.categoryRefs branch.target ∧
      ∃ n, source.slot = some (implicitSlot n)) := by
  rcases mem_slotSources.mp hSource with ⟨hTarget, _⟩ | hGroup
  · rcases hRule.exists_target hBranch with
      ⟨pattern, hRead, hNumbered⟩
    have hMem := hTarget
    rw [hNumbered, Pattern.categoryRefs_assignSlots] at hMem
    rcases CategoryRef.numbered_of_mem hRead.refs hMem with
      hTagged | ⟨hUntagged, n, _, hSlot⟩
    · exact Or.inl hTagged
    · exact Or.inr ⟨hUntagged, hTarget, n, hSlot⟩
  · rcases mem_taggedRefs.mp hGroup with
      ⟨⟨group, hGroup, pattern, hPattern, hRef⟩, hTagged⟩
    have hRead :=
      hRule.asRead_of_group hPredicate hGroup pattern hPattern
    exact
      Or.inl ⟨hTagged, (hRead.refs source hRef).tagged hTagged⟩

/- A slot that has a source has a first one. -/
theorem exists_slotSource?
    {own : CategoryRef}
    {slot : String}
    (hSlot : own.slot = some slot)
    (hNamed : slot ≠ "")
    (hRef : ref ∈ slotSources branch predicate)
    (hShared : ref.slot = some slot) :
    ∃ first ∈ slotSources branch predicate,
      first.slot = some slot ∧
        slotSource? (slotSources branch predicate) own =
          some first := by
  rw [slotSource?, hSlot]
  dsimp only
  rw [if_neg hNamed]
  cases hFirst :
      (slotSources branch predicate).find? fun source =>
        source.slot = some slot with
  | none =>
      have hNone := List.find?_eq_none.mp hFirst ref hRef
      exact absurd (decide_eq_true hShared) hNone
  | some first =>
      have hSame := List.find?_some hFirst
      exact ⟨first, List.mem_of_find?_eq_some hFirst,
        of_decide_eq_true hSame, rfl⟩

/-
  For each predicate and branch of a rule, the references
  that bind one tag have equally many members.
-/
def Rule.TagsAgree
    (rule : Rule) : Prop :=
  ∀ predicate ∈ rule.predicates, ∀ branch ∈ rule.branches,
    ∀ one ∈ slotSources branch predicate,
      ∀ other ∈ slotSources branch predicate,
        one.explicit = true →
        other.explicit = true →
        one.slot = other.slot →
          one.category.map Category.size =
            other.category.map Category.size

instance
    (rule : Rule) :
    Decidable rule.TagsAgree := by
  unfold Rule.TagsAgree
  infer_instance

/-
  If tags agree, a slot that a reference has bound has a
  first source with as many members.
-/
theorem Rule.Assembled.exists_source_of_size
    (hRule : rule.Assembled body)
    (hTags : rule.TagsAgree)
    (hPredicate : predicate ∈ rule.predicates)
    (hBranch : branch ∈ rule.branches)
    (hRef : ref ∈ slotSources branch predicate)
    {own : CategoryRef}
    {slot : String}
    (hSlot : own.slot = some slot)
    (hNamed : slot ≠ "")
    (hShared : ref.slot = some slot) :
    ∃ first,
      slotSource? (slotSources branch predicate) own =
          some first ∧
        first.category.map Category.size =
          ref.category.map Category.size := by
  rcases hRule.source_cases hPredicate hBranch hRef with
    ⟨hTagged, n, hTag⟩ | ⟨hUntagged, hTarget, _⟩
  · rcases exists_slotSource? hSlot hNamed hRef hShared with
      ⟨first, hFirst, hSame, hSource⟩
    refine ⟨first, hSource, ?_⟩
    apply hTags predicate hPredicate branch hBranch first
      hFirst ref hRef _ hTagged (hSame.trans hShared.symm)
    rcases hRule.source_cases hPredicate hBranch hFirst with
      ⟨hAlso, _⟩ | ⟨_, _, m, hNumber⟩
    · exact hAlso
    · have hClash :
          some (implicitSlot m) = some (tagSlot n) := by
        rw [← hNumber, hSame, ← hShared, hTag]
      exact absurd (Option.some.inj hClash)
        (implicitSlot_ne_tagSlot m n)
  · rcases hRule.exists_target hBranch with
      ⟨pattern, hRead, hNumbered⟩
    have hSlots : Pattern.WellSlotted branch.target := by
      rw [hNumbered]
      exact Pattern.wellSlotted_assignSlots hRead.refs
    exact ⟨ref,
      slotSource?_of_untagged hSlots hTarget hUntagged
        (hSlot.trans hShared.symm), rfl⟩

end Sources

------------------------------------------------------------
-- Members that are missing
------------------------------------------------------------

section Missing

variable {rule : Rule}
variable {site : Site}
variable {word : WordArray}

/-
  A reference in the replacement of a site has no member to
  write: its slot is bound to a position beyond its category
  or was found to pair categories of different lengths.
-/
def Site.Misses
    (site : Site)
    (rule : Rule)
    (own : CategoryRef) : Prop :=
  ∃ category slot position,
    own.category = some category ∧
      own.slot = some slot ∧
      slot ≠ "" ∧
      site.bindings.get? slot = some position ∧
      (site.isMismatched rule own = true ∨
        (category.size : Int) ≤ position)

theorem Site.misses_of_correlate
    {own : CategoryRef}
    {problem : Problem}
    (hCorrelate : site.correlate rule own = .error problem)
    (hKind : problem.kind = .correlationMismatch) :
    site.Misses rule own := by
  unfold correlate at hCorrelate
  split at hCorrelate
  · cases hCorrelate
    cases hKind
  rename_i category hCategory
  split at hCorrelate
  · split at hCorrelate
    · cases hCorrelate
    · cases hCorrelate
      cases hKind
  rename_i position hBound
  split at hCorrelate
  · rename_i hMissing
    unfold boundPosition? at hBound
    split at hBound
    · cases hBound
    rename_i slot hSlot
    split at hBound
    · cases hBound
    rename_i hNamed
    exact ⟨category, slot, position, hCategory, hSlot, hNamed,
      hBound, hMissing⟩
  · cases hCorrelate

/- A mismatch in a replacement is one of its references'. -/
theorem Site.misses_of_buildFrom
    {written : List Symbol}
    {pattern : Pattern}
    {problem : Problem}
    (hBuild :
      site.buildFrom rule word written pattern =
        .error problem)
    (hKind : problem.kind = .correlationMismatch) :
    ∃ own ∈ Pattern.categoryRefs pattern,
      site.Misses rule own := by
  induction pattern generalizing written with
  | nil => cases hBuild
  | cons element rest ih =>
      rw [buildFrom] at hBuild
      rw [Pattern.categoryRefs_cons]
      split at hBuild
      · rename_i other hEmit
        cases hBuild
        cases element with
        | category own =>
            exact ⟨own, List.mem_cons_self,
              Site.misses_of_correlate hEmit hKind⟩
        | literal | null | target | ditto => cases hEmit
        | wildcard | gap | edge | optional | repeated | foreign =>
            cases hEmit
            cases hKind
      · rcases ih hBuild with ⟨own, hOwn, hMisses⟩
        exact ⟨own, List.mem_append_right _ hOwn, hMisses⟩

end Missing

------------------------------------------------------------
-- Decided sites
------------------------------------------------------------

namespace Rule.Decides

variable {rule : Rule}
variable {body : RuleBody}
variable {options : EngineOptions}
variable {word : Word}
variable {outcome : RuleOutcome}
variable {visit : Visit}
variable {branch : Branch}
variable {site : Site}

/- What a decided site is bound to, its sources have bound. -/
theorem boundBy
    (hDecides :
      rule.Decides body options word outcome visit branch
        site) :
    site.bindings.BoundBy
      (slotSources branch site.predicate) := by
  have hKeeps :
      Reach.Keeps
        (Bindings.BoundBy (slotSources branch site.predicate))
        (Pattern.paths
          ((visit.cursor.targetRequest
            options.maxMatchSteps).window visit.cursor.word)
          branch.target) :=
    Pattern.paths_keep branch.target fun ref hRef =>
      CategoryRef.preserves_boundBy fun hSlot =>
        mem_slotSources.mpr (Or.inl ⟨hRef, hSlot⟩)
  apply
    hDecides.assembled.keeps_of_holds hDecides.predicate_mem
      hDecides.licensed.holds _
      (hKeeps Bindings.boundBy_nil hDecides.path)
  intro group hGroup pattern hPattern ref hRef hRead
  apply CategoryRef.preserves_boundBy
  intro hSlot
  rcases Option.isSome_iff_exists.mp hSlot with ⟨_, hSome⟩
  exact
    mem_slotSources.mpr
      (Or.inr (mem_taggedRefs.mpr
        ⟨⟨group, hGroup, pattern, hPattern, hRef⟩,
          hRead.tagged_of_slot hSome⟩))

/-
  If tags agree, a member that is missing at a decided site
  was found to be when the rule was compiled.
-/
theorem findsUnequal_of_misses
    (hDecides :
      rule.Decides body options word outcome visit branch
        site)
    (hTags : rule.TagsAgree)
    {own : CategoryRef}
    (hOwn :
      own ∈
        Pattern.categoryRefs
          (site.predicate.replacementFor site.branch))
    (hMisses : site.Misses rule own) :
    ∃ slot,
      rule.FindsUnequal site.predicateIndex site.branch
        slot := by
  rcases hMisses with
    ⟨category, slot, bound, hCategory, hSlot, hNamed, hBound,
      hMissing⟩
  refine ⟨slot, ?_⟩
  rcases hMissing with hFound | hBeyond
  · rw [Site.isMismatched, hSlot,
      List.contains_iff_mem] at hFound
    exact hDecides.assembled.mem_mismatched.mp hFound
  · rcases hDecides.boundBy slot bound hBound with
      ⟨ref, hRef, position, hShared, rfl, held, hHeld,
        hInside⟩
    rcases hDecides.assembled.exists_source_of_size hTags
        hDecides.predicate_mem hDecides.branch_mem hRef hSlot
        hNamed hShared with
      ⟨first, hSource, hSizes⟩
    rw [hHeld] at hSizes
    rcases Option.map_eq_some_iff.mp hSizes with
      ⟨other, hOther, hSame⟩
    exact ⟨site.predicate, branch,
      hDecides.licensed.predicate_eq,
      hDecides.licensed.branch_eq, own, hOwn, hSlot, first,
      category, other, hSource, hCategory, hOther, by omega⟩

end Rule.Decides

------------------------------------------------------------
-- Announcements
------------------------------------------------------------

/- A finding that disables a pairing is about a mismatch. -/
theorem kind_of_correlationFinding?
    {predicateIndex branchIndex : Nat}
    {sources : List CategoryRef}
    {own : CategoryRef}
    {finding : Finding}
    {pairing : Pairing}
    (hFinding :
      correlationFinding? predicateIndex branchIndex sources
          own =
        some finding)
    (hPairing : finding.pairing = some pairing) :
    finding.problem.kind = .correlationMismatch := by
  unfold correlationFinding? at hFinding
  split at hFinding
  · cases hFinding
  split at hFinding
  · split at hFinding
    · cases hFinding
    · cases hFinding
      cases hPairing
  split at hFinding
  · cases hFinding
  split at hFinding
  · cases hFinding
  · cases hFinding
    rfl

/- What a rule finds unequal is among its diagnostics. -/
theorem Rule.exists_diagnostic_of_findsUnequal
    {setting : RuleSetting}
    {text : List Char}
    {rule : Rule}
    (hRead : Rule.read setting text = .ok rule)
    {predicateIndex branchIndex : Nat}
    {slot : String}
    (hUnequal :
      rule.FindsUnequal predicateIndex branchIndex slot) :
    ∃ diagnostic ∈ rule.diagnostics,
      diagnostic.kind = .correlationMismatch := by
  rcases Rule.read_cases hRead with
    ⟨_, source, _, body, _, _, _, _, _, _, hRule⟩
  rcases hUnequal with
    ⟨predicate, branch, hPredicate, hBranch, own, hOwn,
      hUnequal⟩
  have hBoth :
      (correlationFinding? predicateIndex branchIndex
          (slotSources branch predicate) own).bind
            Finding.pairing =
        some (predicateIndex, branchIndex, slot) :=
    correlationFinding?_pairing.mpr ⟨rfl, rfl, hUnequal⟩
  rcases Option.bind_eq_some_iff.mp hBoth with
    ⟨finding, hFinding, hPairing⟩
  have hKind := kind_of_correlationFinding? hFinding hPairing
  have hListed :
      finding ∈
        correlationFindings rule.branches rule.predicates :=
    List.mem_flatMap.mpr
      ⟨(predicate, predicateIndex),
        List.mem_zipIdx_iff_getElem?.mpr hPredicate,
        List.mem_flatMap.mpr
          ⟨(branch, branchIndex),
            List.mem_zipIdx_iff_getElem?.mpr hBranch,
            List.mem_filterMap.mpr ⟨own, hOwn, hFinding⟩⟩⟩
  subst hRule
  rcases Diagnostic.exists_kind_foldl_addNew
      (List.mem_map_of_mem hListed) with
    ⟨diagnostic, hDiagnostic, hSame⟩
  exact ⟨diagnostic, hDiagnostic, hSame.trans hKind⟩

/-
  A mismatch that a pass of a run meets is one of a site
  that the rule decides.
-/
theorem Rule.exists_decides_of_problem
    {rule : Rule}
    {body : RuleBody}
    {options : EngineOptions}
    {word : Word}
    {outcome : RuleOutcome}
    {visits : List Visit}
    {visit : Visit}
    {problem : Problem}
    (hRule : rule.Assembled body)
    (hVisits : rule.visits options word = .ok visits)
    (hVisit : visit ∈ visits)
    (hProblem : visit.verdict.problem? = some problem)
    (hKind : problem.kind = .correlationMismatch)
    (hReported : ∀ problem,
      visit.verdict.problem? = some problem →
        (rule.diagnostic problem).isReported
          outcome.diagnostics = true) :
    ∃ branch site,
      rule.Decides body options word outcome visit branch
          site ∧
        site.build rule visit.cursor.word =
          .error problem := by
  rcases List.append_of_mem hVisit with ⟨earlier, later, rfl⟩
  rcases Rule.visits_judged hVisits with
    ⟨_, _, hVerdict, _⟩
  rcases Rule.judge_cases hVerdict with
    ⟨_, _, hOther⟩ | ⟨_, hOther⟩ | ⟨site, _, hEnd⟩
  · rw [hOther] at hProblem
    cases hProblem
    cases hKind
  · rw [hOther] at hProblem
    cases hProblem
  rcases hEnd with ⟨_, _, hOther⟩ | ⟨_, hOther⟩ |
    ⟨hUnvetoed, hReplacing⟩
  · rw [hOther] at hProblem
    cases hProblem
    cases hKind
  · rw [hOther] at hProblem
    cases hProblem
  rcases Rule.exists_decides hRule hVisits hVisit
      (Site.site?_of_replacing hReplacing) hUnvetoed hReported
    with ⟨branch, hDecides⟩
  refine ⟨branch, site, hDecides, ?_⟩
  rcases Site.replacing_cases hReplacing with
    ⟨other, hBuild, hSkipped⟩ | ⟨_, _, hReplaced⟩
  · rw [hSkipped] at hProblem
    cases hProblem
    exact hBuild
  · rw [hReplaced] at hProblem
    cases hProblem

/-
  If a run of a compiled rule skips a site for a mismatch,
  and tags agree, then a mismatch was reported when the rule
  was compiled.
-/
theorem Rule.mismatch_announced
    {setting : RuleSetting}
    {text : List Char}
    {rule : Rule}
    {options : EngineOptions}
    {word : Word}
    {outcome : RuleOutcome}
    (hRead : Rule.read setting text = .ok rule)
    (hTags : rule.TagsAgree)
    (hRun : rule.run options word = .ok outcome)
    {diagnostic : Diagnostic}
    (hReported : diagnostic ∈ outcome.diagnostics)
    (hKind : diagnostic.kind = .correlationMismatch) :
    ∃ announced ∈ rule.diagnostics,
      announced.kind = .correlationMismatch := by
  have hCompiled : rule.IsCompiled :=
    ⟨setting, text, rule, hRead, rfl, rfl, rfl⟩
  rcases hCompiled.exists_body with ⟨body, hRule⟩
  rcases (Rule.run_reports hRun).met diagnostic hReported with
    hEnd | ⟨i, hPass, sweep, hSweep, problem, hProblem, rfl⟩
  · rw [hKind] at hEnd
    cases hEnd
  rcases Rule.exists_visits hSweep with ⟨visits, hVisits, rfl⟩
  rw [Sweep.problems_ofVisits] at hProblem
  rcases List.mem_filterMap.mp hProblem with
    ⟨visit, hVisit, hMet⟩
  rcases Rule.exists_decides_of_problem hRule hVisits hVisit
      hMet hKind
      (Rule.reported_of_visit hRun hPass hVisits hVisit) with
    ⟨branch, site, hDecides, hBuild⟩
  rcases Site.misses_of_buildFrom hBuild hKind with
    ⟨own, hOwn, hMisses⟩
  rcases hDecides.findsUnequal_of_misses hTags hOwn hMisses
    with ⟨slot, hUnequal⟩
  exact Rule.exists_diagnostic_of_findsUnequal hRead hUnequal

/-
  A run that skips its only site, since a reference has no
  member to write there.
-/
def skippedOutcome
    (rule : Rule)
    (word : Word)
    (ref : String) : RuleOutcome where
  word := word
  diagnostics := [rule.diagnostic (.memberMissing ref)]
  passes := 1
  examined := word.length + 1
  skipped := 1

/- Both references with the tag have three members. -/
def announcedText : List Char :=
  "x > [b,d]^1 / [p,t,k]^1_, [f,s,h]^1_".toList

def announcedRule : Rule :=
  Rule.ofText { table := {} } announcedText

theorem announcedRule_announces :
    announcedRule.TagsAgree ∧
      announcedRule.run {} ["h", "x"] =
        .ok (skippedOutcome announcedRule ["h", "x"]
          "[b,d]^1") ∧
      ∃ announced ∈ announcedRule.diagnostics,
        announced.kind = .correlationMismatch := by
  have hRead :
      Rule.read { table := {} } announcedText =
        .ok announcedRule :=
    Rule.read_ofText (by decide +kernel)
  have hTags : announcedRule.TagsAgree := by decide +kernel
  have hRun :
      announcedRule.run {} ["h", "x"] =
        .ok (skippedOutcome announcedRule ["h", "x"]
          "[b,d]^1") := by
    decide +kernel
  exact ⟨hTags, hRun,
    Rule.mismatch_announced hRead hTags hRun
      (List.mem_singleton_self _) rfl⟩

/-
  The first reference with the tag has two members, as the
  replacement has, and the second one three.
-/
def unannouncedText : List Char :=
  "x > [b,d]^1 / [a,e]^1_, [p,t,k]^1_".toList

def unannouncedRule : Rule :=
  Rule.ofText { table := {} } unannouncedText

/- A run skips a site for a mismatch that was not announced. -/
theorem unannouncedRule_skips :
    Rule.read { table := {} } unannouncedText =
        .ok unannouncedRule ∧
      unannouncedRule.run {} ["k", "x"] =
        .ok (skippedOutcome unannouncedRule ["k", "x"]
          "[b,d]^1") ∧
      (∀ diagnostic ∈
          (skippedOutcome unannouncedRule ["k", "x"]
            "[b,d]^1").diagnostics,
        diagnostic.kind = .correlationMismatch) ∧
      unannouncedRule.diagnostics = [] := by
  refine ⟨Rule.read_ofText (by decide +kernel),
    by decide +kernel, ?_, by decide +kernel⟩
  intro diagnostic hMem
  obtain rfl := List.mem_singleton.mp hMem
  rfl

end Diachrony
