import Diachrony.Proofs.Run.Reports
import Diachrony.Proofs.Scan.Judgement
import Diachrony.Proofs.Source.Flaws

/-
  What cannot be written was reported before.

  A site is skipped for an undefined category, or for an
  element that cannot be written, only if the replacement
  contains one. Both are reported as a rule is read. So what
  a run of a rule reports of these kinds was reported
  already, whatever word the rule is run on.

  Key definitions include:
    * `DiagnosticKind.isFlaw`

  Key theorems include:
    * `Site.flaw_of_build`
    * `Rule.announces_of_judge`
    * `Rule.announces_of_run`
    * `Rule.flaws_announced`
-/

namespace Diachrony

/- The kinds of what makes a replacement impossible to write. -/
def DiagnosticKind.isFlaw
    (kind : DiagnosticKind) : Bool :=
  kind = .undefinedCategory || kind = .invalidReplacement

/- Something of the same kind is reported. -/
def DiagnosticKind.IsAnnounced
    (kind : DiagnosticKind)
    (diagnostics : List Diagnostic) : Prop :=
  ∃ diagnostic ∈ diagnostics, diagnostic.kind = kind

theorem DiagnosticKind.not_isFlaw_of_isUnsettled
    {kind : DiagnosticKind}
    (hEnd : kind.isUnsettled = true) :
    kind.isFlaw = false := by
  cases kind <;> first | rfl | cases hEnd

------------------------------------------------------------
-- Replacements that cannot be written
------------------------------------------------------------

namespace Site

variable {site : Site}
variable {rule : Rule}
variable {word : WordArray}
variable {problem : Problem}

/- A flaw is that of an element. -/
theorem flaw_of_emit
    {written : List Symbol}
    {element : Element}
    (hEmit :
      site.emit rule word written element = .error problem)
    (hFlaw : problem.kind.isFlaw = true) :
    (problem.kind = .undefinedCategory ∧
      ∃ ref, element = .category ref ∧ ref.category = none) ∨
    (problem.kind = .invalidReplacement ∧
      element.writable = false) := by
  cases element with
  | category ref =>
      change site.correlate rule ref = .error problem at hEmit
      unfold correlate at hEmit
      split at hEmit
      · rename_i hNone
        cases hEmit
        exact .inl ⟨rfl, ref, rfl, hNone⟩
      -- The other problems are of references that are defined.
      split at hEmit
      · split at hEmit
        · cases hEmit
        · cases hEmit
          cases hFlaw
      · split at hEmit
        · cases hEmit
          cases hFlaw
        · cases hEmit
  | literal symbol => cases hEmit
  | null => cases hEmit
  | target reversed => cases hEmit
  | ditto => cases hEmit
  | _ =>
      cases hEmit
      exact .inr ⟨rfl, rfl⟩

theorem exists_of_buildFrom_error
    {written : List Symbol}
    {pattern : Pattern}
    (hBuild :
      site.buildFrom rule word written pattern =
        .error problem) :
    ∃ element ∈ pattern, ∃ before,
      site.emit rule word before element = .error problem := by
  induction pattern generalizing written with
  | nil => cases hBuild
  | cons element rest ih =>
      rw [buildFrom] at hBuild
      split at hBuild
      · rename_i hEmit
        cases hBuild
        exact ⟨element, List.mem_cons_self, written, hEmit⟩
      · rcases ih hBuild with ⟨other, hOther, before, hEmit⟩
        exact
          ⟨other, List.mem_cons_of_mem _ hOther, before, hEmit⟩

/- A flaw that a site is skipped for is in its replacement. -/
theorem flaw_of_build
    (hBuild : site.build rule word = .error problem)
    (hFlaw : problem.kind.isFlaw = true) :
    (problem.kind = .undefinedCategory ∧
      ¬Pattern.IsResolved
        (site.predicate.replacementFor site.branch)) ∨
    (problem.kind = .invalidReplacement ∧
      ¬Pattern.IsWritable
        (site.predicate.replacementFor site.branch)) := by
  rcases exists_of_buildFrom_error hBuild with
    ⟨element, hMem, before, hEmit⟩
  rcases flaw_of_emit hEmit hFlaw with
    ⟨hKind, ref, rfl, hNone⟩ | ⟨hKind, hOther⟩
  · refine .inl ⟨hKind, fun hResolved => ?_⟩
    rcases List.append_of_mem hMem with ⟨front, back, hParts⟩
    rw [hParts] at hResolved
    exact
      hResolved ref (Pattern.mem_categoryRefs_split front back ref)
        hNone
  · refine .inr ⟨hKind, fun hWritable => ?_⟩
    rw [hWritable element hMem] at hOther
    cases hOther

end Site

/- A replacement is one of its predicate, or there is none. -/
theorem Predicate.replacementFor_cases
    (predicate : Predicate)
    (branch : Nat) :
    predicate.replacementFor branch = [] ∨
      predicate.replacementFor branch ∈
        predicate.replacements := by
  unfold replacementFor
  dsimp only
  cases hTurn :
      predicate.replacements[
        branch % predicate.replacements.length]? with
  | none => exact .inl rfl
  | some pattern => exact .inr (List.mem_of_getElem? hTurn)

------------------------------------------------------------
-- Sites and runs
------------------------------------------------------------

namespace Rule

variable {setting : RuleSetting}
variable {text : List Char}
variable {read rule : Rule}
variable {options : EngineOptions}

/-
  A replacement of a rule has a flaw only if that has been
  announced.
-/
theorem announces_of_replacement
    (hRead : Rule.read setting text = .ok read)
    {predicate : Predicate}
    (hPredicate : predicate ∈ read.predicates)
    (branch : Nat) :
    (¬Pattern.IsResolved (predicate.replacementFor branch) →
      DiagnosticKind.undefinedCategory.IsAnnounced
        read.diagnostics) ∧
    (¬Pattern.IsWritable (predicate.replacementFor branch) →
      DiagnosticKind.invalidReplacement.IsAnnounced
        read.diagnostics) := by
  rcases predicate.replacementFor_cases branch with
    hNone | hMem
  · rw [hNone]
    exact
      ⟨fun hFlaw =>
        absurd (Pattern.isResolved_of_noRefs rfl) hFlaw,
        fun hFlaw => absurd (List.forall_mem_nil _) hFlaw⟩
  constructor
  · intro hFlaw
    apply exists_of_not_isSilent
    intro hSilent
    refine hFlaw (Rule.read_resolved hRead hSilent _ ?_)
    refine List.mem_append_right _ ?_
    exact
      List.mem_flatMap.mpr
        ⟨predicate, hPredicate, List.mem_append_left _ hMem⟩
  · intro hFlaw
    apply exists_of_not_isSilent
    intro hSilent
    exact
      hFlaw
        (Rule.read_writable hRead hSilent predicate hPredicate _
          hMem)

/- What makes a site impossible to write was announced. -/
theorem announces_of_judge
    (hRead : Rule.read setting text = .ok read)
    (hSame : rule.predicates = read.predicates)
    {allowed : List (Option (List Nat))}
    {cursor : Cursor}
    {verdict : Verdict}
    (hVerdict :
      rule.judge options allowed cursor = .ok verdict)
    {problem : Problem}
    (hProblem : verdict.problem? = some problem)
    (hFlaw : problem.kind.isFlaw = true) :
    problem.kind.IsAnnounced read.diagnostics := by
  rcases Rule.judge_cases hVerdict with
    ⟨_, _, rfl⟩ | ⟨_, rfl⟩ | ⟨site, hFind, hEnd⟩
  · cases hProblem
    cases hFlaw
  · cases hProblem
  rcases hEnd with ⟨_, _, rfl⟩ | ⟨_, rfl⟩ | ⟨_, hReplacing⟩
  · cases hProblem
    cases hFlaw
  · cases hProblem
  rcases Site.replacing_cases hReplacing with
    ⟨_, hBuild, rfl⟩ | ⟨_, _, rfl⟩
  · cases hProblem
    rcases Rule.finds_of_findSite hFind with ⟨_, _, hFinds⟩
    have hPredicate : site.predicate ∈ read.predicates := by
      rw [← hSame]
      exact List.mem_of_getElem? hFinds.predicate_eq
    have hAnnounces :=
      announces_of_replacement hRead hPredicate site.branch
    rcases Site.flaw_of_build hBuild hFlaw with
      ⟨hKind, hOwn⟩ | ⟨hKind, hOwn⟩
    · rw [hKind]
      exact hAnnounces.1 hOwn
    · rw [hKind]
      exact hAnnounces.2 hOwn
  · cases hProblem

/- What a run reports as impossible to write was announced. -/
theorem announces_of_run
    (hRead : Rule.read setting text = .ok read)
    (hSame : rule.predicates = read.predicates)
    {word : Word}
    {outcome : RuleOutcome}
    (hRun : rule.run options word = .ok outcome)
    {diagnostic : Diagnostic}
    (hMem : diagnostic ∈ outcome.diagnostics)
    (hFlaw : diagnostic.kind.isFlaw = true) :
    diagnostic.kind.IsAnnounced read.diagnostics := by
  rcases (Rule.run_reports hRun).met diagnostic hMem with
    hEnd | ⟨i, _, sweep, hSweep, problem, hProblem, rfl⟩
  · rw [DiagnosticKind.not_isFlaw_of_isUnsettled hEnd] at hFlaw
    cases hFlaw
  rw [Rule.sweep_eq] at hSweep
  cases hVisits :
      rule.visits options ((rule.effect options)^[i] word) with
  | error fault =>
      rw [hVisits] at hSweep
      cases hSweep
  | ok visits =>
  rw [hVisits] at hSweep
  cases hSweep
  rw [Sweep.problems_ofVisits] at hProblem
  rcases List.mem_filterMap.mp hProblem with
    ⟨visit, hVisit, hOwn⟩
  rcases List.append_of_mem hVisit with ⟨earlier, later, rfl⟩
  rcases Rule.visits_judged hVisits with
    ⟨allowed, _, hVerdict, _⟩
  exact announces_of_judge hRead hSame hVerdict hOwn hFlaw

/-
  What is impossible to write, a rule that is read from a
  text announces, and its runs do not come upon it otherwise:
    * a site that is skipped for an undefined category or an
      element that cannot be written, wherever the rule is
      tried, is skipped for what was announced;
    * a run on a word reports nothing of these kinds that was
      not announced;
    * without an undefined category among its diagnostics,
      the rule has no reference to one, however deep it
      stands in a target, a replacement, an environment or
      an exception.
-/
theorem flaws_announced
    (hRead : Rule.read setting text = .ok read)
    (flags : Option Flags) :
    (∀ options allowed cursor site problem,
      (read.withFlags flags).judge options allowed cursor =
          .ok (.skipped site problem) →
        problem.kind.isFlaw = true →
          problem.kind.IsAnnounced
            (read.withFlags flags).diagnostics) ∧
    (∀ options word outcome,
      (read.withFlags flags).run options word = .ok outcome →
        ∀ diagnostic ∈ outcome.diagnostics,
          diagnostic.kind.isFlaw = true →
            diagnostic.kind.IsAnnounced
              (read.withFlags flags).diagnostics) ∧
    (IsSilent .undefinedCategory
        (read.withFlags flags).diagnostics →
      ∀ pattern ∈ (read.withFlags flags).patterns,
        ∀ ref ∈ Pattern.categoryRefs pattern,
          ref.category ≠ none) := by
  have hSame :
      (read.withFlags flags).predicates = read.predicates := rfl
  have hResolved := Rule.read_resolved hRead
  refine ⟨?_, ?_, hResolved⟩
  · intro options allowed cursor site problem hVerdict hFlaw
    exact announces_of_judge hRead hSame hVerdict rfl hFlaw
  · intro options word outcome hRun diagnostic hMem hFlaw
    exact announces_of_run hRead hSame hRun hMem hFlaw

end Rule

/- A group and an undefined category cannot be written. -/
def flawedText : List Char :=
  "a, [b,c] > (d), [X]".toList

theorem flawedRule_announces :
    ∃ rule outcome,
      Rule.read { table := {} } flawedText = .ok rule ∧
        (rule.withFlags (some { rightToLeft := true })).run {}
            ["a", "b"] =
          .ok outcome ∧
        outcome.diagnostics.map Diagnostic.kind =
          [.undefinedCategory, .invalidReplacement] ∧
        DiagnosticKind.undefinedCategory.IsAnnounced
          rule.diagnostics ∧
        DiagnosticKind.invalidReplacement.IsAnnounced
          rule.diagnostics := by
  have hRead :
      Rule.read { table := {} } flawedText =
        .ok (Rule.ofText { table := {} } flawedText) :=
    Rule.read_ofText (by decide +kernel)
  have hKinds :
      (((Rule.ofText { table := {} } flawedText).withFlags
        (some { rightToLeft := true })).run {} ["a", "b"]).map
          (fun outcome =>
            outcome.diagnostics.map Diagnostic.kind) =
        .ok [.undefinedCategory, .invalidReplacement] := by
    decide +kernel
  cases hRun :
      ((Rule.ofText { table := {} } flawedText).withFlags
        (some { rightToLeft := true })).run {} ["a", "b"] with
  | error fault =>
      rw [hRun] at hKinds
      cases hKinds
  | ok outcome =>
  rw [hRun] at hKinds
  have hSame :
      outcome.diagnostics.map Diagnostic.kind =
        [.undefinedCategory, .invalidReplacement] :=
    Except.ok.inj hKinds
  have hAnnounced : ∀ kind ∈ outcome.diagnostics.map
      Diagnostic.kind, kind.isFlaw = true →
        kind.IsAnnounced
          (Rule.ofText { table := {} } flawedText).diagnostics := by
    intro kind hMem hFlaw
    rcases List.mem_map.mp hMem with ⟨diagnostic, hOwn, rfl⟩
    exact
      (Rule.flaws_announced hRead
        (some { rightToLeft := true })).2.1 _ _ _ hRun
          diagnostic hOwn hFlaw
  rw [hSame] at hAnnounced
  exact ⟨_, outcome, hRead, hRun, hSame,
    hAnnounced _ (by simp) rfl, hAnnounced _ (by simp) rfl⟩

end Diachrony
