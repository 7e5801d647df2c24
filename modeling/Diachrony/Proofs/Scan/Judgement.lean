import Diachrony.Proofs.Matching.Candidates
import Diachrony.Proofs.Scan.Simultaneous

/-
  How a scan comes to its verdicts.

  A verdict is one of a few, each with its reason. A scan
  judges each position it visits with the same knowledge:
  where each branch may start, by the word as it was when
  the scan began, and the limit that the sites found so far
  have left.

  Key definitions include:
    * `Rule.Finds`
    * `Rule.limitAfter`

  Key theorems include:
    * `Rule.finds_of_findSite`
    * `Rule.judge_cases`
    * `Site.replacing_cases`
    * `Rule.visits_judged`
    * `Rule.sweep_settled`
-/

namespace Diachrony

variable {rule : Rule}
variable {options : EngineOptions}
variable {allowed : List (Option (List Nat))}

------------------------------------------------------------
-- The first site
------------------------------------------------------------

/-
  How a site is found: a branch may start at the position
  and matches there, a predicate admits the match, and no
  pair of a branch and a predicate before them makes a site.
-/
structure Rule.Finds
    (rule : Rule)
    (budget : Int)
    (allowed : List (Option (List Nat)))
    (cursor : Cursor)
    (branch : Branch)
    (starts : Option (List Nat))
    (site : Site) : Prop where
  entry_eq :
    (rule.branches.zip allowed)[site.branch]? =
      some (branch, starts)
  isAllowed : cursor.isAllowed starts = true
  matched :
    Pattern.matchAt branch.target cursor.word cursor.pos
        (cursor.targetRequest budget) =
      .ok (some site.found)
  predicate_eq :
    rule.predicates[site.predicateIndex]? =
      some site.predicate
  admits :
    site.predicate.admits
        (cursor.surroundings budget site.found)
        site.found.bindings =
      .ok (some site.bindings)
  no_predicate :
    ∀ p < site.predicateIndex, ∀ predicate,
      rule.predicates[p]? = some predicate →
        Predicate.site? cursor budget site.branch site.found
            (predicate, p) =
          .ok none
  no_branch :
    ∀ b < site.branch, ∀ entry,
      (rule.branches.zip allowed)[b]? = some entry →
        Branch.site? rule cursor budget (entry, b) = .ok none

theorem Rule.finds_of_findSite
    {budget : Int}
    {cursor : Cursor}
    {site : Site}
    (hFind :
      rule.findSite budget allowed cursor = .ok (some site)) :
    ∃ branch starts,
      rule.Finds budget allowed cursor branch starts site := by
  rcases exists_of_firstSome_zipIdx hFind with
    ⟨b, ⟨branch, starts⟩, hEntry, hBranch, hBranches⟩
  simp only [Nat.zero_add] at hBranch hBranches
  unfold Branch.site? at hBranch
  split at hBranch
  · cases hBranch
  rename_i hAllowed
  split at hBranch
  · cases hBranch
  · cases hBranch
  rename_i found hMatch
  rcases exists_of_firstSome_zipIdx hBranch with
    ⟨p, predicate, hPredicate, hSite, hPredicates⟩
  simp only [Nat.zero_add] at hSite hPredicates
  unfold Predicate.site? at hSite
  split at hSite
  · cases hSite
  · cases hSite
  rename_i bindings hAdmits
  cases hSite
  refine ⟨branch, starts, ?_⟩
  exact
    { entry_eq := hEntry
      isAllowed := by simpa using hAllowed
      matched := hMatch
      predicate_eq := hPredicate
      admits := hAdmits
      no_predicate := hPredicates
      no_branch := hBranches }

------------------------------------------------------------
-- Verdicts and their reasons
------------------------------------------------------------

/- A site that no exception vetoes is skipped or replaced. -/
theorem Site.replacing_cases
    {site : Site}
    {word : WordArray}
    {verdict : Verdict}
    (hVerdict :
      site.replacing options rule word = .ok verdict) :
    (∃ problem,
      site.build rule word = .error problem ∧
        verdict = .skipped site problem) ∨
    (∃ symbols,
      site.build rule word = .ok symbols ∧
        verdict = .replaced site symbols) := by
  unfold replacing at hVerdict
  split at hVerdict
  · rename_i problem hBuild
    cases hVerdict
    exact Or.inl ⟨problem, hBuild, rfl⟩
  · rename_i symbols hBuild
    refine Or.inr ⟨symbols, hBuild, ?_⟩
    split at hVerdict
    · cases hVerdict
      rfl
    split at hVerdict
    · cases hVerdict
    · cases hVerdict
      rfl

/-
  A position is abandoned if the search for a site runs out
  of steps, and missed if there is none. A site is skipped
  if its exceptions cannot be decided, and vetoed if one of
  them holds.
-/
theorem Rule.judge_cases
    {cursor : Cursor}
    {verdict : Verdict}
    (hVerdict :
      rule.judge options allowed cursor = .ok verdict) :
    (∃ steps,
      rule.findSite options.maxMatchSteps allowed cursor =
          .error (.outOfSteps steps) ∧
        verdict = .abandoned (.outOfSteps steps)) ∨
    (rule.findSite options.maxMatchSteps allowed cursor =
          .ok none ∧
        verdict = .miss) ∨
    ∃ site,
      rule.findSite options.maxMatchSteps allowed cursor =
          .ok (some site) ∧
        ((∃ steps,
          site.isVetoed cursor options.maxMatchSteps =
              .error (.outOfSteps steps) ∧
            verdict = .skipped site (.outOfSteps steps)) ∨
        (site.isVetoed cursor options.maxMatchSteps =
              .ok true ∧
            verdict = .vetoed site) ∨
        (site.isVetoed cursor options.maxMatchSteps =
              .ok false ∧
            site.replacing options rule cursor.word =
              .ok verdict)) := by
  unfold judge at hVerdict
  split at hVerdict
  · cases hVerdict
  · rename_i steps hFind
    cases hVerdict
    exact Or.inl ⟨steps, hFind, rfl⟩
  · rename_i hFind
    cases hVerdict
    exact Or.inr (Or.inl ⟨hFind, rfl⟩)
  · rename_i site hFind
    refine Or.inr (Or.inr ⟨site, hFind, ?_⟩)
    split at hVerdict
    · cases hVerdict
    · rename_i steps hVeto
      cases hVerdict
      exact Or.inl ⟨steps, hVeto, rfl⟩
    · rename_i hVeto
      cases hVerdict
      exact Or.inr (Or.inl ⟨hVeto, rfl⟩)
    · rename_i hVeto
      exact Or.inr (Or.inr ⟨hVeto, hVerdict⟩)

/- A site that is replaced is found, not vetoed, and built. -/
theorem Rule.judge_replaced
    {cursor : Cursor}
    {site : Site}
    {symbols : List Symbol}
    (hVerdict :
      rule.judge options allowed cursor =
        .ok (.replaced site symbols)) :
    rule.findSite options.maxMatchSteps allowed cursor =
        .ok (some site) ∧
      site.isVetoed cursor options.maxMatchSteps =
        .ok false ∧
      site.build rule cursor.word = .ok symbols := by
  rcases Rule.judge_cases hVerdict with
    ⟨_, _, hOther⟩ | ⟨_, hOther⟩ | ⟨found, hFind, hEnd⟩
  · cases hOther
  · cases hOther
  rcases hEnd with ⟨_, _, hOther⟩ | ⟨_, hOther⟩ |
    ⟨hVeto, hReplacing⟩
  · cases hOther
  · cases hOther
  rcases Site.replacing_cases hReplacing with
    ⟨_, _, hOther⟩ | ⟨built, hBuild, hSame⟩
  · cases hOther
  · cases hSame
    exact ⟨hFind, hVeto, hBuild⟩

------------------------------------------------------------
-- Replacements
------------------------------------------------------------

/- Of a rule only its disabled pairings matter to a site. -/
theorem Site.correlate_eq_of_mismatched
    {other : Rule}
    (hPairings : other.mismatched = rule.mismatched)
    (site : Site)
    (ref : CategoryRef) :
    site.correlate other ref = site.correlate rule ref := by
  have hSame :
      site.isMismatched other ref =
        site.isMismatched rule ref := by
    rw [isMismatched, isMismatched, hPairings]
  unfold correlate
  rw [hSame]

/- Of the bindings only the position of the slot matters. -/
theorem Site.correlate_congr
    {one other : Site}
    {ref : CategoryRef}
    (hIndex : one.predicateIndex = other.predicateIndex)
    (hBranch : one.branch = other.branch)
    (hBound :
      one.boundPosition? ref = other.boundPosition? ref) :
    one.correlate rule ref = other.correlate rule ref := by
  have hSame :
      one.isMismatched rule ref =
        other.isMismatched rule ref := by
    rw [isMismatched, isMismatched, hIndex, hBranch]
  unfold correlate
  rw [hBound, hSame]

theorem Site.emit_eq_of_mismatched
    {other : Rule}
    (hPairings : other.mismatched = rule.mismatched)
    (site : Site)
    (word : WordArray)
    (written : List Symbol)
    (element : Element) :
    site.emit other word written element =
      site.emit rule word written element := by
  cases element with
  | category ref =>
      exact correlate_eq_of_mismatched hPairings site ref
  | _ => rfl

theorem Site.buildFrom_eq_of_mismatched
    {other : Rule}
    (hPairings : other.mismatched = rule.mismatched)
    (site : Site)
    (word : WordArray)
    (written : List Symbol)
    (pattern : Pattern) :
    site.buildFrom other word written pattern =
      site.buildFrom rule word written pattern := by
  induction pattern generalizing written with
  | nil => rfl
  | cons element rest ih =>
      simp only [buildFrom, emit_eq_of_mismatched hPairings, ih]

------------------------------------------------------------
-- Reported problems
------------------------------------------------------------

/- What goes wrong with a site does not concern a whole run. -/
theorem Site.correlate_settled
    {site : Site}
    {ref : CategoryRef}
    {problem : Problem}
    (hProblem : site.correlate rule ref = .error problem) :
    problem.kind.isUnsettled = false := by
  unfold correlate at hProblem
  split at hProblem
  · cases hProblem
    rfl
  split at hProblem
  · split at hProblem
    · cases hProblem
    · cases hProblem
      rfl
  · split at hProblem
    · cases hProblem
      rfl
    · cases hProblem

theorem Site.emit_settled
    {site : Site}
    {word : WordArray}
    {written : List Symbol}
    {element : Element}
    {problem : Problem}
    (hProblem :
      site.emit rule word written element = .error problem) :
    problem.kind.isUnsettled = false := by
  cases element with
  | category ref => exact Site.correlate_settled hProblem
  | literal symbol => cases hProblem
  | null => cases hProblem
  | target reversed => cases hProblem
  | ditto => cases hProblem
  | _ =>
      cases hProblem
      rfl

theorem Site.buildFrom_settled
    {site : Site}
    {word : WordArray}
    {written : List Symbol}
    {pattern : Pattern}
    {problem : Problem}
    (hProblem :
      site.buildFrom rule word written pattern =
        .error problem) :
    problem.kind.isUnsettled = false := by
  induction pattern generalizing written with
  | nil => cases hProblem
  | cons element rest ih =>
      unfold buildFrom at hProblem
      split at hProblem
      · rename_i hEmit
        cases hProblem
        exact Site.emit_settled hEmit
      · exact ih hProblem

/- No verdict reports that a run has not settled. -/
theorem Rule.judge_settled
    {cursor : Cursor}
    {verdict : Verdict}
    (hVerdict :
      rule.judge options allowed cursor = .ok verdict)
    {problem : Problem}
    (hProblem : verdict.problem? = some problem) :
    problem.kind.isUnsettled = false := by
  rcases Rule.judge_cases hVerdict with
    ⟨_, _, rfl⟩ | ⟨_, rfl⟩ | ⟨site, _, hEnd⟩
  · obtain rfl := Option.some.inj hProblem
    rfl
  · cases hProblem
  rcases hEnd with ⟨_, _, rfl⟩ | ⟨_, rfl⟩ | ⟨_, hReplacing⟩
  · obtain rfl := Option.some.inj hProblem
    rfl
  · cases hProblem
  rcases Site.replacing_cases hReplacing with
    ⟨other, hBuild, rfl⟩ | ⟨_, _, rfl⟩
  · obtain rfl := Option.some.inj hProblem
    exact Site.buildFrom_settled hBuild
  · cases hProblem

------------------------------------------------------------
-- Visits
------------------------------------------------------------

/-
  The limit of a scan that has made some visits to a word: a
  scan to the right goes up to the end of the word as it is
  now, a scan to the left up to the site it found last.
-/
def Rule.limitAfter
    (rule : Rule)
    (word : Word)
    (earlier : List Visit)
    (current : WordArray) : Nat :=
  if rule.flags.rightToLeft then
    earlier.foldl
      (fun limit visit => visit.verdict.nextLimit limit)
      word.length
  else
    current.size

theorem Rule.visitsRight_judged
    {word : WordArray}
    {pos origin left : Nat}
    {visits : List Visit}
    (hVisits :
      rule.visitsRight options allowed word pos origin left =
        .ok visits) :
    ∀ visit ∈ visits,
      rule.judge options allowed visit.cursor =
          .ok visit.verdict ∧
        visit.cursor.limit = visit.cursor.word.size := by
  induction left using Nat.strongRecOn
    generalizing word pos origin visits with
  | _ left ih =>
  rcases visitsRight_cases hVisits with
    ⟨verdict, hVerdict, ⟨rfl, rfl⟩ |
      ⟨next, later, rfl, hLater, rfl⟩⟩
  · intro visit hVisit
    obtain rfl := List.mem_singleton.mp hVisit
    exact ⟨hVerdict, rfl⟩
  · intro visit hVisit
    rcases List.mem_cons.mp hVisit with rfl | hRest
    · exact ⟨hVerdict, rfl⟩
    · exact ih (next - (verdict.consumed - 1)) (by omega)
        hLater visit hRest

theorem Rule.visitsLeft_judged
    {word : WordArray}
    {limit pos : Nat}
    {earlier later : List Visit}
    {visit : Visit}
    (hVisits :
      rule.visitsLeft options allowed word limit pos =
        .ok (earlier ++ visit :: later)) :
    rule.judge options allowed visit.cursor =
        .ok visit.verdict ∧
      visit.cursor.limit =
        earlier.foldl
          (fun limit visit => visit.verdict.nextLimit limit)
          limit := by
  induction pos using Nat.strongRecOn
    generalizing word limit earlier with
  | _ pos ih =>
  rcases visitsLeft_cases hVisits with
    ⟨verdict, hVerdict, ⟨rfl, hOnly⟩ |
      ⟨next, rest, rfl, hRest, hSplit⟩⟩
  · cases earlier with
    | nil =>
        cases hOnly
        exact ⟨hVerdict, rfl⟩
    | cons first rest => simp at hOnly
  · cases earlier with
    | nil =>
        cases hSplit
        exact ⟨hVerdict, rfl⟩
    | cons first earlier =>
        rcases List.cons.inj hSplit with ⟨rfl, rfl⟩
        have hLater := ih next (Nat.lt_succ_self next) hRest
        exact hLater

/- Each visit is judged within the limit that is left to it. -/
theorem Rule.visits_judged
    {word : Word}
    {earlier later : List Visit}
    {visit : Visit}
    (hVisits :
      rule.visits options word =
        .ok (earlier ++ visit :: later)) :
    ∃ allowed,
      rule.allowedStarts options.maxMatchSteps word.toArray =
          .ok allowed ∧
        rule.judge options allowed visit.cursor =
          .ok visit.verdict ∧
        visit.cursor.limit =
          rule.limitAfter word earlier visit.cursor.word := by
  rw [Rule.visits] at hVisits
  split at hVisits
  · cases hVisits
  · rename_i allowed hAllowed
    refine ⟨allowed, hAllowed, ?_⟩
    unfold limitAfter
    split at hVisits
    · rename_i hLeft
      rw [if_pos hLeft]
      have hJudged := Rule.visitsLeft_judged hVisits
      rwa [List.size_toArray] at hJudged
    · rename_i hRight
      rw [if_neg hRight]
      exact Rule.visitsRight_judged hVisits visit (by simp)

------------------------------------------------------------
-- Scans
------------------------------------------------------------

theorem Sweep.edits_ofVisits
    (visits : List Visit)
    (word : Word) :
    (Sweep.ofVisits visits word).edits =
      visits.filterMap fun visit =>
        visit.verdict.edit? visit.cursor.word := by
  induction visits generalizing word with
  | nil => rfl
  | cons visit rest ih =>
      rw [Sweep.ofVisits, Verdict.followedBy, ih,
        List.filterMap_cons]
      cases visit.verdict.edit? visit.cursor.word <;> rfl

theorem Sweep.problems_ofVisits
    (visits : List Visit)
    (word : Word) :
    (Sweep.ofVisits visits word).problems =
      visits.filterMap fun visit =>
        visit.verdict.problem? := by
  induction visits generalizing word with
  | nil => rfl
  | cons visit rest ih =>
      rw [Sweep.ofVisits, Verdict.followedBy, ih,
        List.filterMap_cons]
      cases visit.verdict.problem? <;> rfl

/- A scan that comes to a result is known by its visits. -/
theorem Rule.exists_visits
    {word : Word}
    {sweep : Sweep}
    (hSweep : rule.sweep options word = .ok sweep) :
    ∃ visits,
      rule.visits options word = .ok visits ∧
        sweep = Sweep.ofVisits visits word := by
  rw [Rule.sweep_eq] at hSweep
  cases hVisits : rule.visits options word with
  | error fault =>
      rw [hVisits] at hSweep
      cases hSweep
  | ok visits =>
      rw [hVisits] at hSweep
      exact ⟨visits, rfl, (Except.ok.inj hSweep).symm⟩

/- No scan reports that a run has not settled. -/
theorem Rule.sweep_settled
    {word : Word}
    {sweep : Sweep}
    (hSweep : rule.sweep options word = .ok sweep) :
    ∀ problem ∈ sweep.problems,
      problem.kind.isUnsettled = false := by
  rcases Rule.exists_visits hSweep with ⟨visits, hVisits, rfl⟩
  intro problem hProblem
  rw [Sweep.problems_ofVisits] at hProblem
  rcases List.mem_filterMap.mp hProblem with
    ⟨visit, hVisit, hReported⟩
  rcases List.append_of_mem hVisit with
    ⟨earlier, later, rfl⟩
  rcases Rule.visits_judged hVisits with
    ⟨_, _, hVerdict, _⟩
  exact Rule.judge_settled hVerdict hReported

end Diachrony
