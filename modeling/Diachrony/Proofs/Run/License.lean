import Diachrony.Proofs.Matching.Found
import Diachrony.Proofs.Run.Passes

/-
  Every change is licensed.

  A site is made by the first pair of a branch and a
  predicate, in the order of declaration, that applies at a
  position. What a run records are replacements of such
  sites that no exception vetoes, in whatever pass they are
  made and whatever has been changed before.

  Key definitions include:
    * `Branch.SelectedAt`
    * `Predicate.HoldsAround`
    * `Predicate.FailsAround`
    * `Rule.PassedOver`
    * `Rule.Licenses`
    * `Rule.LicensedChange`

  Key theorems include:
    * `Rule.findSite_licenses`
    * `Rule.licensed_of_edit`
    * `Rule.change_licensed`
-/

namespace Diachrony

------------------------------------------------------------
-- Conditions on a site
------------------------------------------------------------

/-
  The indices of a branch let it start at a position of the
  word that a scan began with: there are none, or they
  select a match that was found to start there. They select
  nothing if the search for matches ran out of steps.
-/
def Branch.SelectedAt
    (branch : Branch)
    (budget : Int)
    (word : Word)
    (origin : Nat) : Prop :=
  ∀ indices, branch.indices = some indices →
    ∃ found,
      Pattern.findAll branch.target word.toArray budget =
          .ok found ∧
        origin ∈ (select found indices).map Match.start

/-
  A predicate has no environments, or one of their groups
  holds around a span and leaves some bindings.
-/
def Predicate.HoldsAround
    (predicate : Predicate)
    (site : Surroundings)
    (bindings after : Bindings) : Prop :=
  (predicate.environments = [] ∧ after = bindings) ∨
    ∃ group ∈ predicate.environments,
      EnvironmentGroup.holds site bindings group =
        .ok (some after)

/- A predicate has environments, and none of them holds. -/
def Predicate.FailsAround
    (predicate : Predicate)
    (site : Surroundings)
    (bindings : Bindings) : Prop :=
  predicate.environments ≠ [] ∧
    ∀ group ∈ predicate.environments,
      EnvironmentGroup.holds site bindings group = .ok none

/-
  A match of a pattern that ends on a path of the pattern,
  and no path leads further.
-/
def Pattern.LongestMatch
    (pattern : Pattern)
    (window : Window)
    (point : Point)
    (found : Match) : Prop :=
  (∃ reached ∈ Pattern.paths window pattern point,
    reached.toMatch point.pos = found) ∧
    ∀ reached ∈ Pattern.paths window pattern point,
      reached.pos ≤ found.stop

namespace Rule

/- What the scan of a word asks of the target of a branch. -/
def targetMatch
    (options : EngineOptions)
    (cursor : Cursor)
    (branch : Branch) : Except MatchFault (Option Match) :=
  Pattern.matchAt branch.target cursor.word cursor.pos
    (cursor.targetRequest options.maxMatchSteps)

/-
  Why a branch and a predicate do not apply at a position:
    * the indices of the branch select other matches only;
    * the search for the matches that the indices select
      from ran out of steps, so that they select nothing;
    * the target of the branch does not match there;
    * the environments of the predicate fail around what it
      matches.
-/
inductive PassedOver
    (options : EngineOptions)
    (word : Word)
    (cursor : Cursor)
    (branch : Branch)
    (predicate : Predicate) : Prop
  | unselected
      (indices : List Int)
      (found : List Match)
      (hIndices : branch.indices = some indices)
      (hFound :
        Pattern.findAll branch.target word.toArray
            options.maxMatchSteps =
          .ok found)
      (hOthers :
        cursor.origin ∉ (select found indices).map Match.start)
  | unsearched
      (indices : List Int)
      (steps : Nat)
      (hIndices : branch.indices = some indices)
      (hSteps :
        Pattern.findAll branch.target word.toArray
            options.maxMatchSteps =
          .error (.outOfSteps steps))
  | unmatched
      (hNone : targetMatch options cursor branch = .ok none)
  | unlicensed
      (found : Match)
      (hFound :
        targetMatch options cursor branch = .ok (some found))
      (hFails :
        predicate.FailsAround
          (cursor.surroundings options.maxMatchSteps found)
          found.bindings)

/-
  A rule licenses a site at a position of a scan of a word:
    * it is made by a branch and a predicate of the rule,
      and the indices of the branch do not exclude it;
    * it is the longest match of the target that starts
      there and keeps to the limit;
    * an environment of the predicate holds around it;
    * no exception holds under the bindings found so far;
    * no earlier pair of a branch and a predicate applies.
-/
structure Licenses
    (rule : Rule)
    (options : EngineOptions)
    (word : Word)
    (cursor : Cursor)
    (branch : Branch)
    (site : Site) : Prop where
  branch_eq : rule.branches[site.branch]? = some branch
  predicate_eq :
    rule.predicates[site.predicateIndex]? =
      some site.predicate
  selected :
    branch.SelectedAt options.maxMatchSteps word cursor.origin
  matched :
    targetMatch options cursor branch = .ok (some site.found)
  longest :
    Pattern.wellBounded branch.target = true →
      branch.target.LongestMatch
        ((cursor.targetRequest options.maxMatchSteps).window
          cursor.word)
        ⟨cursor.pos, []⟩ site.found
  holds :
    site.predicate.HoldsAround
      (cursor.surroundings options.maxMatchSteps site.found)
      site.found.bindings site.bindings
  unvetoed :
    ∀ group ∈ site.predicate.exceptions,
      EnvironmentGroup.holds
          (cursor.surroundings options.maxMatchSteps
            site.found)
          site.bindings group =
        .ok none
  first :
    ∀ b p earlier predicate,
      rule.branches[b]? = some earlier →
      rule.predicates[p]? = some predicate →
      (b < site.branch ∨
        (b = site.branch ∧ p < site.predicateIndex)) →
        PassedOver options word cursor earlier predicate

/-
  A change that a scan of a word makes after some visits:
  the word is the one that was looked at, the span is a site
  that the rule licenses there, and all that differs
  afterwards is that the symbols of the replacement stand in
  its place.
-/
structure LicensedChange
    (rule : Rule)
    (options : EngineOptions)
    (word : Word)
    (earlier : List Visit)
    (cursor : Cursor)
    (branch : Branch)
    (site : Site)
    (symbols : List Symbol)
    (edit : Edit) : Prop where
  before_eq : cursor.word.toList = edit.before
  pos_eq : cursor.pos = edit.start
  limit_eq :
    cursor.limit = rule.limitAfter word earlier cursor.word
  origin_eq :
    (edit.start : Int) =
      cursor.origin + rule.shift (Visit.rewrites earlier)
  licensed : rule.Licenses options word cursor branch site
  start_eq : site.found.start = edit.start
  stop_eq : site.found.stop = edit.stop
  built :
    site.buildFrom rule cursor.word []
        (site.predicate.replacementFor site.branch) =
      .ok symbols
  differs : symbols ≠ edit.before.span edit.start edit.stop
  after_eq :
    edit.after = edit.before.splice edit.start edit.stop symbols

end Rule

------------------------------------------------------------
-- Finding a site
------------------------------------------------------------

/- What is allowed is what the indices select. -/
theorem Cursor.isAllowed_iff
    {cursor : Cursor}
    {branch : Branch}
    {budget : Int}
    {word : Word}
    {starts : Option (List Nat)}
    (hStarts :
      branch.allowedStarts budget word.toArray = .ok starts) :
    cursor.isAllowed starts = true ↔
      branch.SelectedAt budget word cursor.origin := by
  unfold Branch.allowedStarts at hStarts
  split at hStarts
  · rename_i hIndices
    cases hStarts
    simp [isAllowed, Branch.SelectedAt, hIndices]
  · rename_i indices hIndices
    split at hStarts
    · rename_i found hFound
      cases hStarts
      simp [isAllowed, Branch.SelectedAt, hIndices, hFound]
    · rename_i steps hSteps
      cases hStarts
      simp [isAllowed, Branch.SelectedAt, hIndices, hSteps]
    · cases hStarts

/- The allowed starts of a rule are those of its branches. -/
theorem exists_starts_of_allowedStartsOf
    {budget : Int}
    {word : WordArray}
    {branches : List Branch}
    {allowed : List (Option (List Nat))}
    (hAllowed :
      allowedStartsOf budget word branches = .ok allowed)
    {b : Nat}
    {branch : Branch}
    (hBranch : branches[b]? = some branch) :
    ∃ starts,
      allowed[b]? = some starts ∧
        branch.allowedStarts budget word = .ok starts := by
  induction branches generalizing allowed b with
  | nil => cases hBranch
  | cons first rest ih =>
      unfold allowedStartsOf at hAllowed
      split at hAllowed
      · cases hAllowed
      · rename_i starts hStarts
        split at hAllowed
        · cases hAllowed
        · rename_i others hOthers
          cases hAllowed
          cases b with
          | zero =>
              obtain rfl := Option.some.inj hBranch
              exact ⟨starts, rfl, hStarts⟩
          | succ b => exact ih hOthers hBranch

namespace Predicate

variable {predicate : Predicate}
variable {site : Surroundings}
variable {bindings after : Bindings}

theorem holdsAround_of_admits
    (hAdmits :
      predicate.admits site bindings = .ok (some after)) :
    predicate.HoldsAround site bindings after := by
  unfold admits at hAdmits
  split at hAdmits
  · rename_i hNone
    cases hAdmits
    exact Or.inl ⟨List.isEmpty_iff.mp hNone, rfl⟩
  · exact Or.inr (exists_of_firstSome hAdmits)

theorem failsAround_of_admits
    (hAdmits : predicate.admits site bindings = .ok none) :
    predicate.FailsAround site bindings := by
  unfold admits at hAdmits
  split at hAdmits
  · cases hAdmits
  · rename_i hSome
    refine ⟨?_, firstSome_eq_none_iff.mp hAdmits⟩
    intro hNone
    exact hSome (List.isEmpty_iff.mpr hNone)

/- A predicate that makes no site fails. -/
theorem failsAround_of_site?
    {cursor : Cursor}
    {budget : Int}
    {branch : Nat}
    {found : Match}
    {entry : Predicate × Nat}
    (hSite :
      Predicate.site? cursor budget branch found entry =
        .ok none) :
    entry.1.FailsAround (cursor.surroundings budget found)
      found.bindings := by
  unfold site? at hSite
  split at hSite
  · cases hSite
  · rename_i hNone
    exact failsAround_of_admits hNone
  · cases hSite

end Predicate

variable {rule : Rule}
variable {options : EngineOptions}
variable {word : Word}
variable {cursor : Cursor}
variable {site : Site}

/- A start that is not allowed is excluded by the indices. -/
theorem Branch.passedOver_of_isAllowed
    {branch : Branch}
    {starts : Option (List Nat)}
    (hStarts :
      branch.allowedStarts options.maxMatchSteps word.toArray =
        .ok starts)
    (hExcluded : cursor.isAllowed starts = false)
    (predicate : Predicate) :
    Rule.PassedOver options word cursor branch predicate := by
  unfold Branch.allowedStarts at hStarts
  split at hStarts
  · cases hStarts
    cases hExcluded
  · rename_i indices hIndices
    split at hStarts
    · rename_i found hFound
      cases hStarts
      apply
        Rule.PassedOver.unselected indices found hIndices hFound
      intro hMem
      rw [Cursor.isAllowed, Option.all_some,
        List.contains_iff_mem.mpr hMem] at hExcluded
      cases hExcluded
    · rename_i steps hSteps
      exact .unsearched indices steps hIndices hSteps
    · cases hStarts

/- A branch that makes no site is passed over altogether. -/
theorem Branch.passedOver_of_site?
    {branch : Branch}
    {starts : Option (List Nat)}
    {b : Nat}
    (hStarts :
      branch.allowedStarts options.maxMatchSteps word.toArray =
        .ok starts)
    (hSite :
      Branch.site? rule cursor options.maxMatchSteps
          ((branch, starts), b) =
        .ok none)
    {p : Nat}
    {predicate : Predicate}
    (hPredicate : rule.predicates[p]? = some predicate) :
    Rule.PassedOver options word cursor branch predicate := by
  unfold Branch.site? at hSite
  split at hSite
  · rename_i hExcluded
    exact
      Branch.passedOver_of_isAllowed hStarts
        (by simpa using hExcluded) predicate
  split at hSite
  · cases hSite
  · rename_i hNone
    exact .unmatched hNone
  · rename_i found hFound
    apply Rule.PassedOver.unlicensed found hFound
    have hEntry : (predicate, p) ∈ rule.predicates.zipIdx := by
      rw [List.mem_zipIdx_iff_getElem?]
      exact hPredicate
    exact Predicate.failsAround_of_site?
      (firstSome_eq_none_iff.mp hSite _ hEntry)

/-
  The longest match is found if the repetitions of a pattern
  are well-bounded.
-/
theorem Pattern.longestMatch_of_matchAt
    {pattern : Pattern}
    (hBounds : Pattern.wellBounded pattern = true)
    {word : WordArray}
    {request : MatchRequest}
    (hLongest : request.longest = true)
    (hStop : request.stop = none)
    {start : Nat}
    {found : Match}
    (hFound :
      Pattern.matchAt pattern word start request =
        .ok (some found)) :
    pattern.LongestMatch (request.window word)
      (request.point start) found := by
  have hChosen := Pattern.chosen_of_found hBounds hFound
  have hAdmits : ∀ point ∈
      Pattern.paths (request.window word) pattern
        (request.point start),
      request.admits point = true := by
    intro point _
    simp [MatchRequest.admits, hStop]
  rw [MatchRequest.choose, hLongest, if_pos rfl,
    List.filter_eq_self.mpr hAdmits] at hChosen
  rcases Option.map_eq_some_iff.mp hChosen with
    ⟨reached, hReached, rfl⟩
  refine ⟨⟨reached, List.argmax_mem hReached, rfl⟩, ?_⟩
  intro other hOther
  exact List.le_of_mem_argmax hOther hReached

/- A pair before that of a site has been passed over. -/
theorem Rule.Finds.passedOver
    {allowed : List (Option (List Nat))}
    {branch : Branch}
    {starts : Option (List Nat)}
    (hAllowed :
      rule.allowedStarts options.maxMatchSteps word.toArray =
        .ok allowed)
    (hFinds :
      rule.Finds options.maxMatchSteps allowed cursor branch
        starts site)
    {b p : Nat}
    {earlier : Branch}
    {predicate : Predicate}
    (hEarlier : rule.branches[b]? = some earlier)
    (hPredicate : rule.predicates[p]? = some predicate)
    (hBefore :
      b < site.branch ∨
        (b = site.branch ∧ p < site.predicateIndex)) :
    Rule.PassedOver options word cursor earlier predicate := by
  rcases hBefore with hLess | ⟨rfl, hLess⟩
  · rcases exists_starts_of_allowedStartsOf hAllowed
        hEarlier with
      ⟨others, hOthers, hStarts⟩
    have hNoSite := hFinds.no_branch b hLess (earlier, others)
      (List.getElem?_zip_eq_some.mpr ⟨hEarlier, hOthers⟩)
    exact Branch.passedOver_of_site? hStarts hNoSite hPredicate
  · have hHere :=
      (List.getElem?_zip_eq_some.mp hFinds.entry_eq).1
    obtain rfl : branch = earlier :=
      Option.some.inj (hHere.symm.trans hEarlier)
    exact
      .unlicensed site.found hFinds.matched
        (Predicate.failsAround_of_site?
          (hFinds.no_predicate p hLess predicate hPredicate))

/- No exception holds at a site that is not vetoed. -/
theorem Site.unvetoed_of_isVetoed
    {budget : Int}
    (hVeto : site.isVetoed cursor budget = .ok false) :
    ∀ group ∈ site.predicate.exceptions,
      EnvironmentGroup.holds
          (cursor.surroundings budget site.found)
          site.bindings group =
        .ok none := by
  unfold isVetoed at hVeto
  split at hVeto
  · cases hVeto
  rename_i vetoing hExceptions
  have hNone : vetoing = none :=
    Option.isNone_iff_eq_none.mp
      (Option.isSome_eq_false_iff.mp (Except.ok.inj hVeto))
  rw [hNone] at hExceptions
  exact firstSome_eq_none_iff.mp hExceptions

/- The site that is found and not vetoed is licensed. -/
theorem Rule.findSite_licenses
    {allowed : List (Option (List Nat))}
    (hAllowed :
      rule.allowedStarts options.maxMatchSteps word.toArray =
        .ok allowed)
    (hFind :
      rule.findSite options.maxMatchSteps allowed cursor =
        .ok (some site))
    (hVeto :
      site.isVetoed cursor options.maxMatchSteps =
        .ok false) :
    ∃ branch, rule.Licenses options word cursor branch site := by
  rcases Rule.finds_of_findSite hFind with
    ⟨branch, starts, hFinds⟩
  rcases List.getElem?_zip_eq_some.mp hFinds.entry_eq with
    ⟨hHere, hStartsHere⟩
  rcases exists_starts_of_allowedStartsOf hAllowed hHere with
    ⟨others, hOthers, hStarts⟩
  obtain rfl : starts = others :=
    Option.some.inj (hStartsHere.symm.trans hOthers)
  refine ⟨branch, ?_⟩
  exact
    { branch_eq := hHere
      predicate_eq := hFinds.predicate_eq
      selected :=
        (Cursor.isAllowed_iff hStarts).mp hFinds.isAllowed
      matched := hFinds.matched
      longest := fun hBounds =>
        Pattern.longestMatch_of_matchAt hBounds rfl rfl
          hFinds.matched
      holds := Predicate.holdsAround_of_admits hFinds.admits
      unvetoed := Site.unvetoed_of_isVetoed hVeto
      first := fun _ _ _ _ hEarlier hPredicate hBefore =>
        hFinds.passedOver hAllowed hEarlier hPredicate
          hBefore }

------------------------------------------------------------
-- Changes of a scan
------------------------------------------------------------

/- Each visit of a scan that follows others reaches its site. -/
theorem Rule.Follows.reaches
    {earlier : List Rewrite}
    {current : WordArray}
    {before after : List Visit}
    {visit : Visit}
    (hFollows :
      rule.Follows word earlier current
        (before ++ visit :: after))
    {rewritten : Rewrite}
    (hRewrite : visit.rewrite? = some rewritten) :
    ∃ found,
      visit.verdict = .replaced found rewritten.symbols ∧
        rule.Reaches word (earlier ++ Visit.rewrites before)
          rewritten found.found := by
  induction before generalizing earlier current with
  | nil =>
      rw [Visit.rewrites, List.filterMap_nil, List.append_nil]
      cases hFollows with
      | step _ hSite _ => exact hSite rewritten hRewrite
  | cons first rest ih =>
      rw [Visit.rewrites_cons, ← List.append_assoc]
      cases hFollows with
      | step _ _ hRest => exact ih hRest

/- A change that a visit of a scan makes is licensed. -/
theorem Rule.licensed_of_edit
    {earlier later : List Visit}
    {visit : Visit}
    (hVisits :
      rule.visits options word =
        .ok (earlier ++ visit :: later))
    {edit : Edit}
    (hEdit :
      visit.verdict.edit? visit.cursor.word = some edit) :
    ∃ branch site symbols,
      rule.LicensedChange options word earlier visit.cursor
        branch site symbols edit := by
  rcases Rule.visits_judged hVisits with
    ⟨allowed, hAllowed, hVerdict, hLimit⟩
  cases hReplaced : visit.verdict with
  | miss => simp [hReplaced, Verdict.edit?] at hEdit
  | abandoned problem =>
      simp [hReplaced, Verdict.edit?] at hEdit
  | vetoed site => simp [hReplaced, Verdict.edit?] at hEdit
  | skipped site problem =>
      simp [hReplaced, Verdict.edit?] at hEdit
  | replaced site symbols =>
  rw [hReplaced] at hVerdict hEdit
  rcases Rule.judge_replaced hVerdict with
    ⟨hFind, hVeto, hBuild⟩
  rcases Rule.findSite_licenses hAllowed hFind hVeto with
    ⟨branch, hLicensed⟩
  rw [Verdict.edit?, Site.edit?, Site.span,
    WordArray.span_eq] at hEdit
  split at hEdit
  · cases hEdit
  rename_i hDiffers
  obtain rfl := Option.some.inj hEdit
  have hRewrite :
      visit.rewrite? =
        some
          { start := visit.cursor.origin
            stop := visit.cursor.origin + site.found.length
            symbols := symbols } := by
    rw [Visit.rewrite?, hReplaced]
  rcases (Rule.visits_follow hVisits).reaches hRewrite with
    ⟨found, hSame, hReaches⟩
  rw [hReplaced] at hSame
  obtain rfl : site = found := by
    injection hSame
  refine ⟨branch, site, symbols, ?_⟩
  exact
    { before_eq := rfl
      pos_eq := (Rule.findSite_within hFind).start_eq.symm
      limit_eq := hLimit
      origin_eq := by
        rw [Rule.shift_eq]
        exact hReaches.start_eq
      licensed := hLicensed
      start_eq := rfl
      stop_eq := rfl
      built := hBuild
      differs := hDiffers
      after_eq := rfl }

/-
  Every change that a run records is licensed: it was made
  in a scan of the word that the passes before have left.
-/
theorem Rule.change_licensed
    {rule : Rule}
    {options : EngineOptions}
    {word : Word}
    {outcome : RuleOutcome}
    (hRun : rule.run options word = .ok outcome)
    {record : Record}
    (hRecord : record ∈ outcome.changes) :
    ∃ i < outcome.passes,
      record.pass = i + 1 ∧
        ∃ earlier visit later branch site symbols,
          rule.visits options
              ((rule.effect options)^[i] word) =
            .ok (earlier ++ visit :: later) ∧
          rule.LicensedChange options
            ((rule.effect options)^[i] word) earlier
            visit.cursor branch site symbols record.edit := by
  rcases Rule.exists_pass_of_mem_changes hRun hRecord with
    ⟨i, hPass, hNumber, hEdit⟩
  refine ⟨i, hPass, hNumber, ?_⟩
  unfold Rule.passEdits at hEdit
  split at hEdit
  · rename_i sweep hSweep
    rcases Rule.exists_visits hSweep with
      ⟨visits, hVisits, rfl⟩
    rw [Sweep.edits_ofVisits] at hEdit
    rcases List.mem_filterMap.mp hEdit with
      ⟨visit, hVisit, hMade⟩
    rcases List.append_of_mem hVisit with
      ⟨earlier, later, rfl⟩
    rcases Rule.licensed_of_edit hVisits hMade with
      ⟨branch, site, symbols, hLicensed⟩
    exact ⟨earlier, visit, later, branch, site, symbols,
      hVisits, hLicensed⟩
  · cases hEdit

/-
  The first pair of two symbols becomes one. Elsewhere only
  the first symbol of a pair is changed.
-/
def firstPairRule : Rule where
  branches :=
    [ { target := [.literal "a", .literal "b"]
        indices := some [0] },
      { target := [.literal "a"] } ]
  predicates :=
    [ { replacements := [[.literal "x"], [.literal "y"]]
        environments := [[.around [] [.literal "b"]],
          [.around [] [.literal "a"]]]
        exceptions := [[.around [.literal "b"] []]] } ]
  source := "ab@1, a > x, y / _b, _a ! b_"

theorem firstPairRule_licensed :
    let word : Word := ["a", "b", "a", "c", "a", "b"]
    let record : Record :=
      { rule := firstPairRule.source
        start := 3
        stop := 4
        before := ["x", "a", "c", "a", "b"]
        after := ["x", "a", "c", "y", "b"]
        pass := 1 }
    let outcome : RuleOutcome :=
      { word := ["x", "a", "c", "y", "b"]
        changes :=
          [ { rule := firstPairRule.source
              start := 0
              stop := 2
              before := word
              after := ["x", "a", "c", "a", "b"]
              pass := 1 },
            record ]
        passes := 1
        examined := 6 }
    firstPairRule.run {} word = .ok outcome ∧
      record ∈ outcome.changes ∧
      ∃ i < outcome.passes,
        record.pass = i + 1 ∧
          ∃ earlier visit later branch site symbols,
            firstPairRule.visits {}
                ((firstPairRule.effect {})^[i] word) =
              .ok (earlier ++ visit :: later) ∧
            firstPairRule.LicensedChange {}
              ((firstPairRule.effect {})^[i] word) earlier
              visit.cursor branch site symbols record.edit :=
  ⟨by decide +kernel, by decide,
    Rule.change_licensed
      (by decide +kernel :
        firstPairRule.run {} ["a", "b", "a", "c", "a", "b"] =
          .ok _)
      (by decide)⟩

end Diachrony
