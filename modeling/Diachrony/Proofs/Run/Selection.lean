import Diachrony.Proofs.Run.License
import Diachrony.Proofs.Scan.Simultaneous
import Diachrony.Proofs.Scan.Totality
import Diachrony.Proofs.Scan.Unconditional

/-
  Scans of rules whose branches have indices.

  Indices select matches of a branch in the word as it was
  when a scan began. What the scan has written moves the
  symbols behind it, but a position is always looked up
  among the selected ones by where it was at first. So no
  site starts anywhere else, and from left to right a
  selected match is met as it was found, unless it starts
  inside a match that the scan has come to before.

  Key definitions include:
    * `Branch.Selects`
    * `Visit.Covers`
    * `Rule.StartsAsSelected`
    * `Rule.AppliesAhead`
    * `Rule.MeetsSelected`

  Key theorems include:
    * `Pattern.matchAt_behind`
    * `Rule.pos_of_visits`
    * `Rule.visitsRight_cover`
    * `Rule.sweep_selects`
-/

namespace Diachrony

variable {rule : Rule}
variable {options : EngineOptions}
variable {allowed : List (Option (List Nat))}
variable {word : Word}
variable {branch : Branch}

------------------------------------------------------------
-- Selected matches
------------------------------------------------------------

/- The indices of a branch select a match of its target. -/
def Branch.Selects
    (branch : Branch)
    (budget : Int)
    (word : Word)
    (chosen : Match) : Prop :=
  ∃ indices found,
    branch.indices = some indices ∧
      Pattern.findAll branch.target word.toArray budget =
          .ok found ∧
        chosen ∈ select found indices

/-
  A position of the first word lies behind the start of what
  a visit has matched, and before its end.
-/
def Visit.Covers
    (visit : Visit)
    (pos : Nat) : Prop :=
  ∃ site,
    visit.verdict.site? = some site ∧
      visit.cursor.origin < pos ∧
        pos < visit.cursor.origin + site.found.length

instance
    (visit : Visit)
    (pos : Nat) :
    Decidable (visit.Covers pos) :=
  decidable_of_iff
    (visit.verdict.site?.any fun site =>
      decide
        (visit.cursor.origin < pos ∧
          pos < visit.cursor.origin + site.found.length))
    (by simp [Visit.Covers, Option.any_eq_true])

namespace Rule

/-
  If a visit comes to a site of a branch with indices then
  the site starts where a selected match has been moved to
  by the visits before.
-/
def StartsAsSelected
    (rule : Rule)
    (budget : Int)
    (word : Word)
    (earlier : List Visit)
    (visit : Visit) : Prop :=
  ∀ site branch indices,
    visit.verdict.site? = some site →
      rule.branches[site.branch]? = some branch →
        branch.indices = some indices →
          ∃ chosen,
            branch.Selects budget word chosen ∧
              (site.found.start : Int) =
                chosen.start +
                  rule.shift (Visit.rewrites earlier)

/-
  A rule consists of one branch, whose target looks neither
  at the word edges nor back, and has neither environments
  nor exceptions.
-/
structure AppliesAhead
    (rule : Rule)
    (branch : Branch) : Prop where
  branches_eq : rule.branches = [branch]
  unconditional :
    ∀ predicate ∈ rule.predicates,
      predicate.isUnconditional = true
  looksAhead : Pattern.looksAhead branch.target = true

/-
  A visit meets a match of the first word: the target is
  matched there as it was at first, except that the visits
  before have moved it, and if the rule writes anything at
  all then this match is its site.
-/
structure MeetsSelected
    (rule : Rule)
    (budget : Int)
    (branch : Branch)
    (earlier : List Visit)
    (visit : Visit)
    (chosen found : Match) : Prop where
  matched :
    Pattern.matchAt branch.target visit.cursor.word
        visit.cursor.pos (visit.cursor.targetRequest budget) =
      .ok (some found)
  start_eq :
    (found.start : Int) =
      chosen.start + rule.shift (Visit.rewrites earlier)
  stop_eq :
    (found.stop : Int) =
      chosen.stop + rule.shift (Visit.rewrites earlier)
  bindings_eq : found.bindings = chosen.bindings
  taken :
    rule.predicates ≠ [] →
      ∃ site,
        visit.verdict.site? = some site ∧ site.found = found

end Rule

/- A selected match was found at its start. -/
theorem Branch.Selects.matched
    {budget : Int}
    {chosen : Match}
    (hSelects : branch.Selects budget word chosen) :
    chosen.start ≤ word.length ∧
      Pattern.matchAt branch.target word.toArray chosen.start
          { budget := budget } =
        .ok (some chosen) := by
  rcases hSelects with ⟨indices, found, _, hFound, hChosen⟩
  rcases exists_of_mem_collect hFound
      (mem_of_mem_select hChosen) with
    ⟨pos, hPos, hMatch⟩
  have hStart : chosen.start = pos := by
    simpa using (Pattern.matchAt_within hMatch).start_eq
  have hInside : pos < word.length + 1 := by
    simpa [WordArray.positions] using hPos
  rw [hStart]
  exact ⟨Nat.le_of_lt_succ hInside, hMatch⟩

theorem Branch.Selects.selectedAt
    {budget : Int}
    {chosen : Match}
    (hSelects : branch.Selects budget word chosen) :
    branch.SelectedAt budget word chosen.start := by
  rcases hSelects with
    ⟨indices, found, hIndices, hFound, hChosen⟩
  intro others hOthers
  obtain rfl := Option.some.inj (hIndices.symm.trans hOthers)
  exact ⟨found, hFound, List.mem_map_of_mem hChosen⟩

theorem Branch.SelectedAt.exists_selects
    {budget : Int}
    {origin : Nat}
    {indices : List Int}
    (hSelected : branch.SelectedAt budget word origin)
    (hIndices : branch.indices = some indices) :
    ∃ chosen,
      branch.Selects budget word chosen ∧
        chosen.start = origin := by
  rcases hSelected indices hIndices with
    ⟨found, hFound, hOrigin⟩
  rcases List.mem_map.mp hOrigin with
    ⟨chosen, hChosen, hStart⟩
  exact
    ⟨chosen, ⟨indices, found, hIndices, hFound, hChosen⟩,
      hStart⟩

------------------------------------------------------------
-- Positions of visits
------------------------------------------------------------

/-
  Each visit of a scan to the right finds the state that the
  visits before it have left.
-/
theorem RightState.at_visit
    (hRight : rule.flags.rightToLeft = false)
    {sites : List Rewrite}
    {current : WordArray}
    {pos origin left : Nat}
    {earlier later : List Visit}
    {visit : Visit}
    (hState : RightState word sites current pos origin left)
    (hVisits :
      rule.visitsRight options allowed current pos origin
        left = .ok (earlier ++ visit :: later)) :
    ∃ rest,
      RightState word (sites ++ Visit.rewrites earlier)
        visit.cursor.word visit.cursor.pos visit.cursor.origin
        rest := by
  induction left using Nat.strongRecOn
    generalizing sites current pos origin earlier with
  | _ left ih =>
  rcases Rule.visitsRight_cases hVisits with
    ⟨verdict, hVerdict, hRest⟩
  have hHere :
      ∃ rest,
        RightState word (sites ++ Visit.rewrites [])
          current pos origin rest :=
    ⟨left, by rwa [Visit.rewrites, List.filterMap_nil,
      List.append_nil]⟩
  rcases hRest with
    ⟨rfl, hOnly⟩ | ⟨next, rest, rfl, hLater, hSplit⟩
  · cases earlier with
    | nil =>
        cases hOnly
        exact hHere
    | cons first rest => simp at hOnly
  · cases earlier with
    | nil =>
        cases hSplit
        exact hHere
    | cons first earlier =>
        rcases List.cons.inj hSplit with ⟨rfl, rfl⟩
        rw [Visit.rewrites_cons, ← List.append_assoc]
        exact
          ih (next - (verdict.consumed - 1)) (by omega)
            (hState.next hRight hVerdict) hLater

/- A scan to the left does not move what it will look at. -/
theorem Rule.visitsLeft_origin
    {word : WordArray}
    {limit pos : Nat}
    {visits : List Visit}
    (hVisits :
      rule.visitsLeft options allowed word limit pos =
        .ok visits) :
    ∀ visit ∈ visits,
      visit.cursor.origin = visit.cursor.pos := by
  induction pos using Nat.strongRecOn
    generalizing word limit visits with
  | _ pos ih =>
  rcases Rule.visitsLeft_cases hVisits with
    ⟨verdict, _, ⟨rfl, rfl⟩ |
      ⟨next, later, rfl, hLater, rfl⟩⟩
  · intro visit hVisit
    obtain rfl := List.mem_singleton.mp hVisit
    rfl
  · intro visit hVisit
    rcases List.mem_cons.mp hVisit with rfl | hRest
    · rfl
    · exact ih next (Nat.lt_succ_self next) hLater visit hRest

/-
  The position of a visit is where the visits before it have
  moved what stood there at first.
-/
theorem Rule.pos_of_visits
    {earlier later : List Visit}
    {visit : Visit}
    (hVisits :
      rule.visits options word =
        .ok (earlier ++ visit :: later)) :
    (visit.cursor.pos : Int) =
      visit.cursor.origin +
        rule.shift (Visit.rewrites earlier) := by
  unfold Rule.visits at hVisits
  dsimp only at hVisits
  split at hVisits
  · cases hVisits
  unfold Rule.shift
  split at hVisits
  · rename_i hLeft
    have hOrigin := Rule.visitsLeft_origin hVisits visit
      (List.mem_append_right _ List.mem_cons_self)
    rw [if_pos hLeft, hOrigin, Int.add_zero]
  · rename_i hRight
    rcases (RightState.initial word).at_visit
        (Bool.eq_false_iff.mpr hRight) hVisits with
      ⟨rest, hState⟩
    rw [if_neg hRight]
    exact hState.pos_eq

/- A scan to the right passes a symbol at least. -/
theorem Verdict.one_le_consumed
    (verdict : Verdict) :
    1 ≤ verdict.consumed := by
  unfold Verdict.consumed
  split
  · exact Nat.le_refl 1
  · exact Nat.le_max_right _ _

/-
  A scan to the right looks at each position from where it
  starts, except for those inside a match.
-/
theorem Rule.visitsRight_cover
    {current : WordArray}
    {pos origin left target : Nat}
    {visits : List Visit}
    (hVisits :
      rule.visitsRight options allowed current pos origin
        left = .ok visits)
    (hStart : origin ≤ target)
    (hStop : target ≤ origin + left) :
    ∃ visit ∈ visits,
      visit.cursor.origin = target ∨ visit.Covers target := by
  induction left using Nat.strongRecOn
    generalizing current pos origin visits with
  | _ left ih =>
  rcases Rule.visitsRight_cases hVisits with
    ⟨verdict, _, ⟨rfl, rfl⟩ |
      ⟨next, later, rfl, hLater, rfl⟩⟩
  · refine ⟨_, List.mem_cons_self, Or.inl ?_⟩
    exact Nat.le_antisymm hStart hStop
  · by_cases hHere : origin = target
    · exact ⟨_, List.mem_cons_self, Or.inl hHere⟩
    by_cases hPassed : target < origin + verdict.consumed
    · -- More than one symbol was passed, so there is a site.
      refine ⟨_, List.mem_cons_self, Or.inr ?_⟩
      unfold Verdict.consumed at hPassed
      split at hPassed
      · omega
      · rename_i site hSite
        refine ⟨site, hSite, ?_⟩
        change
          origin < target ∧ target < origin + site.found.length
        omega
    · have hOne := verdict.one_le_consumed
      rcases ih (next - (verdict.consumed - 1)) (by omega)
          hLater (by omega) (by omega) with
        ⟨visit, hVisit, hTarget⟩
      exact ⟨visit, List.mem_cons_of_mem _ hVisit, hTarget⟩

------------------------------------------------------------
-- Sites of branches with indices
------------------------------------------------------------

/- A site of a branch starts where its indices let it. -/
theorem Rule.startsAsSelected
    {earlier later : List Visit}
    {visit : Visit}
    (hVisits :
      rule.visits options word =
        .ok (earlier ++ visit :: later)) :
    rule.StartsAsSelected options.maxMatchSteps word earlier
      visit := by
  intro site branch indices hSite hBranch hIndices
  rcases Rule.visits_judged hVisits with
    ⟨allowed, hAllowed, hVerdict, _⟩
  have hPos := Rule.pos_of_visits hVisits
  have hStart := (Rule.judge_within hVerdict hSite).start_eq
  rcases Rule.finds_of_findSite
      ((Rule.site?_of_judge hVerdict site).mp hSite) with
    ⟨other, starts, hFinds⟩
  rcases List.getElem?_zip_eq_some.mp hFinds.entry_eq with
    ⟨hOther, hEntry⟩
  obtain rfl := Option.some.inj (hOther.symm.trans hBranch)
  rcases exists_starts_of_allowedStartsOf hAllowed hBranch with
    ⟨others, hOthers, hStarts⟩
  obtain rfl := Option.some.inj (hEntry.symm.trans hOthers)
  rcases ((Cursor.isAllowed_iff hStarts).mp
      hFinds.isAllowed).exists_selects hIndices with
    ⟨chosen, hChosen, hOrigin⟩
  refine ⟨chosen, hChosen, ?_⟩
  rw [hStart, hOrigin]
  exact hPos

------------------------------------------------------------
-- Matches behind what was written
------------------------------------------------------------

/- A limit at the word end is no limit. -/
theorem Pattern.matchAt_limit_size
    (pattern : Pattern)
    (word : WordArray)
    (start budget : Int) :
    Pattern.matchAt pattern word start
        { limit := some (word.size : Int), budget := budget } =
      Pattern.matchAt pattern word start
        { budget := budget } := by
  have hLimit :
      MatchRequest.limitIn
          { limit := some (word.size : Int)
            budget := budget } word =
        MatchRequest.limitIn { budget := budget } word := by
    simp [MatchRequest.limitIn]
  simp only [Pattern.matchAt, hLimit, MatchRequest.machine,
    MatchRequest.window, MatchRequest.thread]

/-
  What a pattern that looks ahead matches behind some
  symbols is what it matches without them.
-/
theorem Pattern.matchAt_behind
    {pattern : Pattern}
    (hAhead : pattern.looksAhead = true)
    (before rest : Word)
    (budget : Int) :
    Pattern.matchAt pattern (before ++ rest).toArray
        before.length { budget := budget } =
      (Pattern.matchAt pattern rest.toArray 0
        { budget := budget }).map
          (Option.map (Match.shift before.length)) := by
  have hBetween :=
    Pattern.matchAt_between before rest [] budget hAhead
  have hRequest :
      MatchRequest.between before rest budget =
        { limit := some ((before ++ rest).toArray.size : Int)
          budget := budget } := by
    simp [MatchRequest.between]
  rw [List.append_nil, hRequest, Pattern.matchAt_limit_size]
    at hBetween
  exact hBetween

namespace RightState

variable {sites : List Rewrite}
variable {current : WordArray}
variable {pos origin left : Nat}

/- What is left of the first word stands where a scan is. -/
theorem exists_before
    (hState : RightState word sites current pos origin left) :
    ∃ before : Word,
      before.length = pos ∧
        current = (before ++ word.drop origin).toArray := by
  have hInside : origin ≤ word.length := by
    have hLeft := hState.left_eq
    omega
  have hLength :=
    Word.length_rewriteBetween (Nat.zero_le origin) hInside
      hState.inside hState.order
  have hParts :
      word.rewriteBetween 0 origin sites ++
          word.rewriteBetween origin word.length [] =
        word.rewriteBetween 0 word.length (sites ++ []) :=
    Word.rewriteBetween_append (Nat.zero_le origin) hInside
      hState.inside hState.order (List.forall_mem_nil _)
  refine ⟨word.rewriteBetween 0 origin sites, ?_, ?_⟩
  · have hPos := hState.pos_eq
    omega
  · rw [List.append_nil, Word.rewriteBetween,
      Word.span_to_end] at hParts
    rw [hParts]
    exact Array.toList_inj.mp hState.word_eq

/-
  A match of the first word that starts where a scan is now
  is found there as it was, only moved.
-/
theorem matchAt_moved
    (hState : RightState word sites current pos origin left)
    {pattern : Pattern}
    (hAhead : pattern.looksAhead = true)
    {budget : Int}
    {chosen : Match}
    (hChosen :
      Pattern.matchAt pattern word.toArray origin
          { budget := budget } =
        .ok (some chosen)) :
    ∃ found,
      Pattern.matchAt pattern current pos
          { budget := budget } =
        .ok (some found) ∧
      (found.start : Int) =
        chosen.start + Rewrite.totalGrowth sites ∧
      (found.stop : Int) =
        chosen.stop + Rewrite.totalGrowth sites ∧
      found.bindings = chosen.bindings := by
  have hPos := hState.pos_eq
  have hLeft := hState.left_eq
  rcases hState.exists_before with ⟨before, rfl, rfl⟩
  have hTaken : (word.take origin).length = origin := by
    rw [List.length_take]
    omega
  have hFirst :=
    Pattern.matchAt_behind hAhead (word.take origin)
      (word.drop origin) budget
  rw [List.take_append_drop, hTaken, hChosen] at hFirst
  rcases exists_of_map_image hFirst.symm with
    ⟨found, hFound, rfl⟩
  refine ⟨found.shift before.length, ?_, ?_, ?_, rfl⟩
  · rw [Pattern.matchAt_behind hAhead, hFound]
    rfl
  · simp only [Match.shift]
    omega
  · simp only [Match.shift]
    omega

end RightState

/- A branch without conditions makes a site of its match. -/
theorem Rule.AppliesAhead.exists_site
    (hRule : rule.AppliesAhead branch)
    (hPredicates : rule.predicates ≠ [])
    {cursor : Cursor}
    {found : Match}
    {verdict : Verdict}
    (hAllowed :
      rule.allowedStarts options.maxMatchSteps word.toArray =
        .ok allowed)
    (hSelected :
      branch.SelectedAt options.maxMatchSteps word
        cursor.origin)
    (hMatch :
      Pattern.matchAt branch.target cursor.word cursor.pos
          (cursor.targetRequest options.maxMatchSteps) =
        .ok (some found))
    (hVerdict :
      rule.judge options allowed cursor = .ok verdict) :
    ∃ site,
      verdict.site? = some site ∧ site.found = found := by
  rcases List.exists_cons_of_ne_nil hPredicates with
    ⟨predicate, others, hFirst⟩
  have hFree : predicate.isUnconditional = true := by
    apply hRule.unconditional
    rw [hFirst]
    exact List.mem_cons_self
  have hBranch : rule.branches[0]? = some branch := by
    rw [hRule.branches_eq]
    rfl
  rcases exists_starts_of_allowedStartsOf hAllowed hBranch with
    ⟨starts, hEntry, hStarts⟩
  have hHere :
      Branch.site? rule cursor options.maxMatchSteps
          ((branch, starts), 0) =
        .ok (some (predicate.siteOf (0, found))) := by
    rw [Branch.site?,
      (Cursor.isAllowed_iff hStarts).mpr hSelected, hMatch]
    exact
      firstSome_site?_of_isUnconditional hFirst hFree cursor
        (0, found)
  have hFind :
      rule.findSite options.maxMatchSteps allowed cursor =
        .ok (some (predicate.siteOf (0, found))) := by
    cases allowed with
    | nil => cases hEntry
    | cons first rest =>
        obtain rfl := Option.some.inj hEntry
        rw [Rule.findSite, hRule.branches_eq, List.zip_cons_cons,
          List.zipIdx_cons, firstSome, hHere]
  exact
    ⟨_, (Rule.site?_of_judge hVerdict _).mpr hFind, rfl⟩

/-
  A selected match that starts inside no match of a scan to
  the right is met by one of its visits.
-/
theorem Rule.AppliesAhead.exists_meeting
    (hRule : rule.AppliesAhead branch)
    (hRight : rule.flags.rightToLeft = false)
    {visits : List Visit}
    (hVisits : rule.visits options word = .ok visits)
    {chosen : Match}
    (hSelects :
      branch.Selects options.maxMatchSteps word chosen)
    (hFree : ∀ visit ∈ visits, ¬visit.Covers chosen.start) :
    ∃ earlier visit later found,
      visits = earlier ++ visit :: later ∧
        rule.MeetsSelected options.maxMatchSteps branch earlier
          visit chosen found := by
  rcases hSelects.matched with ⟨hInside, hMatched⟩
  have hScan := hVisits
  unfold Rule.visits at hScan
  dsimp only at hScan
  split at hScan
  · cases hScan
  rename_i allowed hAllowed
  rw [if_neg (Bool.eq_false_iff.mp hRight)] at hScan
  rcases Rule.visitsRight_cover hScan
      (Nat.zero_le chosen.start) (by simpa using hInside) with
    ⟨visit, hVisit, hHere⟩
  have hOrigin := hHere.resolve_right (hFree visit hVisit)
  rcases List.append_of_mem hVisit with ⟨earlier, later, rfl⟩
  rcases Rule.visitsRight_judged hScan visit hVisit with
    ⟨hVerdict, hLimit⟩
  rcases (RightState.initial word).at_visit hRight hScan with
    ⟨rest, hState⟩
  rw [List.nil_append] at hState
  rw [← hOrigin] at hMatched
  rcases hState.matchAt_moved hRule.looksAhead hMatched with
    ⟨found, hFound, hStart, hStop, hBindings⟩
  have hShift :
      rule.shift (Visit.rewrites earlier) =
        Rewrite.totalGrowth (Visit.rewrites earlier) := by
    rw [Rule.shift, hRight]
    rfl
  have hTarget :
      Pattern.matchAt branch.target visit.cursor.word
          visit.cursor.pos
          (visit.cursor.targetRequest options.maxMatchSteps) =
        .ok (some found) := by
    rw [Cursor.targetRequest, hLimit,
      Pattern.matchAt_limit_size]
    exact hFound
  refine ⟨earlier, visit, later, found, rfl, ?_⟩
  exact
    { matched := hTarget
      start_eq := hShift ▸ hStart
      stop_eq := hShift ▸ hStop
      bindings_eq := hBindings
      taken := fun hPredicates =>
        hRule.exists_site hPredicates hAllowed
          (hOrigin ▸ hSelects.selectedAt) hTarget hVerdict }

------------------------------------------------------------
-- Scans
------------------------------------------------------------

/-
  Indices pick matches of the word that a scan began with.
  Each site of a branch with indices starts where a selected
  match has been moved to. From left to right, a rule of one
  branch whose target looks neither at the word edges nor
  back, without environments and exceptions, meets every
  selected match as it was, unless the match starts inside
  one that the scan has come to before.
-/
theorem Rule.sweep_selects
    (rule : Rule)
    (options : EngineOptions)
    (word : Word) :
    (rule.matchable = true →
      ∃ sweep, rule.sweep options word = .ok sweep) ∧
    ∀ sweep,
      rule.sweep options word = .ok sweep →
        ∃ visits,
          rule.visits options word = .ok visits ∧
          sweep = Sweep.ofVisits visits word ∧
          (∀ earlier visit later,
            visits = earlier ++ visit :: later →
              rule.StartsAsSelected options.maxMatchSteps word
                earlier visit) ∧
          (rule.flags.rightToLeft = false →
            ∀ branch,
              rule.AppliesAhead branch →
                ∀ chosen,
                  branch.Selects options.maxMatchSteps word
                    chosen →
                  (∀ visit ∈ visits,
                    ¬visit.Covers chosen.start) →
                    ∃ earlier visit later found,
                      visits = earlier ++ visit :: later ∧
                        rule.MeetsSelected
                          options.maxMatchSteps branch earlier
                          visit chosen found) := by
  refine ⟨fun hMatchable => Rule.exists_sweep hMatchable word,
    ?_⟩
  intro sweep hSweep
  rcases Rule.exists_visits hSweep with ⟨visits, hVisits, rfl⟩
  refine ⟨visits, hVisits, rfl, ?_, ?_⟩
  · rintro earlier visit later rfl
    exact Rule.startsAsSelected hVisits
  · intro hRight branch hRule chosen hSelects hFree
    exact hRule.exists_meeting hRight hVisits hSelects hFree

/- The first, the second and the last of some symbols. -/
def pickedBranch : Branch where
  target :=
    [ .category
        { category := some
            { name := ""
              members :=
                [[.symbol "a"], [.symbol "b"], [.symbol "c"]] }
          slot := some "~0" } ]
  indices := some [0, 1, -1]

/- Write two symbols for each of them, but not for the third. -/
def pickingRule : Rule where
  branches := [pickedBranch]
  predicates :=
    [ { replacements :=
          [ [ .literal "x",
              .category
                { category := some
                    { name := ""
                      members := [[.symbol "p"], [.symbol "q"]] }
                  slot := some "~0" } ] ] } ]

/- The match of the last symbol of `c a b a`. -/
def lastPicked : Match where
  start := 3
  stop := 4
  bindings := [("~0", 0)]

/-
  The site of `c` is skipped, and the last `a` is rewritten
  one position further on than it was selected at.
-/
theorem pickingRule_selects :
    pickingRule.matchable = true ∧
      pickingRule.AppliesAhead pickedBranch ∧
      pickedBranch.Selects defaultBudget ["c", "a", "b", "a"]
        lastPicked ∧
      ∃ sweep visits,
        pickingRule.sweep {} ["c", "a", "b", "a"] =
            .ok sweep ∧
          sweep.word = ["c", "x", "p", "b", "x", "p"] ∧
          sweep = Sweep.ofVisits visits ["c", "a", "b", "a"] ∧
          (∀ earlier visit later,
            visits = earlier ++ visit :: later →
              pickingRule.StartsAsSelected defaultBudget
                ["c", "a", "b", "a"] earlier visit) ∧
          (∀ visit ∈ visits, ¬visit.Covers lastPicked.start) ∧
          ∃ earlier visit later found,
            visits = earlier ++ visit :: later ∧
              pickingRule.MeetsSelected defaultBudget pickedBranch
                earlier visit lastPicked found := by
  have hRule : pickingRule.AppliesAhead pickedBranch :=
    { branches_eq := rfl
      unconditional := by decide
      looksAhead := by decide }
  have hSelects :
      pickedBranch.Selects defaultBudget ["c", "a", "b", "a"]
        lastPicked :=
    ⟨[0, 1, -1],
      [ ⟨0, 1, [("~0", 2)]⟩, ⟨1, 2, [("~0", 0)]⟩,
        ⟨2, 3, [("~0", 1)]⟩, ⟨3, 4, [("~0", 0)]⟩ ],
      rfl, by decide +kernel, by decide⟩
  have hMatchable : pickingRule.matchable = true := by
    decide +kernel
  have hSelected :=
    Rule.sweep_selects pickingRule {} ["c", "a", "b", "a"]
  rcases hSelected.1 hMatchable with ⟨sweep, hSweep⟩
  rcases hSelected.2 sweep hSweep with
    ⟨visits, hVisits, hOf, hStarts, hMeets⟩
  have hWord :
      ((pickingRule.sweep {} ["c", "a", "b", "a"]).map
          Sweep.word).toOption =
        some ["c", "x", "p", "b", "x", "p"] := by
    decide +kernel
  have hFree :
      ∀ visit ∈
          (pickingRule.visits {}
            ["c", "a", "b", "a"]).toOption.getD [],
        ¬visit.Covers lastPicked.start := by
    decide +kernel
  rw [hVisits] at hFree
  rw [hSweep] at hWord
  exact
    ⟨hMatchable, hRule, hSelects, sweep, visits, hSweep,
      Option.some.inj hWord, hOf, hStarts, hFree,
      hMeets rfl pickedBranch hRule lastPicked hSelects hFree⟩

end Diachrony
