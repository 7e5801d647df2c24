import Diachrony.Proofs.Scan.Judgement

/-
  Scans come to a result.

  The only elements that no matcher can be built for are
  those of a foreign kind. A rule without them is matched
  everywhere, if not always within its steps, and what it
  replaces passes every check, so each of its scans comes to
  a result.

  Key definitions include:
    * `Rule.matchable`
    * `NotForeign`

  Key theorems include:
    * `anyHolds_notForeign`
    * `Rule.exists_verdict`
    * `Rule.exists_sweep`
-/

namespace Diachrony

------------------------------------------------------------
-- Rules that can be matched
------------------------------------------------------------

/- Whether a matcher can be built for an environment. -/
def Environment.matchable : Environment → Bool
  | .around left right =>
      Pattern.matchable left && Pattern.matchable right
  | .anywhere pattern _ => Pattern.matchable pattern

/- Whether a matcher can be built for some groups. -/
def groupsMatchable
    (groups : List EnvironmentGroup) : Bool :=
  groups.all fun group => group.all Environment.matchable

/- Whether a matcher can be built for all that a rule tests. -/
def Rule.matchable
    (rule : Rule) : Bool :=
  (rule.branches.all fun branch =>
    Pattern.matchable branch.target) &&
  rule.predicates.all fun predicate =>
    groupsMatchable predicate.environments &&
      groupsMatchable predicate.exceptions

/- A match did not fail for want of a matcher. -/
def NotForeign
    {γ : Type}
    (result : Except MatchFault γ) : Prop :=
  result ≠ .error .foreignElement

------------------------------------------------------------
-- Matches
------------------------------------------------------------

section Matches

variable {α β : Type}
variable {attempt : α → Except MatchFault (Option β)}
variable {candidates : List α}

theorem NotForeign.ok
    {γ : Type}
    (result : γ) :
    NotForeign (.ok result) := by
  intro hError
  cases hError

/- What fails because a match failed is not foreign either. -/
theorem NotForeign.of_error
    {γ δ : Type}
    {first : Except MatchFault γ}
    {fault : MatchFault}
    (hFirst : NotForeign first)
    (hFault : first = .error fault) :
    NotForeign (.error fault : Except MatchFault δ) := by
  intro hError
  cases hError
  exact hFirst hFault

theorem firstSome_notForeign
    (hEach : ∀ candidate ∈ candidates,
      NotForeign (attempt candidate)) :
    NotForeign (firstSome attempt candidates) := by
  intro hError
  rcases exists_of_firstSome_error hError with
    ⟨candidate, hMem, hForeign⟩
  exact hEach candidate hMem hForeign

theorem collect_notForeign
    (hEach : ∀ candidate ∈ candidates,
      NotForeign (attempt candidate)) :
    NotForeign (collect attempt candidates) := by
  intro hError
  rcases exists_of_collect_error hError with
    ⟨candidate, hMem, hForeign⟩
  exact hEach candidate hMem hForeign

theorem Pattern.matchAt_notForeign
    {pattern : Pattern}
    (hMatchable : Pattern.matchable pattern = true)
    (word : WordArray)
    (start : Int)
    (request : MatchRequest) :
    NotForeign
      (Pattern.matchAt pattern word start request) := by
  unfold NotForeign Pattern.matchAt
  rw [hMatchable, Bool.not_true, if_neg Bool.false_ne_true]
  split
  · simp
  · dsimp only
    split <;> simp

theorem Pattern.findAll_notForeign
    {pattern : Pattern}
    (hMatchable : Pattern.matchable pattern = true)
    (word : WordArray)
    (budget : Int) :
    NotForeign (Pattern.findAll pattern word budget) :=
  collect_notForeign fun _ _ =>
    Pattern.matchAt_notForeign hMatchable _ _ _

end Matches

------------------------------------------------------------
-- Environments
------------------------------------------------------------

variable {site : Surroundings}
variable {bindings : Bindings}

theorem Surroundings.leftBindings_notForeign
    {left : Pattern}
    (hMatchable : Pattern.matchable left = true) :
    NotForeign (site.leftBindings left bindings) := by
  unfold leftBindings
  split
  · exact NotForeign.ok _
  split
  · rename_i fault hFault
    refine NotForeign.of_error ?_ hFault
    apply collect_notForeign
    exact fun _ _ =>
      Pattern.matchAt_notForeign hMatchable _ _ _
  · exact NotForeign.ok _

theorem Surroundings.rightBindings_notForeign
    {right : Pattern}
    (hMatchable : Pattern.matchable right = true) :
    NotForeign (site.rightBindings right bindings) := by
  unfold rightBindings
  split
  · exact NotForeign.ok _
  split
  · rename_i fault hFault
    refine NotForeign.of_error ?_ hFault
    exact Pattern.matchAt_notForeign hMatchable _ _ _
  · exact NotForeign.ok _

theorem Surroundings.aroundBindings_notForeign
    {left right : Pattern}
    (hLeft : Pattern.matchable left = true)
    (hRight : Pattern.matchable right = true) :
    NotForeign (site.aroundBindings left right bindings) := by
  unfold aroundBindings
  split
  · rename_i fault hFault
    refine NotForeign.of_error ?_ hFault
    exact Surroundings.leftBindings_notForeign hLeft
  · apply firstSome_notForeign
    exact fun _ _ =>
      Surroundings.rightBindings_notForeign hRight

theorem Surroundings.anywhereBindings_notForeign
    {pattern : Pattern}
    {indices : Option (List Int)}
    (hMatchable : Pattern.matchable pattern = true) :
    NotForeign
      (site.anywhereBindings pattern indices bindings) := by
  have hEach : ∀ longest (pos : Nat),
      NotForeign
        (Pattern.matchAt pattern site.word pos
          (site.anywhereRequest bindings longest)) :=
    fun _ _ => Pattern.matchAt_notForeign hMatchable _ _ _
  unfold anywhereBindings
  split
  · exact NotForeign.ok _
  cases indices with
  | none =>
      dsimp only
      split
      · rename_i fault hFault
        refine NotForeign.of_error ?_ hFault
        exact firstSome_notForeign fun _ _ => hEach false _
      · exact NotForeign.ok _
  | some indices =>
      dsimp only
      split
      · rename_i fault hFault
        refine NotForeign.of_error ?_ hFault
        exact collect_notForeign fun _ _ => hEach true _
      · exact NotForeign.ok _

theorem Environment.holds_notForeign
    {environment : Environment}
    (hMatchable : environment.matchable = true) :
    NotForeign (environment.holds site bindings) := by
  cases environment with
  | around left right =>
      simp only [Environment.matchable, Bool.and_eq_true]
        at hMatchable
      exact Surroundings.aroundBindings_notForeign
        hMatchable.1 hMatchable.2
  | anywhere pattern indices =>
      exact Surroundings.anywhereBindings_notForeign hMatchable

theorem EnvironmentGroup.holds_notForeign
    {group : EnvironmentGroup}
    (hMatchable : group.all Environment.matchable = true) :
    NotForeign (EnvironmentGroup.holds site bindings group) := by
  induction group generalizing bindings with
  | nil => exact NotForeign.ok _
  | cons environment rest ih =>
      simp only [List.all_cons, Bool.and_eq_true] at hMatchable
      unfold holds
      split
      · rename_i fault hFault
        refine NotForeign.of_error ?_ hFault
        exact Environment.holds_notForeign hMatchable.1
      · exact NotForeign.ok _
      · exact ih hMatchable.2

theorem anyHolds_notForeign
    {groups : List EnvironmentGroup}
    (hMatchable : groupsMatchable groups = true) :
    NotForeign (anyHolds site bindings groups) := by
  simp only [groupsMatchable, List.all_eq_true] at hMatchable
  apply firstSome_notForeign
  intro group hGroup
  apply EnvironmentGroup.holds_notForeign
  rw [List.all_eq_true]
  exact hMatchable group hGroup

------------------------------------------------------------
-- Verdicts
------------------------------------------------------------

variable {rule : Rule}
variable {options : EngineOptions}
variable {allowed : List (Option (List Nat))}
variable {cursor : Cursor}

theorem Rule.matchable_branch
    (hMatchable : rule.matchable = true)
    {branch : Branch}
    (hBranch : branch ∈ rule.branches) :
    Pattern.matchable branch.target = true := by
  simp only [Rule.matchable, Bool.and_eq_true,
    List.all_eq_true] at hMatchable
  exact hMatchable.1 branch hBranch

theorem Rule.matchable_predicate
    (hMatchable : rule.matchable = true)
    {predicate : Predicate}
    (hPredicate : predicate ∈ rule.predicates) :
    groupsMatchable predicate.environments = true ∧
      groupsMatchable predicate.exceptions = true := by
  simp only [Rule.matchable, Bool.and_eq_true,
    List.all_eq_true] at hMatchable
  exact hMatchable.2 predicate hPredicate

theorem Predicate.site?_notForeign
    {budget : Int}
    {branch : Nat}
    {found : Match}
    {entry : Predicate × Nat}
    (hMatchable :
      groupsMatchable entry.1.environments = true) :
    NotForeign
      (Predicate.site? cursor budget branch found entry) := by
  have hAdmits :
      NotForeign
        (entry.1.admits (cursor.surroundings budget found)
          found.bindings) := by
    unfold admits
    split
    · exact NotForeign.ok _
    · exact anyHolds_notForeign hMatchable
  unfold site?
  split
  · rename_i fault hFault
    exact hAdmits.of_error hFault
  · exact NotForeign.ok _
  · exact NotForeign.ok _

theorem Branch.site?_notForeign
    (hMatchable : rule.matchable = true)
    {budget : Int}
    {entry : (Branch × Option (List Nat)) × Nat}
    (hBranch : entry.1.1 ∈ rule.branches) :
    NotForeign (Branch.site? rule cursor budget entry) := by
  unfold site?
  split
  · exact NotForeign.ok _
  split
  · rename_i fault hFault
    refine NotForeign.of_error ?_ hFault
    exact Pattern.matchAt_notForeign
      (Rule.matchable_branch hMatchable hBranch) _ _ _
  · exact NotForeign.ok _
  · apply firstSome_notForeign
    intro other hOther
    apply Predicate.site?_notForeign
    exact
      (Rule.matchable_predicate hMatchable
        (List.fst_mem_of_mem_zipIdx hOther)).1

theorem Rule.findSite_notForeign
    (hMatchable : rule.matchable = true)
    {budget : Int} :
    NotForeign (rule.findSite budget allowed cursor) := by
  apply firstSome_notForeign
  intro entry hEntry
  apply Branch.site?_notForeign hMatchable
  exact (List.of_mem_zip
    (List.fst_mem_of_mem_zipIdx hEntry)).1

theorem Site.isVetoed_notForeign
    {site : Site}
    {budget : Int}
    (hMatchable :
      groupsMatchable site.predicate.exceptions = true) :
    NotForeign (site.isVetoed cursor budget) := by
  unfold isVetoed
  split
  · rename_i fault hFault
    exact (anyHolds_notForeign hMatchable).of_error hFault
  · exact NotForeign.ok _

/- All that is to be written are symbols. -/
theorem firstForeign_text
    (symbols : List Symbol) :
    firstForeign (symbols.map Value.text) = none := by
  induction symbols with
  | nil => rfl
  | cons symbol rest ih => exact ih

/- A site inside the word passes every check. -/
theorem Site.checkSite_passes
    {site : Site}
    {word : WordArray}
    {pos limit : Nat}
    (hWithin : site.found.Within pos limit)
    (hLimit : limit ≤ word.size)
    (strict : Bool)
    (symbols : List Symbol) :
    checkSite strict word.toList site.found.start
        site.found.stop (symbols.map Value.text) =
      .ok () := by
  have hStart := hWithin.start_eq
  have hForward := hWithin.start_le
  have hStop := hWithin.stop_le
  have hSpan :
      0 ≤ (site.found.start : Int) ∧
        (site.found.start : Int) ≤ site.found.stop ∧
        (site.found.stop : Int) ≤ word.toList.length := by
    rw [Array.length_toList]
    omega
  simp only [checkSite, firstForeign_text, hSpan]
  simp

theorem Site.exists_replacing
    {site : Site}
    {word : WordArray}
    {pos limit : Nat}
    (hWithin : site.found.Within pos limit)
    (hLimit : limit ≤ word.size) :
    ∃ verdict,
      site.replacing options rule word = .ok verdict := by
  unfold replacing
  cases site.build rule word with
  | error problem => exact ⟨_, rfl⟩
  | ok symbols =>
      simp only [site.checkSite_passes hWithin hLimit]
      split <;> exact ⟨_, rfl⟩

/- A rule that can be matched is judged everywhere. -/
theorem Rule.exists_verdict
    (hMatchable : rule.matchable = true)
    (cursor : Cursor) :
    ∃ verdict,
      rule.judge options allowed cursor = .ok verdict := by
  unfold judge
  split
  · rename_i hForeign
    exact absurd hForeign (Rule.findSite_notForeign hMatchable)
  · exact ⟨_, rfl⟩
  · exact ⟨_, rfl⟩
  · rename_i site hFind
    split
    · rename_i hForeign
      rcases Rule.finds_of_findSite hFind with ⟨_, _, hFinds⟩
      refine absurd hForeign (Site.isVetoed_notForeign ?_)
      exact
        (Rule.matchable_predicate hMatchable
          (List.mem_of_getElem? hFinds.predicate_eq)).2
    · exact ⟨_, rfl⟩
    · exact ⟨_, rfl⟩
    · exact Site.exists_replacing (Rule.findSite_within hFind)
        (Nat.min_le_right _ _)

------------------------------------------------------------
-- Scans
------------------------------------------------------------

theorem exists_allowedStartsOf
    {budget : Int}
    {word : WordArray}
    {branches : List Branch}
    (hMatchable : ∀ branch ∈ branches,
      Pattern.matchable branch.target = true) :
    ∃ allowed,
      allowedStartsOf budget word branches = .ok allowed := by
  induction branches with
  | nil => exact ⟨[], rfl⟩
  | cons branch rest ih =>
      rcases ih fun later hLater =>
          hMatchable later (List.mem_cons_of_mem _ hLater) with
        ⟨others, hOthers⟩
      have hStarts : ∃ starts,
          branch.allowedStarts budget word = .ok starts := by
        unfold Branch.allowedStarts
        split
        · exact ⟨_, rfl⟩
        split
        · exact ⟨_, rfl⟩
        · exact ⟨_, rfl⟩
        · rename_i hForeign
          refine absurd hForeign ?_
          apply Pattern.findAll_notForeign
          exact hMatchable branch List.mem_cons_self
      rcases hStarts with ⟨starts, hStarts⟩
      rw [allowedStartsOf, hStarts]
      dsimp only
      rw [hOthers]
      exact ⟨_, rfl⟩

theorem Rule.exists_sweepRight
    (hMatchable : rule.matchable = true)
    (word : WordArray)
    (pos origin left : Nat) :
    ∃ sweep,
      rule.sweepRight options allowed word pos origin left =
        .ok sweep := by
  induction left using Nat.strongRecOn
    generalizing word pos origin with
  | _ left ih =>
  rcases Rule.exists_verdict hMatchable
      { word := word
        pos := pos
        limit := word.size
        origin := origin } with
    ⟨verdict, hVerdict⟩
  rw [Rule.sweepRight, Rule.judgeRight, hVerdict]
  cases left with
  | zero => exact ⟨_, rfl⟩
  | succ left =>
      rcases ih (left - (verdict.consumed - 1)) (by omega)
          (verdict.applyTo word) (pos + verdict.advance)
          (origin + verdict.consumed) with
        ⟨later, hLater⟩
      dsimp only
      rw [hLater]
      exact ⟨_, rfl⟩

theorem Rule.exists_sweepLeft
    (hMatchable : rule.matchable = true)
    (word : WordArray)
    (limit pos : Nat) :
    ∃ sweep,
      rule.sweepLeft options allowed word limit pos =
        .ok sweep := by
  induction pos generalizing word limit with
  | zero =>
      rcases Rule.exists_verdict hMatchable
          { word := word, pos := 0, limit := limit, origin := 0 }
        with ⟨verdict, hVerdict⟩
      rw [Rule.sweepLeft, Rule.judgeLeft, hVerdict]
      exact ⟨_, rfl⟩
  | succ pos ih =>
      rcases Rule.exists_verdict hMatchable
          { word := word
            pos := pos + 1
            limit := limit
            origin := pos + 1 } with
        ⟨verdict, hVerdict⟩
      rcases ih (verdict.applyTo word)
          (verdict.nextLimit limit) with
        ⟨later, hLater⟩
      rw [Rule.sweepLeft, Rule.judgeLeft, hVerdict]
      dsimp only
      rw [hLater]
      exact ⟨_, rfl⟩

/- Each scan of a rule that can be matched has a result. -/
theorem Rule.exists_sweep
    (hMatchable : rule.matchable = true)
    (word : Word) :
    ∃ sweep, rule.sweep options word = .ok sweep := by
  have hBranches : ∀ branch ∈ rule.branches,
      Pattern.matchable branch.target = true :=
    fun _ hBranch => Rule.matchable_branch hMatchable hBranch
  rcases exists_allowedStartsOf
      hBranches with
    ⟨allowed, hAllowed⟩
  rw [Rule.sweep, Rule.allowedStarts, hAllowed]
  dsimp only
  split
  · exact Rule.exists_sweepLeft hMatchable _ _ _
  · exact Rule.exists_sweepRight hMatchable _ _ _ _

end Diachrony
