import Diachrony.Proofs.Matching.Locality
import Diachrony.Proofs.Scan.Budget
import Diachrony.Proofs.Scan.Totality

/-
  Rules without conditions.

  A rule without indices, environments and exceptions applies
  wherever one of its branches matches. If its targets look
  at nothing around them either, and its replacements copy
  nothing, then what becomes of a position is decided by the
  symbols from there up to the limit alone.

  Key definitions include:
    * `Rule.isUnconditional`
    * `Rule.isContextFree`
    * `Rule.firstMatch`
    * `Rule.rewriting`
    * `Verdict.Writes`

  Key theorems include:
    * `Rule.allowedStarts_of_isUnconditional`
    * `Rule.findSite_between`
    * `Site.build_shift`
    * `Rule.judge_of_no_exceptions`
    * `Rule.judge_between`
-/

namespace Diachrony

variable {rule : Rule}
variable {predicate : Predicate}
variable {others : List Predicate}
variable {options : EngineOptions}
variable {budget : Int}

------------------------------------------------------------
-- Kinds of rules
------------------------------------------------------------

/- Whether a predicate always holds. -/
def Predicate.isUnconditional
    (predicate : Predicate) : Bool :=
  predicate.environments.isEmpty &&
    predicate.exceptions.isEmpty

/- Whether a rule has no indices, environments or exceptions. -/
def Rule.isUnconditional
    (rule : Rule) : Bool :=
  (rule.branches.all fun branch => branch.indices.isNone) &&
    rule.predicates.all Predicate.isUnconditional

/- Whether an element copies the symbol before it. -/
def Element.isDitto : Element → Bool
  | .ditto => true
  | _ => false

/- Whether no element of a replacement copies a symbol. -/
def Pattern.copiesNothing
    (pattern : Pattern) : Bool :=
  pattern.all fun element => !element.isDitto

/-
  Whether a rule applies without regard to the symbols that
  stand around a match.
-/
def Rule.isContextFree
    (rule : Rule) : Bool :=
  rule.isUnconditional &&
    (rule.branches.all fun branch =>
      Pattern.isLocal branch.target) &&
    rule.predicates.all fun predicate =>
      predicate.replacements.all Pattern.copiesNothing

section Kinds

theorem Predicate.conditions_of_isUnconditional
    (hPredicate : predicate.isUnconditional = true) :
    predicate.environments = [] ∧
      predicate.exceptions = [] := by
  simpa [Predicate.isUnconditional] using hPredicate

theorem Rule.isUnconditional_of_isContextFree
    (hFree : rule.isContextFree = true) :
    rule.isUnconditional = true := by
  simp only [Rule.isContextFree, Bool.and_eq_true] at hFree
  exact hFree.1.1

theorem Rule.isLocal_of_isContextFree
    (hFree : rule.isContextFree = true)
    {branch : Branch}
    (hBranch : branch ∈ rule.branches) :
    Pattern.isLocal branch.target = true := by
  simp only [Rule.isContextFree, Bool.and_eq_true,
    List.all_eq_true] at hFree
  exact hFree.1.2 branch hBranch

theorem Rule.isUnconditional_predicate
    (hFree : rule.isUnconditional = true)
    (hMem : predicate ∈ rule.predicates) :
    predicate.isUnconditional = true := by
  simp only [Rule.isUnconditional, Bool.and_eq_true,
    List.all_eq_true] at hFree
  exact hFree.2 predicate hMem

/-
  A rule whose predicates always hold can be matched if its
  targets can.
-/
theorem Rule.matchable_of_targets
    (hConditions :
      ∀ predicate ∈ rule.predicates,
        predicate.isUnconditional = true)
    (hTargets :
      ∀ branch ∈ rule.branches,
        Pattern.matchable branch.target = true) :
    rule.matchable = true := by
  rw [Rule.matchable, Bool.and_eq_true]
  refine ⟨List.all_eq_true.mpr hTargets, ?_⟩
  apply List.all_eq_true.mpr
  intro predicate hPredicate
  rcases Predicate.conditions_of_isUnconditional
      (hConditions predicate hPredicate) with
    ⟨hEnvironments, hExceptions⟩
  rw [hEnvironments, hExceptions]
  rfl

/- What belongs to a branch copies nothing either. -/
theorem Predicate.copiesNothing_replacementFor
    (hCopies :
      predicate.replacements.all Pattern.copiesNothing = true)
    (branch : Nat) :
    Pattern.copiesNothing (predicate.replacementFor branch) =
      true := by
  unfold Predicate.replacementFor
  dsimp only
  cases hTurn :
      predicate.replacements[
        branch % predicate.replacements.length]? with
  | none => rfl
  | some pattern =>
      exact List.all_eq_true.mp hCopies pattern
        (List.mem_of_getElem? hTurn)

theorem Rule.copiesNothing_of_isContextFree
    (hFree : rule.isContextFree = true)
    (hMem : predicate ∈ rule.predicates)
    (branch : Nat) :
    Pattern.copiesNothing (predicate.replacementFor branch) =
      true := by
  rw [Rule.isContextFree, Bool.and_eq_true] at hFree
  exact Predicate.copiesNothing_replacementFor
    (List.all_eq_true.mp hFree.2 predicate hMem) branch

end Kinds

------------------------------------------------------------
-- Matches of branches
------------------------------------------------------------

/- The match of a numbered branch at the front of a word. -/
def Branch.matchAhead
    (budget : Int)
    (word : Word)
    (entry : Branch × Nat) :
    Except MatchFault (Option (Nat × Match)) :=
  (Pattern.matchAt entry.1.target word.toArray 0
    { budget := budget }).map
      (Option.map fun found => (entry.2, found))

/-
  The first branch that matches at the front of a word, with
  its match there.
-/
def Rule.firstMatch
    (rule : Rule)
    (budget : Int)
    (word : Word) :
    Except MatchFault (Option (Nat × Match)) :=
  firstSome (Branch.matchAhead budget word)
    rule.branches.zipIdx

/- A match that is found begins at the front of the word. -/
theorem Rule.firstMatch_within
    {word : Word}
    {choice : Nat × Match}
    (hChoice :
      rule.firstMatch budget word = .ok (some choice)) :
    choice.2.Within 0 word.length := by
  rcases exists_of_firstSome hChoice with
    ⟨entry, _, hMatch⟩
  rcases exists_of_map_image hMatch with ⟨found, hFound, rfl⟩
  exact Pattern.matchAt_within hFound

------------------------------------------------------------
-- Sites between other symbols
------------------------------------------------------------

/- The site that the first predicate makes of a match. -/
def Predicate.siteOf
    (predicate : Predicate)
    (choice : Nat × Match) : Site where
  branch := choice.1
  found := choice.2
  predicateIndex := 0
  predicate := predicate
  bindings := choice.2.bindings

/- The position between some symbols and a part behind them. -/
def Cursor.between
    (before word after : Word)
    (origin : Nat) : Cursor where
  word := (before ++ word ++ after).toArray
  pos := before.length
  limit := before.length + word.length
  origin := origin

/- A position of a scan to the right has nothing behind it. -/
theorem Rule.judgeRight_eq
    (allowed : List (Option (List Nat)))
    (before word : Word)
    (origin : Nat) :
    rule.judgeRight options allowed (before ++ word).toArray
        before.length origin =
      rule.judge options allowed
        (Cursor.between before word [] origin) := by
  simp [Rule.judgeRight, Cursor.between]

/- Without indices a branch may start anywhere. -/
theorem allowedStartsOf_none
    {branches : List Branch}
    (hIndices : ∀ branch ∈ branches, branch.indices = none)
    (word : WordArray) :
    allowedStartsOf budget word branches =
      .ok (branches.map fun _ => none) := by
  induction branches with
  | nil => rfl
  | cons branch rest ih =>
      rcases List.forall_mem_cons.mp hIndices with
        ⟨hHere, hRest⟩
      rw [allowedStartsOf, ih hRest, Branch.allowedStarts,
        hHere]
      rfl

theorem Rule.allowedStarts_of_isUnconditional
    (hFree : rule.isUnconditional = true)
    (word : WordArray) :
    rule.allowedStarts budget word =
      .ok (rule.branches.map fun _ => none) := by
  simp only [Rule.isUnconditional, Bool.and_eq_true,
    List.all_eq_true, Option.isNone_iff_eq_none] at hFree
  exact allowedStartsOf_none hFree.1 word

theorem Rule.zipIdx_zip_none
    (branches : List Branch)
    (first : Nat) :
    (branches.zip
        (branches.map fun _ =>
          (none : Option (List Nat)))).zipIdx first =
      (branches.zipIdx first).map fun entry =>
        ((entry.1, none), entry.2) := by
  induction branches generalizing first with
  | nil => rfl
  | cons branch rest ih =>
      simp only [List.map_cons, List.zip_cons_cons,
        List.zipIdx_cons, ih]

/- The sites of a match that the predicates of a rule make. -/
theorem firstSome_site?_of_isUnconditional
    (hPredicates : rule.predicates = predicate :: others)
    (hPredicate : predicate.isUnconditional = true)
    (cursor : Cursor)
    (choice : Nat × Match) :
    firstSome
        (Predicate.site? cursor budget choice.1 choice.2)
        rule.predicates.zipIdx =
      .ok (some (predicate.siteOf choice)) := by
  have hEnvironments :=
    (Predicate.conditions_of_isUnconditional hPredicate).1
  simp [hPredicates, firstSome, Predicate.site?,
    Predicate.admits, hEnvironments, Predicate.siteOf]

section Between

variable (before word after : Word)
variable (origin : Nat)

/-
  A branch that may start between other symbols matches
  there as by itself, and the predicates make the site.
-/
theorem Branch.site?_between
    (entry : Branch × Nat)
    {starts : Option (List Nat)}
    (hAllowed :
      (Cursor.between before word after origin).isAllowed
        starts = true)
    (hLocal : Pattern.isLocal entry.1.target = true) :
    Branch.site? rule (Cursor.between before word after origin)
        budget ((entry.1, starts), entry.2) =
      match Branch.matchAhead budget word entry with
      | .error fault => .error fault
      | .ok none => .ok none
      | .ok (some choice) =>
          firstSome
            (Predicate.site?
              (Cursor.between before word after origin) budget
              choice.1 (choice.2.shift before.length))
            rule.predicates.zipIdx := by
  have hBetween :
      Pattern.matchAt entry.1.target
          (Cursor.between before word after origin).word
          (Cursor.between before word after origin).pos
          ((Cursor.between before word after
            origin).targetRequest budget) =
        (Pattern.matchAt entry.1.target word.toArray 0
          { budget := budget }).map
            (Option.map (Match.shift before.length)) :=
    Pattern.matchAt_between before word after budget
      (Pattern.looksAhead_of_isLocal _ hLocal)
  rw [Branch.site?, hAllowed, Bool.not_true,
    if_neg Bool.false_ne_true, hBetween, Branch.matchAhead]
  cases Pattern.matchAt entry.1.target word.toArray 0
      { budget := budget } with
  | error fault => rfl
  | ok result => cases result <;> rfl

theorem Rule.findSite_eq_firstSome
    (cursor : Cursor) :
    rule.findSite budget (rule.branches.map fun _ => none)
        cursor =
      firstSome
        (fun entry : Branch × Nat =>
          Branch.site? rule cursor budget
            ((entry.1, none), entry.2))
        rule.branches.zipIdx := by
  rw [Rule.findSite, Rule.zipIdx_zip_none, firstSome_map]
  rfl

/- The site of a position is the first match there. -/
theorem Rule.findSite_between
    (hFree : rule.isContextFree = true)
    (hPredicates : rule.predicates = predicate :: others) :
    rule.findSite budget (rule.branches.map fun _ => none)
        (Cursor.between before word after origin) =
      (rule.firstMatch budget word).map
        (Option.map fun choice =>
          predicate.siteOf
            (choice.1, choice.2.shift before.length)) := by
  have hPredicate : predicate.isUnconditional = true := by
    apply Rule.isUnconditional_predicate
      (Rule.isUnconditional_of_isContextFree hFree)
    rw [hPredicates]
    exact List.mem_cons_self
  rw [Rule.findSite_eq_firstSome, Rule.firstMatch]
  apply firstSome_image
  intro entry hEntry
  have hLocal :=
    Rule.isLocal_of_isContextFree hFree
      (List.fst_mem_of_mem_zipIdx hEntry)
  rw [Branch.site?_between before word after origin entry rfl
    hLocal]
  cases Branch.matchAhead budget word entry with
  | error fault => rfl
  | ok result =>
      cases result with
      | none => rfl
      | some choice =>
          exact firstSome_site?_of_isUnconditional hPredicates
            hPredicate _ (choice.1, choice.2.shift _)

/-
  A rule without predicates makes no site, and it is searched
  for at all branches.
-/
theorem Rule.firstMatch_of_findSite
    (hFree : rule.isContextFree = true)
    (hPredicates : rule.predicates = [])
    {result : Option Site}
    (hFind :
      rule.findSite budget (rule.branches.map fun _ => none)
        (Cursor.between before word after origin) =
          .ok result) :
    result = none ∧
      ∃ choice, rule.firstMatch budget word = .ok choice := by
  have hSite : ∀ entry ∈ rule.branches.zipIdx,
      Branch.site? rule
          (Cursor.between before word after origin) budget
          ((entry.1, none), entry.2) =
        (Branch.matchAhead budget word entry).map
          fun _ => none := by
    intro entry hEntry
    have hLocal :=
      Rule.isLocal_of_isContextFree hFree
        (List.fst_mem_of_mem_zipIdx hEntry)
    rw [Branch.site?_between before word after origin entry rfl
      hLocal, hPredicates]
    cases Branch.matchAhead budget word entry with
    | error fault => rfl
    | ok result => cases result <;> rfl
  rw [Rule.findSite_eq_firstSome] at hFind
  obtain rfl : result = none := by
    cases result with
    | none => rfl
    | some site =>
        rcases exists_of_firstSome hFind with
          ⟨entry, hEntry, hFound⟩
        rw [hSite entry hEntry] at hFound
        cases hMatch :
            Branch.matchAhead budget word entry with
        | error fault => rw [hMatch] at hFound; cases hFound
        | ok result => rw [hMatch] at hFound; cases hFound
  refine ⟨rfl, ?_⟩
  cases hFirst : rule.firstMatch budget word with
  | ok choice => exact ⟨choice, rfl⟩
  | error fault =>
      rcases exists_of_firstSome_error hFirst with
        ⟨entry, hEntry, hFailed⟩
      have hNone :=
        firstSome_eq_none_iff.mp hFind entry hEntry
      rw [hSite entry hEntry, hFailed] at hNone
      cases hNone

end Between

------------------------------------------------------------
-- What is written
------------------------------------------------------------

/-
  Sites with the same bindings and the same matched symbols
  write the same, unless a symbol is copied.
-/
theorem Site.buildFrom_congr
    {one other : Site}
    {word text : WordArray}
    (hIndex : one.predicateIndex = other.predicateIndex)
    (hBranch : one.branch = other.branch)
    (hBindings : one.bindings = other.bindings)
    (hSpan : one.span word = other.span text)
    {pattern : Pattern}
    (hCopies : Pattern.copiesNothing pattern = true)
    (written : List Symbol) :
    one.buildFrom rule word written pattern =
      other.buildFrom rule text written pattern := by
  induction pattern generalizing written with
  | nil => rfl
  | cons element rest ih =>
      simp only [Pattern.copiesNothing, List.all_cons,
        Bool.and_eq_true] at hCopies
      have hEmit :
          one.emit rule word written element =
            other.emit rule text written element := by
        cases element with
        | category ref =>
            have hBound :
                one.boundPosition? ref =
                  other.boundPosition? ref := by
              rw [boundPosition?, boundPosition?, hBindings]
            exact correlate_congr hIndex hBranch hBound
        | target reversed => simp only [emit, hSpan]
        | ditto => cases hCopies.1
        | _ => rfl
      rw [buildFrom, buildFrom, hEmit]
      split
      · rfl
      · exact ih hCopies.2 _

/-
  A replacement that copies nothing writes what each of its
  elements writes by itself.
-/
theorem Site.buildFrom_eq_ok_iff
    {site : Site}
    {word : WordArray}
    {pattern : Pattern}
    (hCopies : Pattern.copiesNothing pattern = true)
    (written symbols : List Symbol) :
    site.buildFrom rule word written pattern = .ok symbols ↔
      ∃ parts,
        List.Forall₂
            (fun element part =>
              site.emit rule word [] element = .ok part)
            pattern parts ∧
          symbols = written ++ parts.flatten := by
  induction pattern generalizing written with
  | nil =>
      constructor
      · rintro ⟨⟩
        exact ⟨[], List.Forall₂.nil, by simp⟩
      · rintro ⟨parts, hParts, rfl⟩
        cases hParts
        simp [buildFrom]
  | cons element rest ih =>
      simp only [Pattern.copiesNothing, List.all_cons,
        Bool.and_eq_true] at hCopies
      have hEmit :
          site.emit rule word written element =
            site.emit rule word [] element := by
        cases element <;> first | rfl | cases hCopies.1
      rw [buildFrom, hEmit]
      cases hPart : site.emit rule word [] element with
      | error problem =>
          constructor
          · rintro ⟨⟩
          · rintro ⟨parts, hParts, _⟩
            cases hParts with
            | cons hFirst _ =>
                rw [hPart] at hFirst
                cases hFirst
      | ok part =>
          refine (ih hCopies.2 (written ++ part)).trans ?_
          constructor
          · rintro ⟨parts, hParts, rfl⟩
            refine ⟨part :: parts,
              List.Forall₂.cons hPart hParts, ?_⟩
            rw [List.flatten_cons, List.append_assoc]
          · rintro ⟨parts, hParts, rfl⟩
            cases hParts with
            | cons hFirst hRest =>
                rw [hPart] at hFirst
                cases hFirst
                refine ⟨_, hRest, ?_⟩
                rw [List.flatten_cons, List.append_assoc]

/- A match further on, between other symbols, shows the same. -/
theorem Site.span_shift
    {before word after : Word}
    {choice : Nat × Match}
    (hWithin : choice.2.Within 0 word.length) :
    (predicate.siteOf
        (choice.1, choice.2.shift before.length)).span
          (before ++ word ++ after).toArray =
      (predicate.siteOf choice).span word.toArray := by
  have hStart := hWithin.start_eq
  have hStop := hWithin.stop_le
  simp only [span, Predicate.siteOf, Match.shift, hStart,
    WordArray.span_eq, Word.span, Nat.zero_add,
    List.append_assoc, List.drop_left,
    Nat.add_sub_cancel_right, Nat.sub_zero, List.drop_zero]
  exact List.take_append_of_le_length hStop

/- It is replaced by the same symbols. -/
theorem Site.build_shift
    (hFree : rule.isContextFree = true)
    (hMem : predicate ∈ rule.predicates)
    {before word after : Word}
    {choice : Nat × Match}
    (hWithin : choice.2.Within 0 word.length) :
    (predicate.siteOf
        (choice.1, choice.2.shift before.length)).build rule
          (before ++ word ++ after).toArray =
      (predicate.siteOf choice).build rule word.toArray := by
  have hCopies :=
    Rule.copiesNothing_of_isContextFree hFree hMem choice.1
  unfold build
  refine
    Site.buildFrom_congr ?_ ?_ ?_ (Site.span_shift hWithin)
      hCopies []
  all_goals rfl

/-
  What a rule makes of the symbols of a match at the front
  of a word. They stay if the replacement cannot be built.
-/
def Rule.rewriting
    (rule : Rule)
    (word : Word)
    (choice : Nat × Match) : Word :=
  match rule.predicates with
  | [] => word.take choice.2.length
  | predicate :: _ =>
      match
        (predicate.siteOf choice).build rule word.toArray
      with
      | .error _ => word.take choice.2.length
      | .ok symbols => symbols

/-
  What a verdict does to the front of a part between other
  symbols, of which it takes some and writes others.
-/
structure Verdict.Writes
    (verdict : Verdict)
    (before word after : Word)
    (taken : Nat)
    (written : Word) : Prop where
  consumed_eq : verdict.consumed = max taken 1
  advance_eq :
    verdict.advance =
      written.length + if taken = 0 then 1 else 0
  result_eq :
    verdict.applyTo (before ++ word ++ after).toArray =
      (before ++ written ++ word.drop taken ++ after).toArray
  nextLimit_eq :
    ∀ limit, verdict.nextLimit limit = before.length

section Verdicts

variable {before word after : Word}
variable {choice : Nat × Match}

theorem Verdict.writes_skipped
    (hWithin : choice.2.Within 0 word.length)
    (problem : Problem) :
    Verdict.Writes
      (.skipped
        (predicate.siteOf
          (choice.1, choice.2.shift before.length)) problem)
      before word after choice.2.length
      (word.take choice.2.length) where
  consumed_eq := by
    simp only [consumed, site?, Predicate.siteOf,
      Match.length_shift]
  advance_eq := by
    have hStop := hWithin.stop_le
    have hTaken : choice.2.length ≤ word.length := by
      rw [Match.length]
      omega
    simp only [advance, consumed, site?, Predicate.siteOf,
      Match.length_shift, List.length_take,
      Nat.min_eq_left hTaken]
    split <;> omega
  result_eq := by
    simp only [applyTo]
    rw [List.append_assoc before (word.take _),
      List.take_append_drop]
  nextLimit_eq := by
    intro limit
    simp [nextLimit, site?, Predicate.siteOf, Match.shift,
      hWithin.start_eq]

theorem Verdict.writes_replaced
    (hWithin : choice.2.Within 0 word.length)
    (symbols : List Symbol) :
    Verdict.Writes
      (.replaced
        (predicate.siteOf
          (choice.1, choice.2.shift before.length)) symbols)
      before word after choice.2.length symbols where
  consumed_eq := by
    simp only [consumed, site?, Predicate.siteOf,
      Match.length_shift]
  advance_eq := by
    simp only [advance, Predicate.siteOf, Match.length_shift]
  result_eq := by
    have hStart := hWithin.start_eq
    have hStop := hWithin.stop_le
    have hTaken :
        choice.2.stop + before.length =
          before.length +
            (word.take choice.2.length).length := by
      rw [List.length_take, Match.length]
      omega
    have hWord :
        before ++ word ++ after =
          before ++ word.take choice.2.length ++
            (word.drop choice.2.length ++ after) := by
      simp only [List.append_assoc]
      rw [← List.append_assoc (word.take _),
        List.take_append_drop]
    simp only [applyTo, Predicate.siteOf, Match.shift, hStart,
      Nat.zero_add, WordArray.splice]
    rw [hTaken, hWord, Word.splice_append]
    simp only [List.append_assoc]
  nextLimit_eq := by
    intro limit
    simp [nextLimit, site?, Predicate.siteOf, Match.shift,
      hWithin.start_eq]

/- A site without exceptions is replaced or skipped. -/
theorem Site.writes_of_replacing
    (hFree : rule.isContextFree = true)
    (hPredicates : rule.predicates = predicate :: others)
    (hWithin : choice.2.Within 0 word.length)
    {verdict : Verdict}
    (hReplacing :
      (predicate.siteOf
        (choice.1, choice.2.shift before.length)).replacing
          options rule (before ++ word ++ after).toArray =
            .ok verdict) :
    verdict.Writes before word after choice.2.length
      (rule.rewriting word choice) := by
  have hMem : predicate ∈ rule.predicates := by
    rw [hPredicates]
    exact List.mem_cons_self
  have hBuild :
      (predicate.siteOf
        (choice.1, choice.2.shift before.length)).build
          rule (before ++ word ++ after).toArray =
        (predicate.siteOf choice).build rule word.toArray :=
    Site.build_shift hFree hMem hWithin
  have hRewriting :
      rule.rewriting word choice =
        match
          (predicate.siteOf choice).build rule word.toArray
        with
        | .error _ => word.take choice.2.length
        | .ok symbols => symbols := by
    rw [Rule.rewriting, hPredicates]
  rcases Site.replacing_cases hReplacing with
    ⟨problem, hProblem, rfl⟩ | ⟨symbols, hSymbols, rfl⟩
  · rw [hBuild] at hProblem
    rw [hRewriting, hProblem]
    exact Verdict.writes_skipped hWithin problem
  · rw [hBuild] at hSymbols
    rw [hRewriting, hSymbols]
    exact Verdict.writes_replaced hWithin symbols

end Verdicts

/-
  If no predicate has exceptions, a site is replaced or
  skipped, unless a match is abandoned.
-/
theorem Rule.judge_of_no_exceptions
    (hExceptions :
      ∀ predicate ∈ rule.predicates, predicate.exceptions = [])
    {allowed : List (Option (List Nat))}
    {cursor : Cursor}
    {verdict : Verdict}
    (hVerdict :
      rule.judge options allowed cursor = .ok verdict)
    (hDecided : ∀ problem,
      verdict.problem? = some problem → problem.Decided) :
    (rule.findSite options.maxMatchSteps allowed cursor =
        .ok none ∧
      verdict = .miss) ∨
    ∃ site,
      rule.findSite options.maxMatchSteps allowed cursor =
          .ok (some site) ∧
        site.replacing options rule cursor.word =
          .ok verdict := by
  rcases Rule.judge_cases hVerdict with
    ⟨steps, _, rfl⟩ | hMiss | ⟨site, hSite, hEnd⟩
  · exact absurd rfl (hDecided _ rfl)
  · exact Or.inl hMiss
  · refine Or.inr ⟨site, hSite, ?_⟩
    rcases Rule.finds_of_findSite hSite with
      ⟨_, _, hFinds⟩
    have hVeto :
        site.isVetoed cursor options.maxMatchSteps =
          .ok false := by
      simp [Site.isVetoed, anyHolds, firstSome,
        hExceptions _
          (List.mem_of_getElem? hFinds.predicate_eq)]
    rw [hVeto] at hEnd
    rcases hEnd with
      ⟨_, hOther, _⟩ | ⟨hOther, _⟩ | ⟨_, hReplacing⟩
    · cases hOther
    · cases hOther
    · exact hReplacing

/-
  The verdict on a position writes what the rule makes of
  the first match there, if there is one.
-/
theorem Rule.judge_between
    (hFree : rule.isContextFree = true)
    (hPredicates : rule.predicates = predicate :: others)
    {before word after : Word}
    {origin : Nat}
    {verdict : Verdict}
    (hVerdict :
      rule.judge options (rule.branches.map fun _ => none)
        (Cursor.between before word after origin) =
          .ok verdict)
    (hDecided : ∀ problem,
      verdict.problem? = some problem → problem.Decided) :
    (rule.firstMatch options.maxMatchSteps word = .ok none ∧
      verdict = .miss) ∨
    ∃ choice,
      rule.firstMatch options.maxMatchSteps word =
          .ok (some choice) ∧
        verdict.Writes before word after choice.2.length
          (rule.rewriting word choice) := by
  have hExceptions :
      ∀ predicate ∈ rule.predicates,
        predicate.exceptions = [] := by
    intro predicate hMem
    exact (Predicate.conditions_of_isUnconditional
      (Rule.isUnconditional_predicate
        (Rule.isUnconditional_of_isContextFree hFree)
        hMem)).2
  rcases Rule.judge_of_no_exceptions hExceptions hVerdict
      hDecided with
    ⟨hMiss, rfl⟩ | ⟨site, hSite, hReplacing⟩
  · rw [Rule.findSite_between before word after origin hFree
      hPredicates] at hMiss
    exact Or.inl ⟨eq_none_of_map_image hMiss, rfl⟩
  · rw [Rule.findSite_between before word after origin hFree
      hPredicates] at hSite
    rcases exists_of_map_image hSite with
      ⟨choice, hChoice, rfl⟩
    exact Or.inr ⟨choice, hChoice,
      Site.writes_of_replacing hFree hPredicates
        (Rule.firstMatch_within hChoice) hReplacing⟩

end Diachrony
