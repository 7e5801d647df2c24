import Diachrony.Proofs.Scan.Mirror

/-
  A scan to the left mirrors a scan to the right.

  A scan to the left lowers a limit behind the symbols it
  has not passed. Before each position it has still to scan
  what the mirrored rule has still to substitute in, if the
  word up to the end of the next match is read backwards:
  either the match there is replaced in both, or the last
  of these symbols stays in both.

  Key theorems include:
    * `Rule.substitute_short`
    * `Rule.mirror_behind_unmatched`
    * `Rule.mirror_behind_matched`
    * `Rule.sweepLeft_mirrors`
    * `Rule.sweep_mirror`
-/

namespace Diachrony

variable {rule : Rule}
variable {predicate : Predicate}
variable {others : List Predicate}
variable {options : EngineOptions}
variable {budget : Int}
variable {length : Nat}

------------------------------------------------------------
-- Short words
------------------------------------------------------------

/- Matches are as long as all targets are. -/
theorem Rule.Segmental.length_of_firstMatch
    (hRule : rule.Segmental length)
    {word : Word}
    {choice : Nat × Match}
    (hChoice :
      rule.firstMatch budget word = .ok (some choice)) :
    length ≤ word.length ∧ choice.2.length = length := by
  rcases exists_of_firstSome hChoice with
    ⟨entry, hEntry, hMatch⟩
  rcases exists_of_map_image hMatch with ⟨found, hFound, rfl⟩
  have hBranch := List.fst_mem_of_mem_zipIdx hEntry
  rcases Pattern.binds_of_found (hRule.segments _ hBranch)
      (hRule.slots _ hBranch) hFound with
    ⟨hEnough, hLength, _⟩
  rw [hRule.length_eq _ hBranch] at hEnough hLength
  exact ⟨hEnough, hLength⟩

/- No target matches in a word that is shorter. -/
theorem Rule.substitute_short
    (hRule : rule.Segmental length)
    {word written : Word}
    (hShort : word.length < length)
    (hWritten : rule.substitute budget word = .ok written) :
    written = word := by
  induction word generalizing written with
  | nil =>
      rcases Rule.firstMatch_of_substitute hWritten with
        ⟨result, hMatch⟩
      cases result with
      | none =>
          rw [Rule.substitute.eq_def, hMatch] at hWritten
          cases hWritten
          rfl
      | some choice =>
          have hEnough := (hRule.length_of_firstMatch hMatch).1
          omega
  | cons symbol rest ih =>
      rcases Rule.firstMatch_of_substitute hWritten with
        ⟨result, hMatch⟩
      cases result with
      | none =>
          rcases Rule.substitute_behind_unmatched hMatch
              hWritten with
            ⟨later, hLater, rfl⟩
          rw [ih (Nat.lt_of_succ_lt hShort) hLater]
      | some choice =>
          have hEnough := (hRule.length_of_firstMatch hMatch).1
          omega

------------------------------------------------------------
-- One position
------------------------------------------------------------

section Position

variable {before part written : Word}

/- What stands before a match, and the match, backwards. -/
theorem Word.mirrors_front
    (before : Word)
    (hEnough : length ≤ part.length) :
    part.Mirrors (before ++ part.take length).reverse
      length where
  length_le := hEnough
  take_eq := by
    rw [List.reverse_append]
    apply List.take_left'
    rw [List.length_reverse, List.length_take_of_le hEnough]

/-
  Where nothing matches, the mirrored rule keeps the last
  symbol that a match would take, and nothing matches up to
  there either if there are fewer symbols than that.
-/
theorem Rule.mirror_behind_unmatched
    (hRule : rule.Segmental (length + 1))
    (hNone : rule.firstMatch budget part = .ok none)
    (hWritten :
      rule.mirror.substitute budget
          (before ++ part.take (length + 1)).reverse =
        .ok written) :
    ∃ later,
      rule.mirror.substitute budget
          (before ++ part.take length).reverse =
        .ok later ∧
        written.reverse ++ part.drop (length + 1) =
          later.reverse ++ part.drop length := by
  by_cases hEnough : length < part.length
  · have hWords :=
      Word.mirrors_front before (Nat.succ_le_of_lt hEnough)
    have hFront :
        (before ++ part.take (length + 1)).reverse =
          part[length] ::
            (before ++ part.take length).reverse := by
      rw [← List.take_append_getElem hEnough,
        ← List.append_assoc, List.reverse_append]
      rfl
    rw [hFront] at hWritten hWords
    rcases Rule.firstMatch_of_substitute hWritten with
      ⟨result, hMatch⟩
    cases
      Rule.firstMatch_mirror hRule hWords hNone hMatch
    rcases Rule.substitute_behind_unmatched hMatch hWritten
      with ⟨later, hLater, rfl⟩
    refine ⟨later, hLater, ?_⟩
    rw [List.reverse_cons, List.append_assoc,
      List.drop_eq_getElem_cons hEnough]
    rfl
  · have hAll : part.length ≤ length := Nat.le_of_not_lt hEnough
    have hMore : part.length ≤ length + 1 :=
      Nat.le_succ_of_le hAll
    rw [List.take_of_length_le hMore] at hWritten
    refine ⟨written, ?_, ?_⟩
    · rw [List.take_of_length_le hAll]
      exact hWritten
    · rw [List.drop_of_length_le hMore,
        List.drop_of_length_le hAll]

/-
  Where a branch matches, the mirrored rule writes the same
  backwards and goes on before the match.
-/
theorem Rule.mirror_behind_matched
    (hReversible : rule.isReversible = true)
    (hRule : rule.Segmental (length + 1))
    {choice : Nat × Match}
    (hChoice : rule.firstMatch budget part = .ok (some choice))
    (hWritten :
      rule.mirror.substitute budget
          (before ++ part.take (length + 1)).reverse =
        .ok written) :
    ∃ later,
      rule.mirror.substitute budget before.reverse =
          .ok later ∧
        written.reverse =
          later.reverse ++ rule.rewriting part choice := by
  have hEnough := (hRule.length_of_firstMatch hChoice).1
  have hWords := Word.mirrors_front before hEnough
  have hBehind :
      (before ++ part.take (length + 1)).reverse.drop
          (length + 1) =
        before.reverse := by
    rw [List.reverse_append]
    apply List.drop_left'
    rw [List.length_reverse, List.length_take_of_le hEnough]
  rcases Rule.firstMatch_of_substitute hWritten with
    ⟨result, hMatch⟩
  cases Rule.firstMatch_mirror hRule hWords hChoice hMatch with
  | @some _ mirror hMirrors =>
  have hRewriting :=
    Rule.rewriting_mirror hReversible hWords
      (Rule.firstMatch_within hChoice)
      (Rule.firstMatch_within hMatch) hMirrors.1 hMirrors.2
  have hTaken := hMirrors.2.mirrored_eq
  cases hFront : (before ++ part.take (length + 1)).reverse with
  | nil =>
      have hNothing := congrArg List.length hFront
      simp only [List.length_reverse, List.length_append,
        List.length_take, List.length_nil] at hNothing
      omega
  | cons symbol rest =>
  rw [hFront] at hWritten hMatch hBehind hRewriting
  rcases Rule.substitute_behind_matched hMatch
      (by omega) hWritten with
    ⟨later, hLater, rfl⟩
  rw [hTaken, hBehind] at hLater
  refine ⟨later, hLater, ?_⟩
  rw [hRewriting, List.reverse_append, List.reverse_reverse]

/-
  What the verdict of a scan to the left on a position says
  about the mirrored rule, before which symbols it goes on,
  and what it has written by then.
-/
theorem Rule.mirror_behind
    (hReversible : rule.isReversible = true)
    (hRule : rule.Segmental (length + 1))
    (hPredicates : rule.predicates = predicate :: others)
    {after : Word}
    {verdict : Verdict}
    (hVerdict :
      rule.judgeLeft options
        (rule.branches.map fun _ => none)
        (before ++ part ++ after).toArray
        (before.length + part.length) before.length =
          .ok verdict)
    (hDecided : ∀ problem,
      verdict.problem? = some problem → problem.Decided)
    (hWritten :
      rule.mirror.substitute options.maxMatchSteps
          (before ++ part.take (length + 1)).reverse =
        .ok written) :
    (verdict = .miss ∧
      ∃ later,
        rule.mirror.substitute options.maxMatchSteps
            (before ++ part.take length).reverse =
          .ok later ∧
          written.reverse ++ part.drop (length + 1) =
            later.reverse ++ part.drop length) ∨
    ∃ later symbols,
      rule.mirror.substitute options.maxMatchSteps
          before.reverse =
        .ok later ∧
        written.reverse = later.reverse ++ symbols ∧
        (∀ limit, verdict.nextLimit limit = before.length) ∧
        verdict.applyTo (before ++ part ++ after).toArray =
          (before ++
            (symbols ++ part.drop (length + 1) ++ after)
            ).toArray := by
  have hFree := Rule.isContextFree_of_isReversible hReversible
  have hJudged :
      rule.judge options (rule.branches.map fun _ => none)
          (Cursor.between before part after before.length) =
        .ok verdict :=
    hVerdict
  rcases Rule.judge_between hFree hPredicates hJudged hDecided
    with ⟨hNone, hMiss⟩ | ⟨choice, hChoice, hWrites⟩
  · exact Or.inl
      ⟨hMiss, Rule.mirror_behind_unmatched hRule hNone hWritten⟩
  · rcases Rule.mirror_behind_matched hReversible hRule hChoice
        hWritten with
      ⟨later, hLater, hSymbols⟩
    have hResult := hWrites.result_eq
    rw [(hRule.length_of_firstMatch hChoice).2] at hResult
    refine Or.inr
      ⟨later, _, hLater, hSymbols, hWrites.nextLimit_eq, ?_⟩
    simpa only [List.append_assoc] using hResult

end Position

------------------------------------------------------------
-- Scans
------------------------------------------------------------

/-
  A scan to the left does to the symbols up to its limit what
  a substitution by the mirrored rule does to those up to the
  end of the next match, backwards.
-/
theorem Rule.sweepLeft_mirrors
    (hReversible : rule.isReversible = true)
    (hRule : rule.Segmental (length + 1))
    (hPredicates : rule.predicates = predicate :: others)
    {before part after written : Word}
    {current : WordArray}
    {limit pos : Nat}
    {sweep : Sweep}
    (hCurrent : current = (before ++ part ++ after).toArray)
    (hLimit : limit = before.length + part.length)
    (hPos : pos = before.length)
    (hSweep :
      rule.sweepLeft options
        (rule.branches.map fun _ => none) current limit pos =
          .ok sweep)
    (hDecided :
      ∀ problem ∈ sweep.problems, problem.Decided)
    (hWritten :
      rule.mirror.substitute options.maxMatchSteps
          (before ++ part.take (length + 1)).reverse =
        .ok written) :
    sweep.word =
      written.reverse ++ part.drop (length + 1) ++ after := by
  induction before using List.reverseRecOn
    generalizing part after written current limit pos sweep with
  | nil =>
      subst hCurrent hLimit hPos
      rw [List.length_nil, Rule.sweepLeft] at hSweep
      split at hSweep
      · cases hSweep
      rename_i verdict hVerdict
      cases hSweep
      rcases Rule.mirror_behind hReversible hRule hPredicates
          hVerdict (Verdict.decided_of_followedBy hDecided).1
          hWritten with
        ⟨rfl, later, hLater, hSame⟩ |
        ⟨later, symbols, hLater, hSame, _, hResult⟩
      · have hKept := Rule.substitute_short hRule.mirror
          (by simp) hLater
        have hAll := List.take_append_drop length part
        rw [hSame, hKept, List.reverse_reverse]
        exact congrArg (· ++ after) hAll.symm
      · have hNothing :=
          Rule.substitute_short hRule.mirror (by simp) hLater
        rw [Verdict.followedBy, hResult, hSame, hNothing]
        simp
  | append_singleton before symbol ih =>
      subst hCurrent hLimit hPos
      rw [List.length_append, List.length_singleton,
        Rule.sweepLeft] at hSweep
      split at hSweep
      · cases hSweep
      rename_i verdict hVerdict
      split at hSweep
      · cases hSweep
      rename_i following hFollowing
      cases hSweep
      rcases Verdict.decided_of_followedBy hDecided with
        ⟨hHere, hThere⟩
      rw [← List.length_singleton (a := symbol),
        ← List.length_append] at hVerdict
      rcases Rule.mirror_behind hReversible hRule hPredicates
          hVerdict hHere hWritten with
        ⟨rfl, later, hLater, hSame⟩ |
        ⟨later, symbols, hLater, hSame, hLimit, hResult⟩
      · -- the symbol that was missed is passed
        have hNext :
            before ++ [symbol] ++ part.take length =
              before ++
                (symbol :: part).take (length + 1) := by
          rw [List.append_assoc]
          rfl
        have hCurrent :
            (before ++ [symbol] ++ part ++ after).toArray =
              (before ++ (symbol :: part) ++ after).toArray := by
          simp
        have hLimit :
            before.length + 1 + part.length =
              before.length + (symbol :: part).length := by
          rw [List.length_cons]
          omega
        rw [hNext] at hLater
        rw [hSame]
        change following.word = _
        exact ih hCurrent hLimit rfl hFollowing hThere hLater
      · -- the scan goes on before the match
        have hNext :
            before ++ [symbol] =
              before ++ [symbol].take (length + 1) := by
          simp
        rw [hNext] at hLater
        rw [hLimit] at hFollowing
        have hWord :=
          ih hResult (by simp) rfl hFollowing hThere hLater
        simpa [Verdict.followedBy, hSame] using hWord

/-
  A scan to the left of a compiled rule of reversible
  elements, whose targets are segments of one number, gives
  the reverse of what the mirrored rule gives for the word
  read backwards, unless a match is abandoned.
-/
theorem Rule.sweep_mirror
    (hCompiled : rule.IsCompiled)
    (hReversible : rule.isReversible = true)
    (hLeft : rule.flags.rightToLeft = true)
    (hPositive : 1 ≤ length)
    (hLength :
      ∀ branch ∈ rule.branches, branch.target.length = length)
    (word : Word) :
    ∃ sweep mirrored,
      rule.sweep options word = .ok sweep ∧
        rule.mirror.sweep options word.reverse =
          .ok mirrored ∧
        ((∀ problem ∈ sweep.problems, problem.Decided) →
          (∀ problem ∈ mirrored.problems, problem.Decided) →
            sweep.word = mirrored.word.reverse) := by
  have hMirror := Rule.isReversible_mirror hReversible
  have hFree := Rule.isContextFree_of_isReversible hReversible
  obtain ⟨sweep, hSweep⟩ :
      ∃ sweep, rule.sweep options word = .ok sweep :=
    Rule.exists_sweep
      (Rule.matchable_of_isReversible hReversible) word
  obtain ⟨mirrored, hMirrored⟩ :
      ∃ mirrored,
        rule.mirror.sweep options word.reverse =
          .ok mirrored :=
    Rule.exists_sweep
      (Rule.matchable_of_isReversible hMirror) word.reverse
  refine ⟨sweep, mirrored, hSweep, hMirrored, ?_⟩
  intro hDecided hDecided'
  cases length with
  | zero => cases hPositive
  | succ length =>
  have hRule : rule.Segmental (length + 1) :=
    hCompiled.segmental hReversible hLength
  have hWritten :=
    Rule.substitute_of_sweep
      (Rule.isContextFree_of_isReversible hMirror)
      (by rw [Rule.mirror, hLeft]; rfl) hMirrored hDecided'
  rcases hCompiled.exists_body with ⟨body, hBody⟩
  rcases List.exists_cons_of_ne_nil hBody.predicates_ne with
    ⟨predicate, others, hPredicates⟩
  rw [Rule.sweep, hLeft,
    Rule.allowedStarts_of_isUnconditional
      (Rule.isUnconditional_of_isContextFree hFree)] at hSweep
  dsimp only at hSweep
  rw [if_pos rfl] at hSweep
  -- at first the whole word is still to be scanned
  have hCurrent :
      word.toArray = (word ++ [] ++ []).toArray := by
    rw [List.append_nil, List.append_nil]
  have hSize :
      word.toArray.size =
        word.length + ([] : Word).length :=
    List.size_toArray
  have hFront :
      word ++ ([] : Word).take (length + 1) = word := by
    rw [List.take_nil, List.append_nil]
  have hWord :=
    Rule.sweepLeft_mirrors hReversible hRule hPredicates
      hCurrent hSize List.size_toArray hSweep hDecided
      (by rw [hFront]; exact hWritten)
  rw [hWord, List.drop_nil, List.append_nil, List.append_nil]

/-
  Before each second of a pair of vowels the pair is written
  backwards, between a consonant that depends on its second
  vowel and another consonant.
-/
def leftwardText : List Char :=
  "a[a,e] > [x,y]<z rtl".toList

def leftwardRule : Rule :=
  Rule.ofText { table := {} } leftwardText

/-
  The sites are taken from the word end, so that the first
  vowel and the fourth are left over.
-/
theorem leftwardRule_mirrored :
    (Rule.read { table := {} } leftwardText).isOk = true ∧
      leftwardRule.isReversible = true ∧
      leftwardRule.flags.rightToLeft = true ∧
      ∃ sweep mirrored,
        leftwardRule.sweep {} ["a", "a", "e", "a", "a", "a"] =
            .ok sweep ∧
          leftwardRule.mirror.sweep {}
              ["a", "a", "a", "e", "a", "a"] =
            .ok mirrored ∧
          sweep.word =
            ["a", "y", "e", "a", "z", "a", "x", "a", "a", "z"] ∧
          sweep.word = mirrored.word.reverse := by
  have hRead :
      (Rule.read { table := {} } leftwardText).isOk = true := by
    decide +kernel
  have hCompiled : leftwardRule.IsCompiled :=
    Rule.isCompiled_ofText hRead
  have hReversible : leftwardRule.isReversible = true := by
    decide +kernel
  have hLeft : leftwardRule.flags.rightToLeft = true := by
    decide +kernel
  have hLength : ∀ branch ∈ leftwardRule.branches,
      branch.target.length = 2 := by
    decide +kernel
  have hResult :
      (leftwardRule.sweep {}
          ["a", "a", "e", "a", "a", "a"]).map
            (fun sweep => (sweep.word, sweep.problems)) =
        .ok
          (["a", "y", "e", "a", "z", "a", "x", "a", "a", "z"],
            []) := by
    decide +kernel
  have hProblems :
      (leftwardRule.mirror.sweep {}
          ["a", "a", "a", "e", "a", "a"]).map Sweep.problems =
        .ok [] := by
    decide +kernel
  refine ⟨hRead, hReversible, hLeft, ?_⟩
  rcases @Rule.sweep_mirror leftwardRule {} 2 hCompiled
      hReversible hLeft (by decide) hLength
      ["a", "a", "e", "a", "a", "a"] with
    ⟨sweep, mirrored, hSweep, hMirrored, hWord⟩
  have hTurned :
      leftwardRule.mirror.sweep {}
          ["a", "a", "a", "e", "a", "a"] = .ok mirrored :=
    hMirrored
  rw [hSweep] at hResult
  rw [hTurned] at hProblems
  rcases Prod.mk.inj (Except.ok.inj hResult) with
    ⟨hWritten, hNone⟩
  refine ⟨sweep, mirrored, hSweep, hTurned, hWritten, ?_⟩
  apply hWord
  · rw [hNone]
    exact List.forall_mem_nil _
  · rw [Except.ok.inj hProblems]
    exact List.forall_mem_nil _

end Diachrony
