import Diachrony.Proofs.Matching.Candidates
import Diachrony.Sweep
import Diachrony.Proofs.Matching.Extent

/-
  The visits of a scan.

  A scan visits one position after another and comes to a
  verdict on each. The list of its visits determines all
  that is known about a scan: its word, its changes, its
  problems and its counts.

  Key definitions include:
    * `Visit`
    * `Rule.visits`
    * `Sweep.ofVisits`

  Key theorems include:
    * `Rule.site?_of_judge`
    * `Rule.judge_within`
    * `Rule.visitsRight_cases`
    * `Rule.visitsLeft_cases`
    * `Rule.sweep_eq`
-/

namespace Diachrony

------------------------------------------------------------
-- Where sites lie
------------------------------------------------------------

/- The site that a predicate makes is the match it was given. -/
theorem Predicate.found_of_site?
    {cursor : Cursor}
    {budget : Int}
    {branch : Nat}
    {found : Match}
    {entry : Predicate × Nat}
    {site : Site}
    (hSite :
      Predicate.site? cursor budget branch found entry =
        .ok (some site)) :
    site.found = found := by
  unfold Predicate.site? at hSite
  split at hSite
  · cases hSite
  · cases hSite
  · cases hSite
    rfl

/-
  A site begins at the position that is looked at and keeps
  to the limit.
-/
theorem Rule.findSite_within
    {rule : Rule}
    {budget : Int}
    {allowed : List (Option (List Nat))}
    {cursor : Cursor}
    {site : Site}
    (hSite :
      rule.findSite budget allowed cursor = .ok (some site)) :
    site.found.Within cursor.pos
      (min cursor.limit cursor.word.size) := by
  rcases exists_of_firstSome hSite with ⟨entry, _, hBranch⟩
  unfold Branch.site? at hBranch
  split at hBranch
  · cases hBranch
  split at hBranch
  · cases hBranch
  · cases hBranch
  · rename_i found hMatch
    rcases exists_of_firstSome hBranch with
      ⟨predicate, _, hPredicate⟩
    have hLimit :
        ((cursor.targetRequest budget).window
          cursor.word).limit =
          min cursor.limit cursor.word.size := by
      simp only [MatchRequest.window, MatchRequest.limitIn,
        Cursor.targetRequest]
      omega
    rw [Predicate.found_of_site? hPredicate, ← hLimit]
    exact Pattern.matchAt_within hMatch

/- A site that is not vetoed is replaced or skipped. -/
theorem Site.site?_of_replacing
    {site : Site}
    {options : EngineOptions}
    {rule : Rule}
    {word : WordArray}
    {verdict : Verdict}
    (hVerdict :
      site.replacing options rule word = .ok verdict) :
    verdict.site? = some site := by
  unfold Site.replacing at hVerdict
  split at hVerdict
  · cases hVerdict
    rfl
  split at hVerdict
  · cases hVerdict
    rfl
  split at hVerdict
  · cases hVerdict
  · cases hVerdict
    rfl

/- The site of a verdict is the one that was found. -/
theorem Rule.site?_of_judge
    {rule : Rule}
    {options : EngineOptions}
    {allowed : List (Option (List Nat))}
    {cursor : Cursor}
    {verdict : Verdict}
    (hVerdict :
      rule.judge options allowed cursor = .ok verdict)
    (site : Site) :
    verdict.site? = some site ↔
      rule.findSite options.maxMatchSteps allowed cursor =
        .ok (some site) := by
  unfold Rule.judge at hVerdict
  split at hVerdict
  · cases hVerdict
  · rename_i hFind
    cases hVerdict
    simp [hFind, Verdict.site?]
  · rename_i hFind
    cases hVerdict
    simp [hFind, Verdict.site?]
  · rename_i other hFind
    have hSame : verdict.site? = some other := by
      split at hVerdict
      · cases hVerdict
      · cases hVerdict
        rfl
      · cases hVerdict
        rfl
      · exact Site.site?_of_replacing hVerdict
    simp [hFind, hSame]

/-
  The site of a verdict begins at the position that is
  looked at and keeps to the limit.
-/
theorem Rule.judge_within
    {rule : Rule}
    {options : EngineOptions}
    {allowed : List (Option (List Nat))}
    {cursor : Cursor}
    {verdict : Verdict}
    (hVerdict :
      rule.judge options allowed cursor = .ok verdict)
    {site : Site}
    (hSite : verdict.site? = some site) :
    site.found.Within cursor.pos
      (min cursor.limit cursor.word.size) :=
  Rule.findSite_within
    ((Rule.site?_of_judge hVerdict site).mp hSite)

------------------------------------------------------------
-- Visits
------------------------------------------------------------

/- A position of a scan with the verdict on it. -/
structure Visit where
  cursor : Cursor
  verdict : Verdict
  deriving Repr

/- The word that a scan goes on with after a visit. -/
def Visit.result
    (visit : Visit) : WordArray :=
  visit.verdict.applyTo visit.cursor.word

/- The scan that makes some visits and begins with a word. -/
def Sweep.ofVisits : List Visit → Word → Sweep
  | [], word => { word := word }
  | visit :: rest, _ =>
      visit.verdict.followedBy visit.cursor.word
        (Sweep.ofVisits rest visit.result.toList)

namespace Rule

variable (rule : Rule)
variable (options : EngineOptions)
variable (allowed : List (Option (List Nat)))

/- A visit of a scan to the right. -/
def visitRight
    (word : WordArray)
    (pos origin : Nat)
    (verdict : Verdict) : Visit where
  cursor :=
    { word := word
      pos := pos
      limit := word.size
      origin := origin }
  verdict := verdict

/- The visits of a scan to the right. -/
def visitsRight
    (word : WordArray)
    (pos origin : Nat)
    (left : Nat) : Except RunFault (List Visit) :=
  match rule.judgeRight options allowed word pos origin with
  | .error fault => .error fault
  | .ok verdict =>
      let visit := visitRight word pos origin verdict
      match left with
      | 0 => .ok [visit]
      | next + 1 =>
          match
            visitsRight visit.result
              (pos + verdict.advance)
              (origin + verdict.consumed)
              (next - (verdict.consumed - 1))
          with
          | .error fault => .error fault
          | .ok later => .ok (visit :: later)
termination_by left
decreasing_by
  omega

/- A visit of a scan to the left. -/
def visitLeft
    (word : WordArray)
    (limit pos : Nat)
    (verdict : Verdict) : Visit where
  cursor :=
    { word := word, pos := pos, limit := limit, origin := pos }
  verdict := verdict

/- The visits of a scan to the left. -/
def visitsLeft
    (word : WordArray)
    (limit : Nat) : Nat → Except RunFault (List Visit)
  | 0 =>
      match rule.judgeLeft options allowed word limit 0 with
      | .error fault => .error fault
      | .ok verdict => .ok [visitLeft word limit 0 verdict]
  | next + 1 =>
      match
        rule.judgeLeft options allowed word limit (next + 1)
      with
      | .error fault => .error fault
      | .ok verdict =>
          let visit := visitLeft word limit (next + 1) verdict
          match
            visitsLeft visit.result (verdict.nextLimit limit)
              next
          with
          | .error fault => .error fault
          | .ok later => .ok (visit :: later)

end Rule

namespace Rule

variable {rule : Rule}
variable {options : EngineOptions}
variable {allowed : List (Option (List Nat))}

/-
  A scan to the right visits a position, and goes on behind
  it unless it has come to the end.
-/
theorem visitsRight_cases
    {word : WordArray}
    {pos origin left : Nat}
    {visits : List Visit}
    (hVisits :
      rule.visitsRight options allowed word pos origin left =
        .ok visits) :
    ∃ verdict,
      rule.judgeRight options allowed word pos origin =
          .ok verdict ∧
        ((left = 0 ∧
          visits = [visitRight word pos origin verdict]) ∨
        ∃ next later,
          left = next + 1 ∧
            rule.visitsRight options allowed
                (verdict.applyTo word) (pos + verdict.advance)
                (origin + verdict.consumed)
                (next - (verdict.consumed - 1)) =
              .ok later ∧
            visits =
              visitRight word pos origin verdict :: later) := by
  unfold visitsRight at hVisits
  split at hVisits
  · cases hVisits
  rename_i verdict hVerdict
  refine ⟨verdict, hVerdict, ?_⟩
  cases left with
  | zero =>
      cases hVisits
      exact Or.inl ⟨rfl, rfl⟩
  | succ next =>
      dsimp only at hVisits
      split at hVisits
      · cases hVisits
      rename_i later hLater
      cases hVisits
      exact Or.inr ⟨next, later, rfl, hLater, rfl⟩

/- And so does a scan to the left, in front of it. -/
theorem visitsLeft_cases
    {word : WordArray}
    {limit pos : Nat}
    {visits : List Visit}
    (hVisits :
      rule.visitsLeft options allowed word limit pos =
        .ok visits) :
    ∃ verdict,
      rule.judgeLeft options allowed word limit pos =
          .ok verdict ∧
        ((pos = 0 ∧
          visits = [visitLeft word limit pos verdict]) ∨
        ∃ next later,
          pos = next + 1 ∧
            rule.visitsLeft options allowed
                (verdict.applyTo word)
                (verdict.nextLimit limit) next =
              .ok later ∧
            visits =
              visitLeft word limit pos verdict :: later) := by
  unfold visitsLeft at hVisits
  split at hVisits
  · split at hVisits
    · cases hVisits
    rename_i verdict hVerdict
    cases hVisits
    exact ⟨verdict, hVerdict, Or.inl ⟨rfl, rfl⟩⟩
  · rename_i next
    split at hVisits
    · cases hVisits
    rename_i verdict hVerdict
    dsimp only at hVisits
    split at hVisits
    · cases hVisits
    rename_i later hLater
    cases hVisits
    exact
      ⟨verdict, hVerdict,
        Or.inr ⟨next, later, rfl, hLater, rfl⟩⟩

end Rule

/- The visits of a scan of a rule over a word. -/
def Rule.visits
    (rule : Rule)
    (options : EngineOptions)
    (word : Word) : Except RunFault (List Visit) :=
  let symbols := word.toArray
  match rule.allowedStarts options.maxMatchSteps symbols with
  | .error fault => .error fault
  | .ok allowed =>
      if rule.flags.rightToLeft then
        rule.visitsLeft options allowed symbols symbols.size
          symbols.size
      else
        rule.visitsRight options allowed symbols 0 0
          symbols.size

------------------------------------------------------------
-- Scans as lists of visits
------------------------------------------------------------

namespace Rule

variable {rule : Rule}
variable {options : EngineOptions}
variable {allowed : List (Option (List Nat))}

theorem sweepRight_eq
    (word : WordArray)
    (pos origin left : Nat) :
    rule.sweepRight options allowed word pos origin left =
      (rule.visitsRight options allowed word pos origin
        left).map fun visits =>
          Sweep.ofVisits visits word.toList := by
  induction left using Nat.strongRecOn
    generalizing word pos origin with
  | _ left ih =>
      rw [sweepRight, visitsRight]
      cases hVerdict :
          rule.judgeRight options allowed word pos origin with
      | error fault => rfl
      | ok verdict =>
          cases left with
          | zero => rfl
          | succ next =>
              have hLater := ih
                (next - (verdict.consumed - 1)) (by omega)
                (verdict.applyTo word)
                (pos + verdict.advance)
                (origin + verdict.consumed)
              simp only [hLater, Visit.result, visitRight]
              cases rule.visitsRight options allowed
                (verdict.applyTo word)
                (pos + verdict.advance)
                (origin + verdict.consumed)
                (next - (verdict.consumed - 1)) <;> rfl

theorem sweepLeft_eq
    (word : WordArray)
    (limit pos : Nat) :
    rule.sweepLeft options allowed word limit pos =
      (rule.visitsLeft options allowed word limit pos).map
        fun visits =>
          Sweep.ofVisits visits word.toList := by
  induction pos generalizing word limit with
  | zero =>
      rw [sweepLeft, visitsLeft]
      cases rule.judgeLeft options allowed word limit 0 <;> rfl
  | succ next ih =>
      rw [sweepLeft, visitsLeft]
      cases hVerdict :
          rule.judgeLeft options allowed word limit
            (next + 1) with
      | error fault => rfl
      | ok verdict =>
          simp only [ih, Visit.result, visitLeft]
          cases rule.visitsLeft options allowed
            (verdict.applyTo word) (verdict.nextLimit limit)
            next <;> rfl

/- A scan is what its visits amount to. -/
theorem sweep_eq
    (word : Word) :
    rule.sweep options word =
      (rule.visits options word).map fun visits =>
        Sweep.ofVisits visits word := by
  rw [sweep, visits]
  cases rule.allowedStarts options.maxMatchSteps
      word.toArray with
  | error fault => rfl
  | ok allowed =>
      cases rule.flags.rightToLeft with
      | true => exact sweepLeft_eq _ _ _
      | false => exact sweepRight_eq _ _ _ _

end Rule

end Diachrony
