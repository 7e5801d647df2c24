import Diachrony.Proofs.Scan.Rewriting

/-
  Scans in both directions rewrite at once.

  From left to right the symbols that have not been passed
  are those of the first word, behind all that has been
  rewritten. From right to left they are those of the first
  word up to the limit, and all that has been rewritten
  stands behind them.

  Key definitions include:
    * `RightState`
    * `LeftState`

  Key theorems include:
    * `RightState.follows`
    * `LeftState.follows`
    * `Rule.sweep_rewrites`
-/

namespace Diachrony

variable {rule : Rule}
variable {options : EngineOptions}
variable {allowed : List (Option (List Nat))}
variable {word : Word}
variable {earlier : List Rewrite}
variable {current : WordArray}
variable {verdict : Verdict}
variable {visits : List Visit}

------------------------------------------------------------
-- Scans to the right
------------------------------------------------------------

/-
  The state of a scan to the right that has passed `origin`
  symbols and has `left` more before it.
-/
structure RightState
    (word : Word)
    (earlier : List Rewrite)
    (current : WordArray)
    (pos origin left : Nat) : Prop where
  word_eq : current.toList = word.rewrite earlier
  order : earlier.Pairwise Rewrite.Before
  inside : ∀ site ∈ earlier, site.Inside 0 origin
  started : ∀ site ∈ earlier, site.start < origin
  pos_eq : (pos : Int) = origin + Rewrite.totalGrowth earlier
  left_eq : origin + left = word.length

namespace RightState

variable {pos origin left : Nat}

theorem initial
    (word : Word) :
    RightState word [] word.toArray 0 0 word.toArray.size where
  word_eq := Word.rewrite_nil.symm
  order := List.Pairwise.nil
  inside := by simp
  started := by simp
  pos_eq := rfl
  left_eq := by simp

theorem size_eq
    (hState :
      RightState word earlier current pos origin left) :
    current.size = pos + left := by
  have hInside : ∀ site ∈ earlier,
      site.Inside 0 word.length := by
    intro site hSite
    apply (hState.inside site hSite).widen (Nat.le_refl 0)
    have hLeft := hState.left_eq
    omega
  have hLength :
      ((word.rewrite earlier).length : Int) =
        word.length - (0 : Nat) +
          Rewrite.totalGrowth earlier :=
    Word.length_rewriteBetween (Nat.zero_le _)
      (Nat.le_refl _) hInside hState.order
  have hPos := hState.pos_eq
  have hLeft := hState.left_eq
  rw [← hState.word_eq, Array.length_toList] at hLength
  omega

theorem current_eq
    (hRight : rule.flags.rightToLeft = false)
    (hState :
      RightState word earlier current pos origin left) :
    current.toList = word.rewrite (rule.arrange earlier) := by
  rw [Rule.arrange, hRight]
  exact hState.word_eq

/- No more symbols are matched than there are left. -/
theorem found_within
    (hState :
      RightState word earlier current pos origin left)
    (hVerdict :
      rule.judgeRight options allowed current pos origin =
        .ok verdict)
    {found : Site}
    (hFound : verdict.site? = some found) :
    found.found.start = pos ∧
      found.found.stop = pos + found.found.length ∧
      found.found.length ≤ left := by
  have hWithin := Rule.judge_within hVerdict hFound
  have hStart := hWithin.start_eq
  have hForward := hWithin.start_le
  have hStop := hWithin.stop_le
  have hSize := hState.size_eq
  simp only [Match.length]
  dsimp only at hStart hForward hStop
  omega

theorem consumed_le
    (hState :
      RightState word earlier current pos origin left)
    (hVerdict :
      rule.judgeRight options allowed current pos origin =
        .ok verdict) :
    1 ≤ verdict.consumed ∧ verdict.consumed ≤ max left 1 := by
  rw [Verdict.consumed]
  cases hFound : verdict.site? with
  | none =>
      dsimp only
      omega
  | some found =>
      have hWithin := hState.found_within hVerdict hFound
      dsimp only
      omega

theorem reaches
    (hRight : rule.flags.rightToLeft = false)
    (hState :
      RightState word earlier current pos origin left)
    (hVerdict :
      rule.judgeRight options allowed current pos origin =
        .ok verdict)
    {site : Rewrite}
    (hSite :
      (Rule.visitRight current pos origin verdict).rewrite? =
        some site) :
    ∃ found, verdict = .replaced found site.symbols ∧
      rule.Reaches word earlier site found.found := by
  rcases Visit.exists_of_rewrite?_eq_some hSite with
    ⟨found, hReplaced, hSiteStart, hSiteStop⟩
  change verdict = .replaced found site.symbols at hReplaced
  change site.start = origin at hSiteStart
  change site.stop = origin + found.found.length at hSiteStop
  have hWithin := hState.found_within hVerdict
    (by rw [hReplaced]; rfl : verdict.site? = some found)
  have hLeft := hState.left_eq
  have hPos := hState.pos_eq
  have hBetween : site.Between word earlier [] :=
  { inside := ⟨Nat.zero_le _, by omega, by omega⟩
    leftInside := by
      rw [hSiteStart]
      exact hState.inside
    leftOrder := hState.order
    rightInside := by simp
    rightOrder := List.Pairwise.nil }
  have hOrder :
      (earlier ++ [site]).Pairwise Rewrite.Before := by
    apply hBetween.pairwise
    · rw [hSiteStart]
      exact hState.started
    · simp
  refine ⟨found, hReplaced, ?_⟩
  constructor
  · simpa [Rule.leftOf, Rule.rightOf, hRight] using hBetween
  · simpa [Rule.arrange, hRight] using hOrder
  · simp only [Rule.leftOf, hRight, Bool.false_eq_true,
      if_false]
    omega
  · simp only [Rule.leftOf, hRight, Bool.false_eq_true,
      if_false]
    omega

/- Symbols are passed without being rewritten. -/
theorem pass
    (hState :
      RightState word earlier current pos origin left)
    {n : Nat}
    (hEnough : n ≤ left) :
    RightState word earlier current (pos + n) (origin + n)
      (left - n) where
  word_eq := hState.word_eq
  order := hState.order
  inside := by
    intro site hSite
    exact (hState.inside site hSite).widen (Nat.le_refl 0)
      (Nat.le_add_right _ _)
  started := by
    intro site hSite
    exact Nat.lt_add_right n (hState.started site hSite)
  pos_eq := by
    have hPos := hState.pos_eq
    omega
  left_eq := by
    have hLeft := hState.left_eq
    omega

/- A site is rewritten, and its symbols are passed. -/
theorem rewrite
    (hRight : rule.flags.rightToLeft = false)
    (hState :
      RightState word earlier current pos origin left)
    {site : Rewrite}
    {found : Match}
    (hReaches : rule.Reaches word earlier site found)
    {result : WordArray}
    (hResult :
      result.toList =
        word.rewrite (rule.arrange (earlier ++ [site])))
    {n next : Nat}
    (hStart : site.start < origin + n)
    (hStop : site.stop ≤ origin + n)
    (hEnough : n ≤ left)
    (hNext : (next : Int) = pos + site.growth + n) :
    RightState word (earlier ++ [site]) result next
      (origin + n) (left - n) := by
  have hPass := hState.pass hEnough
  have hOrder := hReaches.order
  simp only [Rule.arrange, hRight, Bool.false_eq_true,
    if_false] at hOrder hResult
  constructor
  case word_eq => exact hResult
  case order => exact hOrder
  case inside =>
    intro other hOther
    rcases List.mem_append.mp hOther with hOld | hNew
    · exact hPass.inside other hOld
    · obtain rfl := List.mem_singleton.mp hNew
      exact ⟨Nat.zero_le _,
        hReaches.between.inside.start_le, hStop⟩
  case started =>
    intro other hOther
    rcases List.mem_append.mp hOther with hOld | hNew
    · exact hPass.started other hOld
    · obtain rfl := List.mem_singleton.mp hNew
      exact hStart
  case pos_eq =>
    have hPos := hState.pos_eq
    rw [Rewrite.totalGrowth_append,
      Rewrite.totalGrowth_cons, Rewrite.totalGrowth_nil]
    omega
  case left_eq => exact hPass.left_eq

/- The symbols that are passed are counted off. -/
theorem next
    (hRight : rule.flags.rightToLeft = false)
    (hState :
      RightState word earlier current pos origin (left + 1))
    (hVerdict :
      rule.judgeRight options allowed current pos origin =
        .ok verdict) :
    RightState word
      (earlier ++
        (Rule.visitRight current pos origin
          verdict).rewrite?.toList)
      (Rule.visitRight current pos origin verdict).result
      (pos + verdict.advance)
      (origin + verdict.consumed)
      (left - (verdict.consumed - 1)) := by
  have hConsumed := hState.consumed_le hVerdict
  have hEnough : verdict.consumed ≤ left + 1 := by omega
  have hCount :
      left - (verdict.consumed - 1) =
        left + 1 - verdict.consumed := by
    omega
  have hResult :
      (Rule.visitRight current pos origin
        verdict).result.toList =
          word.rewrite (rule.arrange (earlier ++
            (Rule.visitRight current pos origin
              verdict).rewrite?.toList)) :=
    Visit.result_eq (hState.current_eq hRight)
      fun site => hState.reaches hRight hVerdict
  rw [hCount]
  cases hRewrite :
      (Rule.visitRight current pos origin verdict).rewrite? with
  | none =>
      rcases Visit.idle_of_rewrite?_eq_none hRewrite with
        ⟨hIdle, hAdvance, _⟩
      change verdict.advance = verdict.consumed at hAdvance
      rw [hIdle, hAdvance, Option.toList_none,
        List.append_nil]
      exact hState.pass hEnough
  | some site =>
      rcases hState.reaches hRight hVerdict hRewrite with
        ⟨_, _, hReaches⟩
      rcases Visit.exists_of_rewrite?_eq_some hRewrite with
        ⟨found, hReplaced, hStart, hStop⟩
      change verdict = .replaced found site.symbols
        at hReplaced
      change site.start = origin at hStart
      change site.stop = origin + found.found.length at hStop
      have hTaken :
          verdict.consumed = max found.found.length 1 := by
        rw [hReplaced]
        rfl
      have hAdvance :
          verdict.advance =
            site.symbols.length +
              if found.found.length = 0 then 1 else 0 := by
        rw [hReplaced]
        rfl
      rw [hRewrite, Option.toList_some] at hResult
      rw [Option.toList_some]
      apply hState.rewrite hRight hReaches hResult
      · omega
      · omega
      · exact hEnough
      · rw [Rewrite.growth]
        split at hAdvance <;> omega

theorem follows
    (hRight : rule.flags.rightToLeft = false)
    (hState :
      RightState word earlier current pos origin left)
    (hVisits :
      rule.visitsRight options allowed current pos origin
        left = .ok visits) :
    rule.Follows word earlier current visits := by
  induction left using Nat.strongRecOn
    generalizing earlier current pos origin visits with
  | _ left ih =>
  rcases Rule.visitsRight_cases hVisits with
    ⟨verdict, hVerdict, hRest⟩
  have hWord :
      (Rule.visitRight current pos origin
        verdict).cursor.word.toList =
          word.rewrite (rule.arrange earlier) :=
    hState.current_eq hRight
  have hSite : ∀ site,
      (Rule.visitRight current pos origin
        verdict).rewrite? = some site →
        ∃ found, verdict = .replaced found site.symbols ∧
          rule.Reaches word earlier site found.found :=
    fun site => hState.reaches hRight hVerdict
  rcases hRest with
    ⟨rfl, rfl⟩ | ⟨next, later, rfl, hLater, rfl⟩
  · exact Rule.Follows.step hWord hSite
      (Rule.Follows.done (Visit.result_eq hWord hSite))
  · exact Rule.Follows.step hWord hSite
      (ih (next - (verdict.consumed - 1)) (by omega)
        (hState.next hRight hVerdict) hLater)

end RightState

------------------------------------------------------------
-- Scans to the left
------------------------------------------------------------

/-
  The state of a scan to the left that has rewritten sites
  behind a limit and looks at a position next.
-/
structure LeftState
    (word : Word)
    (earlier : List Rewrite)
    (current : WordArray)
    (limit pos : Nat) : Prop where
  word_eq : current.toList = word.rewrite earlier.reverse
  order : earlier.reverse.Pairwise Rewrite.Before
  inside : ∀ site ∈ earlier, site.Inside limit word.length
  ahead : ∀ site ∈ earlier, pos < site.start
  pos_le : pos ≤ limit
  limit_le : limit ≤ word.length

namespace LeftState

variable {limit pos : Nat}

theorem initial
    (word : Word) :
    LeftState word [] word.toArray word.toArray.size
      word.toArray.size where
  word_eq := Word.rewrite_nil.symm
  order := List.Pairwise.nil
  inside := by simp
  ahead := by simp
  pos_le := Nat.le_refl _
  limit_le := by simp

theorem current_eq
    (hLeft : rule.flags.rightToLeft = true)
    (hState : LeftState word earlier current limit pos) :
    current.toList = word.rewrite (rule.arrange earlier) := by
  rw [Rule.arrange, hLeft]
  exact hState.word_eq

/- A site is matched up to the limit at most. -/
theorem found_within
    (hVerdict :
      rule.judgeLeft options allowed current limit pos =
        .ok verdict)
    {found : Site}
    (hFound : verdict.site? = some found) :
    found.found.start = pos ∧
      found.found.stop = pos + found.found.length ∧
      pos + found.found.length ≤ limit := by
  have hWithin := Rule.judge_within hVerdict hFound
  have hStart := hWithin.start_eq
  have hForward := hWithin.start_le
  have hStop := hWithin.stop_le
  simp only [Match.length]
  dsimp only at hStart hForward hStop
  omega

theorem reaches
    (hLeft : rule.flags.rightToLeft = true)
    (hState : LeftState word earlier current limit pos)
    (hVerdict :
      rule.judgeLeft options allowed current limit pos =
        .ok verdict)
    {site : Rewrite}
    (hSite :
      (Rule.visitLeft current limit pos verdict).rewrite? =
        some site) :
    ∃ found, verdict = .replaced found site.symbols ∧
      rule.Reaches word earlier site found.found := by
  rcases Visit.exists_of_rewrite?_eq_some hSite with
    ⟨found, hReplaced, hSiteStart, hSiteStop⟩
  change verdict = .replaced found site.symbols at hReplaced
  change site.start = pos at hSiteStart
  change site.stop = pos + found.found.length at hSiteStop
  have hWithin := found_within hVerdict
    (by rw [hReplaced]; rfl : verdict.site? = some found)
  have hLimit := hState.limit_le
  have hBetween : site.Between word [] earlier.reverse :=
  { inside := ⟨Nat.zero_le _, by omega, by omega⟩
    leftInside := by simp
    leftOrder := List.Pairwise.nil
    rightInside := by
      intro other hOther
      exact
        (hState.inside other
          (List.mem_reverse.mp hOther)).widen
            (by omega) (Nat.le_refl _)
    rightOrder := hState.order }
  have hOrder :
      (site :: earlier.reverse).Pairwise Rewrite.Before := by
    apply hBetween.pairwise
    · simp
    · intro other hOther
      rw [hSiteStart]
      exact hState.ahead other (List.mem_reverse.mp hOther)
  refine ⟨found, hReplaced, ?_⟩
  constructor
  · simpa [Rule.leftOf, Rule.rightOf, hLeft] using hBetween
  · simpa [Rule.arrange, hLeft] using hOrder
  · simp only [Rule.leftOf, hLeft, if_true,
      Rewrite.totalGrowth_nil]
    omega
  · simp only [Rule.leftOf, hLeft, if_true,
      Rewrite.totalGrowth_nil]
    omega

/- The scan moves on without rewriting anything. -/
theorem move
    (hState : LeftState word earlier current limit (pos + 1))
    {nextLimit : Nat}
    (hNear : pos ≤ nextLimit)
    (hLower : nextLimit ≤ limit) :
    LeftState word earlier current nextLimit pos where
  word_eq := hState.word_eq
  order := hState.order
  inside := by
    intro site hSite
    exact (hState.inside site hSite).widen hLower
      (Nat.le_refl _)
  ahead := by
    intro site hSite
    exact Nat.lt_of_succ_lt (hState.ahead site hSite)
  pos_le := hNear
  limit_le := Nat.le_trans hLower hState.limit_le

/- A site is rewritten and becomes the new limit. -/
theorem rewrite
    (hLeft : rule.flags.rightToLeft = true)
    (hState : LeftState word earlier current limit (pos + 1))
    {site : Rewrite}
    {found : Match}
    (hReaches : rule.Reaches word earlier site found)
    {result : WordArray}
    (hResult :
      result.toList =
        word.rewrite (rule.arrange (earlier ++ [site])))
    (hStart : site.start = pos + 1) :
    LeftState word (earlier ++ [site]) result site.start
      pos := by
  have hBelow := hState.pos_le
  have hMove : LeftState word earlier current site.start pos :=
    hState.move (by omega) (by omega)
  have hOrder := hReaches.order
  have hInside := hReaches.between.inside
  simp only [Rule.arrange, hLeft, if_true] at hOrder hResult
  constructor
  case word_eq => exact hResult
  case order => exact hOrder
  case inside =>
    intro other hOther
    rcases List.mem_append.mp hOther with hOld | hNew
    · exact hMove.inside other hOld
    · obtain rfl := List.mem_singleton.mp hNew
      exact ⟨Nat.le_refl _, hInside.start_le,
        hInside.stop_le⟩
  case ahead =>
    intro other hOther
    rcases List.mem_append.mp hOther with hOld | hNew
    · exact hMove.ahead other hOld
    · obtain rfl := List.mem_singleton.mp hNew
      omega
  case pos_le => exact hMove.pos_le
  case limit_le => exact hMove.limit_le

/- A site becomes the new limit, whatever the verdict is. -/
theorem next
    (hLeft : rule.flags.rightToLeft = true)
    (hState : LeftState word earlier current limit (pos + 1))
    (hVerdict :
      rule.judgeLeft options allowed current limit (pos + 1) =
        .ok verdict) :
    LeftState word
      (earlier ++
        (Rule.visitLeft current limit (pos + 1)
          verdict).rewrite?.toList)
      (Rule.visitLeft current limit (pos + 1) verdict).result
      (verdict.nextLimit limit)
      pos := by
  have hPos := hState.pos_le
  have hNextLimit :
      pos ≤ verdict.nextLimit limit ∧
        verdict.nextLimit limit ≤ limit := by
    rw [Verdict.nextLimit]
    cases hFound : verdict.site? with
    | none =>
        dsimp only
        omega
    | some found =>
        have hWithin := found_within hVerdict hFound
        dsimp only
        omega
  have hResult :
      (Rule.visitLeft current limit (pos + 1)
        verdict).result.toList =
          word.rewrite (rule.arrange (earlier ++
            (Rule.visitLeft current limit (pos + 1)
              verdict).rewrite?.toList)) :=
    Visit.result_eq (hState.current_eq hLeft)
      fun site => hState.reaches hLeft hVerdict
  cases hRewrite :
      (Rule.visitLeft current limit (pos + 1)
        verdict).rewrite? with
  | none =>
      have hIdle :=
        (Visit.idle_of_rewrite?_eq_none hRewrite).1
      rw [hIdle, Option.toList_none, List.append_nil]
      exact hState.move hNextLimit.1 hNextLimit.2
  | some site =>
      rcases hState.reaches hLeft hVerdict hRewrite with
        ⟨found, hReplaced, hReaches⟩
      rcases Visit.exists_of_rewrite?_eq_some hRewrite with
        ⟨_, _, hStart, _⟩
      change site.start = pos + 1 at hStart
      have hWithin := found_within hVerdict
        (by rw [hReplaced]; rfl :
          verdict.site? = some found)
      have hTaken :
          verdict.nextLimit limit = found.found.start := by
        rw [hReplaced]
        rfl
      rw [hRewrite, Option.toList_some] at hResult
      rw [Option.toList_some, hTaken, hWithin.1, ← hStart]
      exact hState.rewrite hLeft hReaches hResult hStart

theorem follows
    (hLeft : rule.flags.rightToLeft = true)
    (hState : LeftState word earlier current limit pos)
    (hVisits :
      rule.visitsLeft options allowed current limit pos =
        .ok visits) :
    rule.Follows word earlier current visits := by
  induction pos using Nat.strongRecOn
    generalizing earlier current limit visits with
  | _ pos ih =>
  rcases Rule.visitsLeft_cases hVisits with
    ⟨verdict, hVerdict, hRest⟩
  have hWord := hState.current_eq hLeft
  have hSite : ∀ site,
      (Rule.visitLeft current limit pos
        verdict).rewrite? = some site →
        ∃ found, verdict = .replaced found site.symbols ∧
          rule.Reaches word earlier site found.found :=
    fun site => hState.reaches hLeft hVerdict
  rcases hRest with
    ⟨rfl, rfl⟩ | ⟨next, later, rfl, hLater, rfl⟩
  · exact Rule.Follows.step hWord hSite
      (Rule.Follows.done (Visit.result_eq hWord hSite))
  · exact Rule.Follows.step hWord hSite
      (ih next (Nat.lt_succ_self next)
        (hState.next hLeft hVerdict) hLater)

end LeftState

------------------------------------------------------------
-- Whole scans
------------------------------------------------------------

theorem Rule.visits_follow
    {word : Word}
    (hVisits : rule.visits options word = .ok visits) :
    rule.Follows word [] word.toArray visits := by
  rw [Rule.visits] at hVisits
  split at hVisits
  · cases hVisits
  split at hVisits
  · rename_i hLeft
    exact (LeftState.initial word).follows hLeft hVisits
  · rename_i hRight
    exact (RightState.initial word).follows
      (Bool.eq_false_iff.mpr hRight) hVisits

/-
  A scan rewrites the word it began with at the sites that
  it replaces, all at once.
-/
theorem Rule.sweep_rewrites
    {rule : Rule}
    {options : EngineOptions}
    {word : Word}
    {sweep : Sweep}
    (hSweep : rule.sweep options word = .ok sweep) :
    ∃ visits,
      rule.visits options word = .ok visits ∧
        rule.RewritesBy word visits sweep := by
  rw [Rule.sweep_eq] at hSweep
  cases hVisits : rule.visits options word with
  | error fault =>
      rw [hVisits] at hSweep
      cases hSweep
  | ok visits =>
      rw [hVisits] at hSweep
      obtain rfl := Except.ok.inj hSweep
      have hFollows := Rule.visits_follow hVisits
      have hNothing : (rule.arrange []).Pairwise
          Rewrite.Before := by
        simp [Rule.arrange]
      refine ⟨visits, rfl, ?_⟩
      exact
        { order := hFollows.order hNothing
          inside := hFollows.inside
          word_eq := hFollows.word_eq
          idle := fun _ _ hNone =>
            (Visit.idle_of_rewrite?_eq_none hNone).1
          edits := hFollows.edits
          untouched := Rule.Follows.untouched hFollows }

/-
  Double the first of some symbols, drop the second, and
  write the third as it is, but nothing at the word end.
-/
def unevenRule : Rule where
  branches :=
    [ { target := [.literal "a"] },
      { target := [.literal "b"] },
      { target := [.literal "c"] } ]
  predicates :=
    [ { replacements :=
          [ [.target false, .target false],
            [.null],
            [.literal "c"] ]
        exceptions := [[.around [] [.edge]]] } ]

theorem unevenRule_rewrites :
    let sweep : Sweep :=
      { word := ["a", "a", "c", "a"]
        edits :=
          [ { start := 0
              stop := 1
              before := ["a", "b", "c", "a"]
              after := ["a", "a", "b", "c", "a"] },
            { start := 2
              stop := 3
              before := ["a", "a", "b", "c", "a"]
              after := ["a", "a", "c", "a"] } ]
        examined := 5
        vetoed := 1 }
    unevenRule.sweep {} ["a", "b", "c", "a"] = .ok sweep ∧
      ∃ visits,
        unevenRule.visits {} ["a", "b", "c", "a"] =
            .ok visits ∧
          unevenRule.RewritesBy ["a", "b", "c", "a"] visits
            sweep :=
  ⟨by decide +kernel,
    Rule.sweep_rewrites (by decide +kernel)⟩

end Diachrony
