import Diachrony.Proofs.Scan.Visits
import Diachrony.Proofs.Word.Rewriting
import Mathlib.Data.List.Forall2

/-
  A scan rewrites disjoint spans of a word at once.

  The sites that a scan replaces lie apart from one another
  in the word as it was when the scan began. What the scan
  has written stands to the one side of all that it will
  still look at, so every target is read as it was, and the
  word that is left is the first word rewritten at all sites
  together.

  Key definitions include:
    * `Visit.rewrite?`
    * `Rule.arrange`
    * `Rule.Records`
    * `Rule.FindsUntouched`
    * `Rule.RewritesBy`
    * `Rule.Follows`

  Key theorems include:
    * `Rule.Follows.word_eq`
    * `Rule.Follows.edits`
    * `Rule.Follows.untouched`
-/

namespace Diachrony

------------------------------------------------------------
-- Rewritten sites
------------------------------------------------------------

/- Each entry of a list with all entries before it. -/
def withEarlier
    {α : Type}
    (earlier : List α) : List α → List (List α × α)
  | [] => []
  | entry :: rest =>
      (earlier, entry) :: withEarlier (earlier ++ [entry]) rest

namespace Visit

/-
  What a visit rewrites, by its position in the word as it
  was when the scan began. Only a site that is replaced is
  rewritten.
-/
def rewrite?
    (visit : Visit) : Option Rewrite :=
  match visit.verdict with
  | .replaced site symbols =>
      some
        { start := visit.cursor.origin
          stop := visit.cursor.origin + site.found.length
          symbols := symbols }
  | _ => none

/- What a list of visits rewrites, in the order of the scan. -/
def rewrites
    (visits : List Visit) : List Rewrite :=
  visits.filterMap rewrite?

theorem rewrites_cons
    (visit : Visit)
    (rest : List Visit) :
    rewrites (visit :: rest) =
      visit.rewrite?.toList ++ rewrites rest := by
  rw [rewrites, List.filterMap_cons]
  cases visit.rewrite? <;> rfl

theorem rewrites_concat
    (visits : List Visit)
    (visit : Visit) :
    rewrites (visits ++ [visit]) =
      rewrites visits ++ visit.rewrite?.toList := by
  have hLast :
      rewrites [visit] = visit.rewrite?.toList ++ rewrites [] :=
    rewrites_cons visit []
  rw [rewrites, List.filterMap_append]
  exact congrArg (rewrites visits ++ ·)
    (hLast.trans (List.append_nil _))

/-
  A visit that rewrites nothing makes no change, leaves the
  word as it is and moves past what it matched.
-/
theorem idle_of_rewrite?_eq_none
    {visit : Visit}
    (hNone : visit.rewrite? = none) :
    visit.result = visit.cursor.word ∧
      visit.verdict.advance = visit.verdict.consumed ∧
      ∀ word, visit.verdict.edit? word = none := by
  unfold rewrite? at hNone
  unfold result
  cases hVerdict : visit.verdict with
  | replaced site symbols => simp [hVerdict] at hNone
  | miss => exact ⟨rfl, rfl, fun _ => rfl⟩
  | abandoned problem => exact ⟨rfl, rfl, fun _ => rfl⟩
  | vetoed site => exact ⟨rfl, rfl, fun _ => rfl⟩
  | skipped site problem => exact ⟨rfl, rfl, fun _ => rfl⟩

theorem exists_of_rewrite?_eq_some
    {visit : Visit}
    {site : Rewrite}
    (hSome : visit.rewrite? = some site) :
    ∃ found,
      visit.verdict = .replaced found site.symbols ∧
      site.start = visit.cursor.origin ∧
      site.stop =
        visit.cursor.origin + found.found.length := by
  unfold rewrite? at hSome
  cases hVerdict : visit.verdict with
  | replaced found symbols =>
      rw [hVerdict] at hSome
      obtain rfl := Option.some.inj hSome
      exact ⟨found, rfl, rfl, rfl⟩
  | miss => simp [hVerdict] at hSome
  | abandoned problem => simp [hVerdict] at hSome
  | vetoed found => simp [hVerdict] at hSome
  | skipped found problem => simp [hVerdict] at hSome

end Visit

------------------------------------------------------------
-- What a scan amounts to
------------------------------------------------------------

namespace Rule

variable (rule : Rule)

/- Sites in the order of a scan, put in ascending order. -/
def arrange
    (sites : List Rewrite) : List Rewrite :=
  if rule.flags.rightToLeft then sites.reverse else sites

/- The sites of the scan so far that lie to the left. -/
def leftOf
    (earlier : List Rewrite) : List Rewrite :=
  if rule.flags.rightToLeft then [] else earlier

/- The sites of the scan so far that lie to the right. -/
def rightOf
    (earlier : List Rewrite) : List Rewrite :=
  if rule.flags.rightToLeft then earlier.reverse else []

/-
  How far a site has been moved by the sites before it. The
  sites of a scan to the left do not move the next one.
-/
def shift
    (earlier : List Rewrite) : Int :=
  if rule.flags.rightToLeft then 0
  else Rewrite.totalGrowth earlier

/-
  An edit records the rewriting of a site that comes after
  some others.
-/
structure Records
    (word : Word)
    (entry : List Rewrite × Rewrite)
    (edit : Edit) : Prop where
  start_eq :
    (edit.start : Int) = entry.2.start + rule.shift entry.1
  stop_eq :
    (edit.stop : Int) = entry.2.stop + rule.shift entry.1
  before_eq :
    edit.before = word.rewrite (rule.arrange entry.1)
  after_eq :
    edit.after =
      word.rewrite (rule.arrange (entry.1 ++ [entry.2]))

/-
  The target that a visit replaces is a part of the word as
  it was when the scan began. All that has been written so
  far stands before it or behind it.
-/
def FindsUntouched
    (word : Word)
    (earlier : List Rewrite)
    (visit : Visit) : Prop :=
  ∀ site found,
    visit.rewrite? = some site →
    visit.verdict.site? = some found →
      let before :=
        word.rewriteBetween 0 site.start (rule.leftOf earlier)
      let target := word.span site.start site.stop
      let after :=
        word.rewriteBetween site.stop word.length
          (rule.rightOf earlier)
      visit.cursor.word.toList = before ++ target ++ after ∧
        found.found.start = before.length ∧
        found.found.stop = before.length + target.length

/-
  A scan that makes some visits rewrites a word at the
  sites that it replaces: these do not overlap, the word is
  rewritten at all of them and nowhere else, all other
  visits leave it as it is, the edits are those of the sites
  that are not rewritten to what they were, and no target
  contains a symbol that was written.
-/
structure RewritesBy
    (word : Word)
    (visits : List Visit)
    (sweep : Sweep) : Prop where
  order :
    (rule.arrange (Visit.rewrites visits)).Pairwise
      Rewrite.Before
  inside :
    ∀ site ∈ Visit.rewrites visits,
      site.Inside 0 word.length
  word_eq :
    sweep.word =
      word.rewrite (rule.arrange (Visit.rewrites visits))
  idle :
    ∀ visit ∈ visits, visit.rewrite? = none →
      visit.result = visit.cursor.word
  edits :
    List.Forall₂ (rule.Records word)
      ((withEarlier [] (Visit.rewrites visits)).filter
        fun entry => entry.2.changes word)
      sweep.edits
  untouched :
    ∀ entry ∈ withEarlier [] visits,
      rule.FindsUntouched word (Visit.rewrites entry.1)
        entry.2

theorem leftOf_append_rightOf
    (earlier : List Rewrite) :
    rule.leftOf earlier ++ rule.rightOf earlier =
      rule.arrange earlier := by
  unfold leftOf rightOf arrange
  cases rule.flags.rightToLeft <;> simp

theorem leftOf_append_cons_rightOf
    (earlier : List Rewrite)
    (site : Rewrite) :
    rule.leftOf earlier ++ site :: rule.rightOf earlier =
      rule.arrange (earlier ++ [site]) := by
  unfold leftOf rightOf arrange
  cases rule.flags.rightToLeft <;> simp

theorem shift_eq
    (earlier : List Rewrite) :
    rule.shift earlier =
      Rewrite.totalGrowth (rule.leftOf earlier) := by
  unfold shift leftOf
  cases rule.flags.rightToLeft <;> rfl

------------------------------------------------------------
-- Following a scan
------------------------------------------------------------

/-
  A visit reaches a site: it stands apart from the sites
  that have been rewritten so far, in its place among them,
  and is found where these have moved it to.
-/
structure Reaches
    (word : Word)
    (earlier : List Rewrite)
    (site : Rewrite)
    (found : Match) : Prop where
  between :
    site.Between word (rule.leftOf earlier)
      (rule.rightOf earlier)
  order :
    (rule.arrange (earlier ++ [site])).Pairwise
      Rewrite.Before
  start_eq :
    (found.start : Int) =
      site.start + Rewrite.totalGrowth (rule.leftOf earlier)
  stop_eq :
    (found.stop : Int) =
      site.stop + Rewrite.totalGrowth (rule.leftOf earlier)

/-
  Visits that follow upon the rewriting of some sites: each
  visit looks at the word rewritten so far, and reaches the
  site that it replaces.
-/
inductive Follows
    (rule : Rule)
    (word : Word) :
    List Rewrite → WordArray → List Visit → Prop where
  | done
      {earlier : List Rewrite}
      {current : WordArray}
      (hWord :
        current.toList = word.rewrite (rule.arrange earlier)) :
      Follows rule word earlier current []
  | step
      {earlier : List Rewrite}
      {visit : Visit}
      {rest : List Visit}
      (hWord :
        visit.cursor.word.toList =
          word.rewrite (rule.arrange earlier))
      (hSite : ∀ site, visit.rewrite? = some site →
        ∃ found, visit.verdict = .replaced found site.symbols ∧
          rule.Reaches word earlier site found.found)
      (hRest :
        Follows rule word
          (earlier ++ visit.rewrite?.toList) visit.result
          rest) :
      Follows rule word earlier visit.cursor.word
        (visit :: rest)

end Rule

namespace Rule.Reaches

variable {rule : Rule}
variable {word : Word}
variable {earlier : List Rewrite}
variable {site : Rewrite}
variable {found : Match}

/- Replacing what was found rewrites the site as well. -/
theorem splice_eq
    (hReaches : rule.Reaches word earlier site found) :
    (word.rewrite (rule.arrange earlier)).splice found.start
        found.stop site.symbols =
      word.rewrite (rule.arrange (earlier ++ [site])) := by
  rw [← rule.leftOf_append_rightOf,
    ← rule.leftOf_append_cons_rightOf]
  exact hReaches.between.splice_eq hReaches.start_eq
    hReaches.stop_eq

/- What was found is what stood there at first. -/
theorem span_eq
    (hReaches : rule.Reaches word earlier site found) :
    (word.rewrite (rule.arrange earlier)).span found.start
        found.stop =
      word.span site.start site.stop := by
  rw [← rule.leftOf_append_rightOf]
  exact hReaches.between.span_eq hReaches.start_eq
    hReaches.stop_eq

/- What was found lies inside the word it was found in. -/
theorem bounds
    (hReaches : rule.Reaches word earlier site found) :
    found.start ≤ found.stop ∧
      found.stop ≤
        (word.rewrite (rule.arrange earlier)).length := by
  have hPosition :=
    hReaches.between.position hReaches.start_eq
      hReaches.stop_eq
  rw [← rule.leftOf_append_rightOf,
    hReaches.between.rewrite_eq, List.length_append,
    List.length_append]
  omega

end Rule.Reaches

/- A span of an array is a span of its symbols. -/
theorem WordArray.span_eq
    (word : WordArray)
    (start stop : Nat) :
    word.span start stop = Word.span word.toList start stop := by
  rw [WordArray.span, Array.toList_extract]
  rfl

namespace Visit

variable {rule : Rule}
variable {word : Word}
variable {earlier : List Rewrite}
variable {visit : Visit}

/- What a visit does to the word that is rewritten so far. -/
theorem result_eq
    (hWord :
      visit.cursor.word.toList =
        word.rewrite (rule.arrange earlier))
    (hSite : ∀ site, visit.rewrite? = some site →
      ∃ found, visit.verdict = .replaced found site.symbols ∧
        rule.Reaches word earlier site found.found) :
    visit.result.toList =
      word.rewrite
        (rule.arrange (earlier ++ visit.rewrite?.toList)) := by
  cases hRewrite : visit.rewrite? with
  | none =>
      rw [(idle_of_rewrite?_eq_none hRewrite).1, hWord]
      simp
  | some site =>
      rcases hSite site hRewrite with
        ⟨found, hVerdict, hReaches⟩
      rw [Option.toList_some, ← hReaches.splice_eq, ← hWord,
        result, hVerdict]
      rfl

/- The change that a visit makes is recorded. -/
theorem edit?_records
    (hWord :
      visit.cursor.word.toList =
        word.rewrite (rule.arrange earlier))
    (hSite : ∀ site, visit.rewrite? = some site →
      ∃ found, visit.verdict = .replaced found site.symbols ∧
        rule.Reaches word earlier site found.found) :
    List.Forall₂ (rule.Records word)
      ((withEarlier earlier visit.rewrite?.toList).filter
        fun entry => entry.2.changes word)
      (visit.verdict.edit? visit.cursor.word).toList := by
  cases hRewrite : visit.rewrite? with
  | none =>
      rw [(idle_of_rewrite?_eq_none hRewrite).2.2]
      exact List.Forall₂.nil
  | some site =>
      rcases hSite site hRewrite with
        ⟨found, hVerdict, hReaches⟩
      have hSpan :
          found.span visit.cursor.word =
            word.span site.start site.stop := by
        rw [Site.span, WordArray.span_eq, hWord,
          hReaches.span_eq]
      rw [hVerdict, Verdict.edit?, Site.edit?, hSpan]
      by_cases hSame :
          site.symbols = word.span site.start site.stop
      · simp [withEarlier, Rewrite.changes, hSame]
      · have hEdit :
            rule.Records word (earlier, site)
              { start := found.found.start
                stop := found.found.stop
                before := visit.cursor.word.toList
                after :=
                  visit.cursor.word.splice found.found.start
                    found.found.stop site.symbols } :=
          { start_eq := by
              rw [rule.shift_eq]
              exact hReaches.start_eq
            stop_eq := by
              rw [rule.shift_eq]
              exact hReaches.stop_eq
            before_eq := hWord
            after_eq := by
              rw [← hReaches.splice_eq, ← hWord]
              rfl }
        simpa [withEarlier, Rewrite.changes, hSame] using hEdit

end Visit

theorem withEarlier_append
    {α : Type}
    (earlier entries others : List α) :
    withEarlier earlier (entries ++ others) =
      withEarlier earlier entries ++
        withEarlier (earlier ++ entries) others := by
  induction entries generalizing earlier with
  | nil => simp [withEarlier]
  | cons entry rest ih =>
      simp [withEarlier, ih, List.append_assoc]

namespace Rule.Follows

variable {rule : Rule}
variable {word : Word}
variable {earlier : List Rewrite}
variable {current : WordArray}
variable {visits : List Visit}

theorem word_eq
    (hFollows : rule.Follows word earlier current visits) :
    (Sweep.ofVisits visits current.toList).word =
      word.rewrite
        (rule.arrange (earlier ++ Visit.rewrites visits)) := by
  induction hFollows with
  | done hWord =>
      rw [Visit.rewrites, List.filterMap_nil,
        List.append_nil]
      exact hWord
  | step _ _ _ ih =>
      rw [Visit.rewrites_cons, ← List.append_assoc]
      exact ih

theorem order
    (hFollows : rule.Follows word earlier current visits)
    (hOrder : (rule.arrange earlier).Pairwise Rewrite.Before) :
    (rule.arrange
      (earlier ++ Visit.rewrites visits)).Pairwise
        Rewrite.Before := by
  induction hFollows with
  | done _ =>
      rw [Visit.rewrites, List.filterMap_nil,
        List.append_nil]
      exact hOrder
  | @step earlier visit _ _ hSite _ ih =>
      rw [Visit.rewrites_cons, ← List.append_assoc]
      apply ih
      cases hRewrite : visit.rewrite? with
      | none => simpa using hOrder
      | some site =>
          rcases hSite site hRewrite with ⟨_, _, hReaches⟩
          exact hReaches.order

theorem inside
    (hFollows : rule.Follows word earlier current visits) :
    ∀ site ∈ Visit.rewrites visits,
      site.Inside 0 word.length := by
  induction hFollows with
  | done _ => simp [Visit.rewrites]
  | @step earlier visit _ _ hSite _ ih =>
      intro site hMem
      rw [Visit.rewrites_cons] at hMem
      rcases List.mem_append.mp hMem with hHere | hLater
      · rcases hSite site (Option.mem_toList.mp hHere) with
          ⟨_, _, hReaches⟩
        exact hReaches.between.inside
      · exact ih site hLater

theorem edits
    (hFollows : rule.Follows word earlier current visits) :
    List.Forall₂ (rule.Records word)
      ((withEarlier earlier (Visit.rewrites visits)).filter
        fun entry => entry.2.changes word)
      (Sweep.ofVisits visits current.toList).edits := by
  induction hFollows with
  | done _ => exact List.Forall₂.nil
  | step hWord hSite _ ih =>
      rw [Visit.rewrites_cons, withEarlier_append,
        List.filter_append]
      exact List.rel_append
        (Visit.edit?_records hWord hSite) ih

/- The visits may be counted from any earlier ones. -/
theorem untouched
    {before : List Visit}
    (hFollows :
      rule.Follows word (Visit.rewrites before) current
        visits) :
    ∀ entry ∈ withEarlier before visits,
      rule.FindsUntouched word (Visit.rewrites entry.1)
        entry.2 := by
  induction visits generalizing before current with
  | nil => simp [withEarlier]
  | cons visit rest ih =>
  cases hFollows with
  | step hWord hSite hRest =>
      intro entry hEntry
      rcases List.mem_cons.mp hEntry with rfl | hLater
      · dsimp only
        intro site found hRewrite hFound
        rcases hSite site hRewrite with
          ⟨other, hVerdict, hReaches⟩
        rw [hVerdict] at hFound
        obtain rfl : other = found := Option.some.inj hFound
        have hWhole := hReaches.between.rewrite_eq
        rw [rule.leftOf_append_rightOf, ← hWord] at hWhole
        exact ⟨hWhole,
          hReaches.between.position hReaches.start_eq
            hReaches.stop_eq⟩
      · rw [← Visit.rewrites_concat] at hRest
        exact ih hRest entry hLater

end Rule.Follows

end Diachrony
