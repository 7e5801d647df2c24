import Diachrony.Word

/-
  Rewriting several spans of a word at once.

  Sites are given in ascending order and by their positions
  in the word before anything is rewritten. The symbols
  between them are kept. Rewriting one more site is the same
  as replacing one span of the word that is rewritten at the
  other sites, at a position that is shifted by what the
  sites to the left have added.

  Key definitions include:
    * `Rewrite`
    * `Rewrite.Before`
    * `Rewrite.Between`
    * `Word.rewrite`

  Key theorems include:
    * `Word.rewriteBetween_append`
    * `Word.length_rewriteBetween`
    * `Rewrite.Between.rewrite_eq`
    * `Rewrite.Between.splice_eq`
-/

namespace Diachrony

------------------------------------------------------------
-- Spans
------------------------------------------------------------

namespace Word

variable {word : Word}
variable {start middle stop : Nat}

theorem length_span
    (hStop : stop ≤ word.length) :
    (word.span start stop).length = stop - start := by
  rw [span, List.length_take, List.length_drop]
  omega

theorem span_to_end :
    word.span start word.length = word.drop start := by
  rw [span]
  exact List.take_of_length_le
    (Nat.le_of_eq List.length_drop)

theorem drop_of_le
    (hOrder : start ≤ stop) :
    word.drop stop = (word.drop start).drop (stop - start) := by
  rw [List.drop_drop]
  congr 1
  omega

theorem span_append
    (hStart : start ≤ middle)
    (hStop : middle ≤ stop) :
    word.span start middle ++ word.span middle stop =
      word.span start stop := by
  have hSplit :
      stop - start = (middle - start) + (stop - middle) := by
    omega
  rw [span, span, span, drop_of_le hStart, hSplit,
    List.take_add]

/- A span between two parts is replaced. -/
theorem splice_append
    (before target after symbols : Word) :
    Word.splice (before ++ target ++ after) before.length
        (before.length + target.length) symbols =
      before ++ symbols ++ after := by
  have hLength :
      before.length + target.length =
        (before ++ target).length := by
    rw [List.length_append]
  rw [splice, hLength, List.drop_left,
    List.append_assoc before, List.take_left]

/- Nothing changes if a span is replaced by itself. -/
theorem splice_span
    (hOrder : start ≤ stop) :
    word.splice start stop (word.span start stop) = word := by
  have hRest :
      word.span start stop ++ word.drop stop =
        word.drop start := by
    rw [span, drop_of_le hOrder, List.take_append_drop]
  rw [splice, List.append_assoc, hRest,
    List.take_append_drop]

/- A span between two parts is found again. -/
theorem span_between
    (before target after : Word) :
    Word.span (before ++ target ++ after) before.length
        (before.length + target.length) =
      target := by
  rw [span, List.append_assoc, List.drop_left,
    Nat.add_sub_cancel_left, List.take_left]

end Word

------------------------------------------------------------
-- Sites
------------------------------------------------------------

/- A span of a word with the symbols that take its place. -/
structure Rewrite where
  start : Nat
  stop : Nat
  symbols : Word
  deriving Repr, DecidableEq

namespace Rewrite

/- A site lies between two positions. -/
structure Inside
    (site : Rewrite)
    (start stop : Nat) : Prop where
  le_start : start ≤ site.start
  start_le : site.start ≤ site.stop
  stop_le : site.stop ≤ stop

/- A site lies to the left of another one. -/
def Before
    (site other : Rewrite) : Prop :=
  site.start < other.start ∧ site.stop ≤ other.start

/- Whether a site is not rewritten to what it was. -/
def changes
    (site : Rewrite)
    (word : Word) : Bool :=
  site.symbols ≠ word.span site.start site.stop

/- How many symbols a site adds to a word. -/
def growth
    (site : Rewrite) : Int :=
  site.symbols.length - ((site.stop : Int) - site.start)

/- How many symbols a list of sites adds to a word. -/
def totalGrowth : List Rewrite → Int
  | [] => 0
  | site :: rest => site.growth + totalGrowth rest

@[simp] theorem totalGrowth_nil : totalGrowth [] = 0 :=
  rfl

@[simp] theorem totalGrowth_cons
    (site : Rewrite)
    (sites : List Rewrite) :
    totalGrowth (site :: sites) =
      site.growth + totalGrowth sites :=
  rfl

@[simp] theorem totalGrowth_append
    (sites others : List Rewrite) :
    totalGrowth (sites ++ others) =
      totalGrowth sites + totalGrowth others := by
  induction sites with
  | nil => simp
  | cons site rest ih =>
      rw [List.cons_append, totalGrowth_cons, ih,
        totalGrowth_cons, Int.add_assoc]

theorem Inside.widen
    {site : Rewrite}
    {start stop first last : Nat}
    (hInside : site.Inside start stop)
    (hFirst : first ≤ start)
    (hLast : stop ≤ last) :
    site.Inside first last where
  le_start := Nat.le_trans hFirst hInside.le_start
  start_le := hInside.start_le
  stop_le := Nat.le_trans hInside.stop_le hLast

/- What follows the first site lies to its right. -/
theorem Inside.of_before
    {site other : Rewrite}
    {start stop : Nat}
    (hInside : other.Inside start stop)
    (hBefore : site.Before other) :
    other.Inside site.stop stop where
  le_start := hBefore.2
  start_le := hInside.start_le
  stop_le := hInside.stop_le

end Rewrite

------------------------------------------------------------
-- Rewriting
------------------------------------------------------------

namespace Word

/-
  The part of a word between two positions, rewritten at
  sites in ascending order.
-/
def rewriteBetween
    (word : Word)
    (start stop : Nat) : List Rewrite → Word
  | [] => word.span start stop
  | site :: rest =>
      word.span start site.start ++ site.symbols ++
        word.rewriteBetween site.stop stop rest

/- A word rewritten at sites in ascending order. -/
def rewrite
    (word : Word)
    (sites : List Rewrite) : Word :=
  word.rewriteBetween 0 word.length sites

variable {word : Word}
variable {start middle stop : Nat}
variable {sites others : List Rewrite}

theorem rewrite_nil :
    word.rewrite [] = word := by
  rw [rewrite, rewriteBetween, span_to_end, List.drop_zero]

/- Nothing is rewritten before the first site. -/
theorem span_append_rewriteBetween
    (hStart : start ≤ middle)
    (hStop : middle ≤ stop)
    (hSites : ∀ site ∈ sites, site.Inside middle stop) :
    word.span start middle ++
        word.rewriteBetween middle stop sites =
      word.rewriteBetween start stop sites := by
  cases sites with
  | nil => exact span_append hStart hStop
  | cons site rest =>
      have hSite := hSites site List.mem_cons_self
      rw [rewriteBetween, rewriteBetween, List.append_assoc,
        List.append_assoc, ← List.append_assoc,
        span_append hStart hSite.le_start]

/- Two neighbouring parts can be rewritten separately. -/
theorem rewriteBetween_append
    (hStart : start ≤ middle)
    (hStop : middle ≤ stop)
    (hSites : ∀ site ∈ sites, site.Inside start middle)
    (hOrder : sites.Pairwise Rewrite.Before)
    (hOthers : ∀ site ∈ others, site.Inside middle stop) :
    word.rewriteBetween start middle sites ++
        word.rewriteBetween middle stop others =
      word.rewriteBetween start stop (sites ++ others) := by
  induction sites generalizing start with
  | nil =>
      exact span_append_rewriteBetween hStart hStop hOthers
  | cons site rest ih =>
      rcases List.pairwise_cons.mp hOrder with
        ⟨hFirst, hRest⟩
      have hBelow := (hSites site List.mem_cons_self).stop_le
      have hInside : ∀ other ∈ rest,
          other.Inside site.stop middle := by
        intro other hOther
        exact (hSites other
          (List.mem_cons_of_mem _ hOther)).of_before
            (hFirst other hOther)
      rw [rewriteBetween, List.cons_append, rewriteBetween,
        List.append_assoc, ih hBelow hInside hRest]

theorem length_rewriteBetween
    (hStart : start ≤ stop)
    (hStop : stop ≤ word.length)
    (hSites : ∀ site ∈ sites, site.Inside start stop)
    (hOrder : sites.Pairwise Rewrite.Before) :
    ((word.rewriteBetween start stop sites).length : Int) =
      stop - start + Rewrite.totalGrowth sites := by
  induction sites generalizing start with
  | nil =>
      rw [rewriteBetween, length_span hStop,
        Rewrite.totalGrowth_nil]
      omega
  | cons site rest ih =>
      rcases List.pairwise_cons.mp hOrder with
        ⟨hFirst, hRest⟩
      have hSite := hSites site List.mem_cons_self
      have hInside : ∀ other ∈ rest,
          other.Inside site.stop stop := by
        intro other hOther
        exact (hSites other
          (List.mem_cons_of_mem _ hOther)).of_before
            (hFirst other hOther)
      have hLater := ih hSite.stop_le hInside hRest
      have hBelow : site.start ≤ word.length :=
        Nat.le_trans hSite.start_le
          (Nat.le_trans hSite.stop_le hStop)
      have hFar := hSite.le_start
      rw [rewriteBetween, List.length_append,
        List.length_append, length_span hBelow,
        Rewrite.totalGrowth_cons, Rewrite.growth]
      omega

end Word

------------------------------------------------------------
-- One more site
------------------------------------------------------------

/-
  A site lies between sites that are rewritten already, some
  to its left and some to its right.
-/
structure Rewrite.Between
    (site : Rewrite)
    (word : Word)
    (left right : List Rewrite) : Prop where
  inside : site.Inside 0 word.length
  leftInside : ∀ other ∈ left, other.Inside 0 site.start
  leftOrder : left.Pairwise Rewrite.Before
  rightInside :
    ∀ other ∈ right, other.Inside site.stop word.length
  rightOrder : right.Pairwise Rewrite.Before

namespace Rewrite.Between

variable {site : Rewrite}
variable {word : Word}
variable {left right : List Rewrite}

/- The span of the site is as it was. -/
theorem rewrite_eq
    (hBetween : site.Between word left right) :
    word.rewrite (left ++ right) =
      word.rewriteBetween 0 site.start left ++
        word.span site.start site.stop ++
        word.rewriteBetween site.stop word.length right := by
  have hSite := hBetween.inside
  have hStart : site.start ≤ word.length :=
    Nat.le_trans hSite.start_le hSite.stop_le
  have hRight : ∀ other ∈ right,
      other.Inside site.start word.length := by
    intro other hOther
    exact (hBetween.rightInside other hOther).widen
      hSite.start_le (Nat.le_refl _)
  rw [List.append_assoc,
    Word.span_append_rewriteBetween hSite.start_le
      hSite.stop_le hBetween.rightInside,
    Word.rewriteBetween_append hSite.le_start hStart
      hBetween.leftInside hBetween.leftOrder hRight,
    Word.rewrite]

/- The site is rewritten along with the others. -/
theorem rewrite_insert
    (hBetween : site.Between word left right) :
    word.rewrite (left ++ site :: right) =
      word.rewriteBetween 0 site.start left ++
        site.symbols ++
        word.rewriteBetween site.stop word.length right := by
  have hSite := hBetween.inside
  have hStart : site.start ≤ word.length :=
    Nat.le_trans hSite.start_le hSite.stop_le
  have hHere : site.Inside site.start word.length :=
    ⟨Nat.le_refl _, hSite.start_le, hSite.stop_le⟩
  have hOthers : ∀ other ∈ site :: right,
      other.Inside site.start word.length := by
    intro other hOther
    rcases List.mem_cons.mp hOther with rfl | hRight
    · exact hHere
    · exact (hBetween.rightInside other hRight).widen
        hSite.start_le (Nat.le_refl _)
  have hEmpty : word.span site.start site.start = [] := by
    rw [Word.span, Nat.sub_self, List.take_zero]
  rw [Word.rewrite,
    ← Word.rewriteBetween_append hSite.le_start hStart
      hBetween.leftInside hBetween.leftOrder hOthers,
    Word.rewriteBetween, hEmpty, List.nil_append,
    List.append_assoc]

/- How many symbols stand before the site. -/
theorem length_before
    (hBetween : site.Between word left right) :
    ((word.rewriteBetween 0 site.start left).length : Int) =
      site.start + totalGrowth left := by
  have hSite := hBetween.inside
  have hStart : site.start ≤ word.length :=
    Nat.le_trans hSite.start_le hSite.stop_le
  rw [Word.length_rewriteBetween (Nat.zero_le _) hStart
    hBetween.leftInside hBetween.leftOrder]
  omega

/- The shifted site stands behind what stands before it. -/
theorem position
    (hBetween : site.Between word left right)
    {start stop : Nat}
    (hStart : (start : Int) = site.start + totalGrowth left)
    (hStop : (stop : Int) = site.stop + totalGrowth left) :
    start = (word.rewriteBetween 0 site.start left).length ∧
      stop =
        (word.rewriteBetween 0 site.start left).length +
          (word.span site.start site.stop).length := by
  have hBefore := hBetween.length_before
  have hOrder := hBetween.inside.start_le
  rw [Word.length_span hBetween.inside.stop_le]
  omega

/-
  Replacing the span of the site, at its shifted position,
  is rewriting it along with the others.
-/
theorem splice_eq
    (hBetween : site.Between word left right)
    {start stop : Nat}
    (hStart : (start : Int) = site.start + totalGrowth left)
    (hStop : (stop : Int) = site.stop + totalGrowth left) :
    (word.rewrite (left ++ right)).splice start stop
        site.symbols =
      word.rewrite (left ++ site :: right) := by
  rcases hBetween.position hStart hStop with ⟨rfl, rfl⟩
  rw [hBetween.rewrite_eq, hBetween.rewrite_insert,
    Word.splice_append]

/- The span that is replaced is the one of the word before. -/
theorem span_eq
    (hBetween : site.Between word left right)
    {start stop : Nat}
    (hStart : (start : Int) = site.start + totalGrowth left)
    (hStop : (stop : Int) = site.stop + totalGrowth left) :
    (word.rewrite (left ++ right)).span start stop =
      word.span site.start site.stop := by
  rcases hBetween.position hStart hStop with ⟨rfl, rfl⟩
  rw [hBetween.rewrite_eq, Word.span_between]

/- The site is in order with the others. -/
theorem pairwise
    (hBetween : site.Between word left right)
    (hLeft : ∀ other ∈ left, other.start < site.start)
    (hRight : ∀ other ∈ right, site.start < other.start) :
    (left ++ site :: right).Pairwise Rewrite.Before := by
  have hHere : ∀ other ∈ right, site.Before other := by
    intro other hOther
    exact ⟨hRight other hOther,
      (hBetween.rightInside other hOther).le_start⟩
  refine List.pairwise_append.mpr
    ⟨hBetween.leftOrder,
      List.pairwise_cons.mpr ⟨hHere, hBetween.rightOrder⟩, ?_⟩
  intro other hOther next hNext
  have hOtherStart := hLeft other hOther
  have hOtherStop :=
    (hBetween.leftInside other hOther).stop_le
  rcases List.mem_cons.mp hNext with rfl | hNext
  · exact ⟨hOtherStart, hOtherStop⟩
  · have hNextStart := hRight next hNext
    exact ⟨by omega, by omega⟩

end Rewrite.Between

end Diachrony
