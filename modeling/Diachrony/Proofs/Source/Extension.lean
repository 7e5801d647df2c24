import Diachrony.Proofs.Source.Compiled
import Diachrony.Proofs.Source.Lines

/-
  Sources that are extended.

  What follows a source does not alter what was read of it.
  The lines of the source come first, and whatever the later
  ones add stands behind what is there already: items,
  reports and entries of the table are only appended, and
  new markers stand behind the items. A block of a given
  size is formed the same way whatever follows it, whereas
  one without a size would take in what is appended.

  Key definitions include:
    * `Reading.Extends`
    * `SourceLine.IsUnsizedBlock`

  Key theorems include:
    * `SourceLine.ofSource_append`
    * `Reading.Extends.lines`
    * `Reading.markers_sized`
    * `formBlocks_append`
    * `formBlocks_behind`
    * `formBlocks_isPrefix`
    * `Ruleset.read_extend`
-/

namespace Diachrony

open Unicode

------------------------------------------------------------
-- Lines
------------------------------------------------------------

theorem breakLines_of_break
    {current rest : List Char}
    {c : Char}
    (hBreak : isLineBreak c = true)
    (hAlone : ∀ more, c = '\r' → rest = '\n' :: more → False) :
    breakLines current (c :: rest) =
      current.reverse :: breakLines [] rest := by
  rw [breakLines.eq_3 _ _ _ hAlone, if_pos hBreak]

theorem breakLines_of_other
    {current rest : List Char}
    {c : Char}
    (hOther : isLineBreak c = false) :
    breakLines current (c :: rest) =
      breakLines (c :: current) rest := by
  have hAlone : ∀ more, c = '\r' → rest = '\n' :: more → False := by
    rintro more rfl _
    revert hOther
    decide +kernel
  rw [breakLines.eq_3 _ _ _ hAlone, if_neg (by simp [hOther])]

/- The lines of a text come first if a line break follows. -/
theorem breakLines_append
    (current text more : List Char) :
    ∃ later,
      breakLines current (text ++ '\n' :: more) =
        breakLines current text ++ later := by
  have hBreak : isLineBreak '\n' = true := by decide +kernel
  have hNewline (current : List Char) :
      breakLines current ('\n' :: more) =
        current.reverse :: breakLines [] more :=
    breakLines_of_break hBreak
      fun _ hReturn => absurd hReturn (by decide)
  fun_induction breakLines current text
  case case1 current _ =>
    refine ⟨breakLines current ('\n' :: more), ?_⟩
    rw [List.nil_append, List.nil_append]
  case case2 current _ =>
    refine ⟨breakLines [] more, ?_⟩
    rw [List.nil_append, hNewline, List.singleton_append]
  case case3 current rest ih =>
    rcases ih with ⟨later, hLater⟩
    refine ⟨later, ?_⟩
    rw [List.cons_append, List.cons_append, breakLines, hLater,
      List.cons_append]
  case case4 current c rest hAlone hBreaks ih =>
    rcases ih with ⟨later, hLater⟩
    cases rest with
    | nil =>
        by_cases hReturn : c = '\r'
        · -- the line break that follows is part of this one
          subst hReturn
          have hNothing : breakLines [] [] = [] := by
            rw [breakLines, List.isEmpty_nil, if_pos rfl]
          refine ⟨breakLines [] more, ?_⟩
          rw [hNothing, List.cons_append, List.nil_append,
            breakLines.eq_2, List.singleton_append]
        · refine ⟨later, ?_⟩
          rw [List.cons_append,
            breakLines_of_break hBreaks fun _ h => (hReturn h).elim,
            hLater, List.cons_append]
    | cons d rest =>
        refine ⟨later, ?_⟩
        have hStill :
            ∀ others,
              c = '\r' →
                d :: rest ++ '\n' :: more = '\n' :: others →
                  False := by
          intro others hReturn hNext
          rw [List.cons_append, List.cons.injEq] at hNext
          exact hAlone rest hReturn (by rw [hNext.1])
        rw [List.cons_append, breakLines_of_break hBreaks hStill,
          hLater, List.cons_append]
  case case5 current c rest _ hOther ih =>
    rcases ih with ⟨later, hLater⟩
    refine ⟨later, ?_⟩
    rw [List.cons_append,
      breakLines_of_other (by simpa using hOther), hLater]

/- The lines of a source come first if a line break follows. -/
theorem SourceLine.ofSource_append
    (first more : String) :
    ∃ later,
      SourceLine.ofSource (first ++ "\n" ++ more) =
        SourceLine.ofSource first ++ later := by
  rcases breakLines_append [] first.toList more.toList with
    ⟨raws, hRaws⟩
  have hText :
      (first ++ "\n" ++ more).toList =
        first.toList ++ '\n' :: more.toList := by
    rw [String.toList_append, String.toList_append,
      List.append_assoc]
    rfl
  refine
    ⟨ofRaws (1 + (breakLines [] first.toList).length) raws, ?_⟩
  rw [SourceLine.ofSource, SourceLine.ofSource, hText, hRaws,
    SourceLine.ofRaws_append]

------------------------------------------------------------
-- Readings
------------------------------------------------------------

/-
  A reading that another one goes on from: whatever was there
  comes first, and later markers stand behind the items.
-/
structure Reading.Extends
    (reading next : Reading) : Prop where
  items : reading.items <+: next.items
  diagnostics : reading.diagnostics <+: next.diagnostics
  entries : reading.table.entries <+: next.table.entries
  markers :
    ∃ added,
      next.markers = reading.markers ++ added ∧
        ∀ marker ∈ added,
          reading.items.length ≤ marker.position

namespace Reading

variable {reading other next : Reading}

theorem Extends.refl
    (reading : Reading) :
    reading.Extends reading where
  items := List.prefix_rfl
  diagnostics := List.prefix_rfl
  entries := List.prefix_rfl
  markers :=
    ⟨[], (List.append_nil _).symm, List.forall_mem_nil _⟩

/- One more line only adds to what is there. -/
theorem Extends.step
    {line : SourceLine}
    (hExtends : reading.Extends other)
    (hStep : other.Step line next) :
    reading.Extends next := by
  have hAppend
      {α : Type}
      {first later : List α}
      (hFirst : first <+: later)
      (more : List α) :
      first <+: later ++ more :=
    hFirst.trans (List.prefix_append later more)
  rcases hExtends with ⟨hItems, hDiagnostics, hEntries, hMarkers⟩
  cases hStep with
  | skip => exact ⟨hItems, hDiagnostics, hEntries, hMarkers⟩
  | category =>
      exact
        ⟨hItems, hAppend (hAppend hDiagnostics _) _,
          hAppend hEntries _, hMarkers⟩
  | define => exact ⟨hItems, hDiagnostics, hEntries, hMarkers⟩
  | run =>
      exact ⟨hAppend hItems _, hDiagnostics, hEntries, hMarkers⟩
  | report =>
      exact ⟨hItems, hAppend hDiagnostics _, hEntries, hMarkers⟩
  | @block marker _ hPosition =>
      rcases hMarkers with ⟨added, hAdded, hBehind⟩
      refine
        ⟨hItems, hAppend hDiagnostics _, hEntries,
          added ++ [marker], ?_, ?_⟩
      · rw [hAdded, List.append_assoc]
      · refine List.forall_mem_append.mpr ⟨hBehind, ?_⟩
        rw [List.forall_mem_singleton, hPosition]
        exact hItems.length_le
  | store =>
      exact ⟨hItems, hAppend hDiagnostics _, hEntries, hMarkers⟩
  | rule =>
      exact
        ⟨hAppend hItems _, hAppend hDiagnostics _, hEntries,
          hMarkers⟩

/- Whatever lines follow, they only add to what is there. -/
theorem Extends.lines
    {lines : List SourceLine}
    (hLines : reading.lines lines = .ok next) :
    reading.Extends next :=
  lines_induction (fun _ _ => Extends.step) (.refl reading)
    hLines

end Reading

/- A line that makes a block of all that follows. -/
def SourceLine.IsUnsizedBlock
    (line : SourceLine) : Prop :=
  ∃ parts ∈ MetaruleLine.read? line.text,
    parts.name = "block" ∧ parts.argument = none

instance
    (line : SourceLine) :
    Decidable line.IsUnsizedBlock :=
  inferInstanceAs
    (Decidable
      (∃ parts ∈ MetaruleLine.read? line.text,
        parts.name = "block" ∧ parts.argument = none))

theorem Metarule.read_unsized
    {limit : DigitLimit}
    {place : Place}
    {text : List Char}
    {flags : Flags}
    {diagnostics : List Diagnostic}
    (hRead :
      Metarule.read limit place text =
        .ok (.block none flags diagnostics)) :
    ∃ parts ∈ MetaruleLine.read? text,
      parts.name = "block" ∧ parts.argument = none := by
  unfold Metarule.read at hRead
  split at hRead
  · cases hRead
  rename_i parts hParts
  refine ⟨parts, hParts, ?_⟩
  unfold Metarule.ofLine at hRead
  split at hRead
  · split at hRead <;> cases hRead
  split at hRead
  · split at hRead <;> cases hRead
  split at hRead
  · rename_i hName
    refine ⟨hName, ?_⟩
    unfold MetaruleLine.block at hRead
    split at hRead
    · cases hRead
    rename_i hSize
    split at hRead
    · cases hRead
    cases hRead
    unfold MetaruleLine.blockSize at hSize
    split at hSize
    · assumption
    dsimp only at hSize
    split at hSize
    · cases hSize
    split at hSize
    · cases hSize
    split at hSize <;> cases hSize
  · cases hRead

/- All blocks are of a given size if no line leaves it out. -/
theorem Reading.markers_sized
    {reading next : Reading}
    {lines : List SourceLine}
    (hNone : reading.markers = [])
    (hSized : ∀ line ∈ lines, ¬line.IsUnsizedBlock)
    (hLines : reading.lines lines = .ok next) :
    ∀ marker ∈ next.markers, marker.size ≠ none := by
  refine
    lines_induction
      (P := fun other =>
        ∀ marker ∈ other.markers, marker.size ≠ none)
      ?_ ?_ hLines
  · intro line hLine other after hOther hStep
    cases hStep with
    | block _ _ hRead =>
        refine List.forall_mem_append.mpr ⟨hOther, ?_⟩
        refine List.forall_mem_singleton.mpr fun hSize => ?_
        rw [hSize] at hRead
        exact hSized line hLine (Metarule.read_unsized hRead)
    | skip => exact hOther
    | category => exact hOther
    | define => exact hOther
    | run => exact hOther
    | report => exact hOther
    | store => exact hOther
    | rule => exact hOther
  · rw [hNone]
    exact List.forall_mem_nil _

------------------------------------------------------------
-- Blocks
------------------------------------------------------------

theorem formBlocks_append
    (items : List Item)
    (markers others : List BlockMarker) :
    formBlocks items (markers ++ others) =
      match formBlocks items others with
      | .error e => .error e
      | .ok formed => formBlocks formed markers := by
  induction markers with
  | nil =>
      rw [List.nil_append]
      cases formBlocks items others with
      | error e => rfl
      | ok formed => rfl
  | cons marker rest ih =>
      rw [List.cons_append, formBlocks, ih]
      cases formBlocks items others with
      | error e => rfl
      | ok formed => rfl

/- A block leaves what stands before it. -/
theorem BlockMarker.form_behind
    {marker : BlockMarker}
    {first items formed : List Item}
    (hFirst : first <+: items)
    (hBehind : first.length ≤ marker.position)
    (hForm : marker.form items = .ok formed) :
    first <+: formed := by
  unfold BlockMarker.form at hForm
  dsimp only at hForm
  split at hForm
  · cases hForm
  cases hForm
  have hTaken : first <+: items.take marker.position :=
    List.prefix_take_iff.mpr ⟨hFirst, hBehind⟩
  exact hTaken.trans (List.prefix_append _ _)

/- Blocks leave what stands before all of them. -/
theorem formBlocks_behind
    {first items formed : List Item}
    {markers : List BlockMarker}
    (hFirst : first <+: items)
    (hBehind :
      ∀ marker ∈ markers, first.length ≤ marker.position)
    (hForm : formBlocks items markers = .ok formed) :
    first <+: formed := by
  induction markers generalizing formed with
  | nil =>
      cases hForm
      exact hFirst
  | cons marker rest ih =>
      rcases List.forall_mem_cons.mp hBehind with
        ⟨hMarker, hRest⟩
      unfold formBlocks at hForm
      split at hForm
      · cases hForm
      · rename_i hInner
        exact
          marker.form_behind (ih hRest hInner) hMarker hForm

/- A block of a given size is the same whatever follows it. -/
theorem BlockMarker.form_isPrefix
    {marker : BlockMarker}
    {first items formed whole : List Item}
    (hFirst : first <+: items)
    (hSized : marker.size ≠ none)
    (hForm : marker.form first = .ok formed)
    (hWhole : marker.form items = .ok whole) :
    formed <+: whole := by
  rcases Option.ne_none_iff_exists'.mp hSized with ⟨size, hSize⟩
  rcases hFirst with ⟨more, rfl⟩
  unfold BlockMarker.form at hForm hWhole
  have hStop (items : List Item) :
      marker.stop items = marker.position + size := by
    rw [BlockMarker.stop, hSize]
  simp only [hStop] at hForm hWhole
  split at hForm
  · cases hForm
  rename_i hInside
  split at hWhole
  · cases hWhole
  cases hForm
  cases hWhole
  have hPosition : marker.position ≤ first.length := by omega
  have hTaken :
      (first ++ more).take marker.position =
        first.take marker.position :=
    List.take_append_of_le_length hPosition
  have hBlock :
      ((first ++ more).drop marker.position).take
          (marker.position + size - marker.position) =
        (first.drop marker.position).take
          (marker.position + size - marker.position) := by
    rw [List.drop_append_of_le_length hPosition,
      List.take_append_of_le_length (by rw [List.length_drop]; omega)]
  have hRest :
      (first ++ more).drop (marker.position + size) =
        first.drop (marker.position + size) ++ more :=
    List.drop_append_of_le_length (by omega)
  rw [hTaken, hBlock, hRest]
  exact ⟨more, by simp⟩

/- So are all blocks if they are of given sizes. -/
theorem formBlocks_isPrefix
    {first items formed whole : List Item}
    {markers : List BlockMarker}
    (hFirst : first <+: items)
    (hSized : ∀ marker ∈ markers, marker.size ≠ none)
    (hForm : formBlocks first markers = .ok formed)
    (hWhole : formBlocks items markers = .ok whole) :
    formed <+: whole := by
  induction markers generalizing formed whole with
  | nil =>
      cases hForm
      cases hWhole
      exact hFirst
  | cons marker rest ih =>
      rcases List.forall_mem_cons.mp hSized with
        ⟨hMarker, hRest⟩
      unfold formBlocks at hForm hWhole
      split at hForm
      · cases hForm
      rename_i hInner
      split at hWhole
      · cases hWhole
      rename_i hOuter
      exact
        marker.form_isPrefix (ih hRest hInner hOuter) hMarker
          hForm hWhole

------------------------------------------------------------
-- Sources
------------------------------------------------------------

/-
  If a source leaves out the size of no block then what it is
  read as comes first in whatever it is extended to: its
  items, what is reported, and the entries of its table.
-/
theorem Ruleset.read_extend
    {table : Table}
    {graphs : List String}
    {first more : String}
    {limit : DigitLimit}
    {ruleset extended : Ruleset}
    (hFirst :
      Ruleset.read table graphs first limit = .ok ruleset)
    (hSized :
      ∀ line ∈ SourceLine.ofSource first,
        ¬line.IsUnsizedBlock)
    (hWhole :
      Ruleset.read table graphs (first ++ "\n" ++ more) limit =
        .ok extended) :
    ruleset.items <+: extended.items ∧
      ruleset.diagnostics <+: extended.diagnostics ∧
      ruleset.categories.entries <+:
        extended.categories.entries := by
  rcases SourceLine.ofSource_append first more with
    ⟨later, hLater⟩
  unfold Ruleset.read at hFirst hWhole
  rw [hLater, Reading.lines_append] at hWhole
  split at hFirst
  · cases hFirst
  rename_i reading hReading
  rw [hReading] at hWhole
  dsimp only at hWhole
  split at hWhole
  · cases hWhole
  rename_i next hNext
  have hMarkers :=
    Reading.markers_sized rfl hSized hReading
  rcases Reading.Extends.lines hNext with
    ⟨hItems, hDiagnostics, hEntries, added, hAdded, hBehind⟩
  unfold Reading.finish at hFirst hWhole
  split at hFirst
  · cases hFirst
  split at hFirst
  · cases hFirst
  rename_i formed hFormed
  cases hFirst
  split at hWhole
  · cases hWhole
  rw [hAdded, formBlocks_append] at hWhole
  split at hWhole
  · cases hWhole
  rename_i whole hForm
  cases hWhole
  split at hForm
  · cases hForm
  rename_i inner hInner
  -- the later blocks leave the items, the earlier ones follow
  have hKept := formBlocks_behind hItems hBehind hInner
  exact
    ⟨formBlocks_isPrefix hKept hMarkers hFormed hForm,
      hDiagnostics, hEntries⟩

------------------------------------------------------------
-- A category that is defined anew
------------------------------------------------------------

/- A stored rule, and a block of which it is a part. -/
def vowelSource : String :=
  "V = a, e\n!def: shift\n[V] > o\n!block: 2 persist\n" ++
    "a > [W]\n!rule: shift"

/- Other meanings of the categories, and a block of the rest. -/
def laterSource : String :=
  "V = i\nW = b\nx > y\n!block\n[V] > u / _[U]"

theorem vowelSource_extend :
    (∀ line ∈ SourceLine.ofSource vowelSource,
        ¬line.IsUnsizedBlock) ∧
      ∃ ruleset extended,
        Ruleset.read {} [] vowelSource = .ok ruleset ∧
          Ruleset.read {} []
              (vowelSource ++ "\n" ++ laterSource) =
            .ok extended ∧
          ruleset.items.map Item.name =
            ["!block: 2 persist"] ∧
          extended.items.map Item.name =
            ["!block: 2 persist", "x > y", "!block"] ∧
          ruleset.diagnostics.map Diagnostic.message =
            ["category 'W' is not defined"] ∧
          extended.diagnostics.map Diagnostic.message =
            ["category 'W' is not defined",
              "category 'U' is not defined"] ∧
          ruleset.categories.entries.map Category.name =
            ["V"] ∧
          extended.categories.entries.map Category.name =
            ["V", "V", "W"] ∧
          ruleset.items <+: extended.items ∧
          ruleset.diagnostics <+: extended.diagnostics ∧
          ruleset.categories.entries <+:
            extended.categories.entries := by
  have hFirst :
      Ruleset.read {} [] vowelSource =
        .ok (Ruleset.ofSource {} [] vowelSource) :=
    Ruleset.read_ofSource (by decide +kernel)
  have hSized :
      ∀ line ∈ SourceLine.ofSource vowelSource,
        ¬line.IsUnsizedBlock := by
    decide +kernel
  have hWhole :
      Ruleset.read {} []
          (vowelSource ++ "\n" ++ laterSource) =
        .ok
          (Ruleset.ofSource {} []
            (vowelSource ++ "\n" ++ laterSource)) :=
    Ruleset.read_ofSource (by decide +kernel)
  exact
    ⟨hSized, _, _, hFirst, hWhole, by decide +kernel,
      by decide +kernel, by decide +kernel, by decide +kernel,
      by decide +kernel, by decide +kernel,
      Ruleset.read_extend hFirst hSized hWhole⟩

end Diachrony
