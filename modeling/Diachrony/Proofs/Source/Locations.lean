import Diachrony.Proofs.Source.Refusals

/-
  Errors point into the source.

  An error names a line that exists and a column of it, as
  the line is written with its comment and its blanks. The
  brackets and tokens that it names stand there. Only a name
  that nothing is stored under is reported without a place.

  Key definitions include:
    * `SourceError.PointsInto`

  Key theorems include:
    * `SourceError.PointsAt.ofRaw`
    * `Reading.markers_line`
    * `formBlocks_error`
    * `Ruleset.read_pointsInto`
-/

namespace Diachrony

open Unicode

------------------------------------------------------------
-- Lines
------------------------------------------------------------

/-
  An error that points at a column of a raw line. The
  brackets and tokens that it names stand there.
-/
def SourceError.PointsInto
    (e : SourceError)
    (limit : DigitLimit)
    (number : Nat)
    (raw : List Char)
    (column : Nat) : Prop :=
  e.PointsAt ⟨number, 0⟩ raw
    ((SourceLine.ofRaw number raw).HasToken limit) column

/- What points into the text of a line points into the line. -/
theorem SourceError.PointsAt.ofRaw
    {e : SourceError}
    {limit : DigitLimit}
    {number : Nat}
    {raw : List Char}
    {offset : Nat}
    (hPoints :
      e.PointsAt (SourceLine.ofRaw number raw).place
        (SourceLine.ofRaw number raw).text
        ((SourceLine.ofRaw number raw).HasToken limit) offset) :
    e.PointsInto limit number raw
      ((SourceLine.ofRaw number raw).column + offset) := by
  have hPlace :
      (SourceLine.ofRaw number raw).place =
        (Place.mk number 0).shift
          (SourceLine.ofRaw number raw).column := by
    rw [Place.shift, Int.zero_add]
    rfl
  rw [hPlace] at hPoints
  exact hPoints.of_part (SourceLine.ofRaw_standsIn number raw)

------------------------------------------------------------
-- Blocks
------------------------------------------------------------

/- The lines of markers are among the lines that were read. -/
theorem Reading.markers_line
    {reading next : Reading}
    {lines : List SourceLine}
    (hNone : reading.markers = [])
    (hLines : reading.lines lines = .ok next) :
    ∀ marker ∈ next.markers,
      ∃ line ∈ lines, marker.line = line.number := by
  refine
    lines_induction
      (P := fun other =>
        ∀ marker ∈ other.markers,
          ∃ line ∈ lines, marker.line = line.number)
      ?_ ?_ hLines
  · intro line hLine other after hOther hStep
    cases hStep with
    | block _ hNumber =>
        refine List.forall_mem_append.mpr ⟨hOther, ?_⟩
        exact List.forall_mem_singleton.mpr ⟨line, hLine, hNumber⟩
    | skip => exact hOther
    | category => exact hOther
    | define => exact hOther
    | run => exact hOther
    | report => exact hOther
    | store => exact hOther
    | rule => exact hOther
  · rw [hNone]
    exact List.forall_mem_nil _

/- Blocks cannot be formed if one of them is too short. -/
theorem formBlocks_error
    {items : List Item}
    {markers : List BlockMarker}
    {e : SourceError}
    (hForm : formBlocks items markers = .error e) :
    ∃ marker ∈ markers,
      e.cause.NamesNothing ∧ e.line = marker.line ∧
        e.column = 0 := by
  induction markers with
  | nil => cases hForm
  | cons marker rest ih =>
      unfold formBlocks at hForm
      split at hForm
      · rename_i hRest
        cases hForm
        rcases ih hRest with ⟨other, hOther, hError⟩
        exact ⟨other, List.mem_cons_of_mem _ hOther, hError⟩
      · unfold BlockMarker.form at hForm
        dsimp only at hForm
        split at hForm
        · cases hForm
          exact
            ⟨marker, List.mem_cons_self, ⟨rfl, rfl⟩, rfl, rfl⟩
        · cases hForm

------------------------------------------------------------
-- Sources
------------------------------------------------------------

/-
  If a source is malformed then the error points into one of
  its lines.
-/
theorem Ruleset.read_pointsInto
    {table : Table}
    {graphs : List String}
    {source : String}
    {limit : DigitLimit}
    {e : SourceError}
    (hRead :
      Ruleset.read table graphs source limit =
        .error (.malformed e))
    (hCause : ∀ name, e.cause ≠ .danglingDefinition name) :
    ∃ i raw column,
      (breakLines [] source.toList)[i]? = some raw ∧
        e.PointsInto limit (i + 1) raw column := by
  unfold Ruleset.read at hRead
  split at hRead
  · rename_i hLines
    cases hRead
    rcases Reading.lines_faults hLines with ⟨i, raw, hRaw, hFaults⟩
    cases hFaults with
    | malformed hPoints =>
        exact ⟨i, raw, _, hRaw, hPoints.ofRaw⟩
  · rename_i reading hLines
    unfold Reading.finish at hRead
    split at hRead
    · cases hRead
      exact (hCause _ rfl).elim
    split at hRead
    · rename_i hForm
      cases hRead
      rcases formBlocks_error hForm with
        ⟨marker, hMarker, hNothing, hLine, hColumn⟩
      rcases Reading.markers_line rfl hLines marker hMarker with
        ⟨line, hMem, hNumber⟩
      rcases SourceLine.mem_ofRaws hMem with ⟨i, raw, hRaw, rfl⟩
      rw [Nat.add_comm 1 i] at hNumber
      exact
        ⟨i, raw, 0, hRaw,
          .of_namesNothing hNothing (hLine.trans hNumber)
            (hColumn.trans rfl) (Nat.zero_le _)⟩
    · cases hRead

------------------------------------------------------------
-- A mark of laziness out of place
------------------------------------------------------------

/- The error of a text that cannot be read. -/
def refusal?
    {α : Type}
    (result : Except ReadError α) : Option ReadError :=
  match result with
  | .ok _ => none
  | .error e => some e

theorem eq_error_of_refusal?
    {α : Type}
    {result : Except ReadError α}
    {e : ReadError}
    (hError : refusal? result = some e) :
    result = .error e := by
  cases result with
  | ok _ => cases hError
  | error found =>
      cases hError
      rfl

/- A category line, and an insertion behind a tab. -/
def markedSource : String :=
  "V = a, e\n\t+ x? / _[V] // a comment"

def markedError : SourceError where
  cause := .unexpected "?"
  line := 2
  column := 4

theorem markedSource_pointsInto :
    Ruleset.read {} [] markedSource =
        .error (.malformed markedError) ∧
      (∀ name, markedError.cause ≠ .danglingDefinition name) ∧
      ∃ i raw column,
        (breakLines [] markedSource.toList)[i]? = some raw ∧
          markedError.PointsInto .standard (i + 1) raw
            column := by
  have hRead :
      Ruleset.read {} [] markedSource =
        .error (.malformed markedError) :=
    eq_error_of_refusal? (by decide +kernel)
  have hCause :
      ∀ name, markedError.cause ≠ .danglingDefinition name :=
    fun name hName => by cases hName
  exact
    ⟨hRead, hCause, Ruleset.read_pointsInto hRead hCause⟩

end Diachrony
