import Diachrony.Proofs.Category.Tables
import Diachrony.Proofs.Source.Refusals

/-
  What comes of a source.

  A source whose digits are decimal is read as a ruleset or
  is malformed, however long its numbers are. Whatever its
  lines ask of the table of categories can be done when they
  ask for it: the table is open to edits, and each name in
  it stands for one of its entries.

  Key definitions include:
    * `Table.NamesEntries`
    * `TableEdit.perform`
    * `Reading.Serves`

  Key theorems include:
    * `Table.NamesEntries.append`
    * `Table.NamesEntries.resolve_cases`
    * `Reading.IsOpen.serves`
    * `Ruleset.read_outcome`
-/

namespace Diachrony

open Unicode

------------------------------------------------------------
-- Tables
------------------------------------------------------------

/- Each name stands for an entry of the table. -/
def Table.NamesEntries
    (table : Table) : Prop :=
  ∀ entry ∈ table.names, entry.2 < table.entries.length

namespace Table

namespace NamesEntries

variable {table : Table}

theorem append
    (hTable : table.NamesEntries)
    (name : String)
    (members : List Member) :
    (table.append name members).NamesEntries := by
  intro entry hEntry
  have hLength :
      (table.append name members).entries.length =
        table.entries.length + 1 := by
    rw [Table.append, List.length_append, List.length_singleton]
  rw [hLength]
  rcases mem_point hEntry with rfl | hBefore
  · exact Nat.lt_succ_self _
  · exact Nat.lt_succ_of_lt (hTable entry hBefore)

theorem copy
    (hTable : table.NamesEntries) :
    table.copy.NamesEntries :=
  hTable

theorem ofList
    (definitions : List (String × List Member)) :
    (Table.ofList definitions).NamesEntries := by
  unfold Table.ofList
  have hEmpty : ({} : Table).NamesEntries :=
    List.forall_mem_nil _
  generalize ({} : Table) = table at hEmpty ⊢
  induction definitions generalizing table with
  | nil => exact hEmpty
  | cons entry rest ih =>
      exact ih _ (hEmpty.append entry.1 entry.2)

/- A name is resolved, or the table does not contain it. -/
theorem resolve_cases
    (hTable : table.NamesEntries)
    (name : String) :
    (∃ category, table.resolve name = .ok category) ∨
      table.contains name = false ∧
        table.resolve name =
          .error (.undefinedCategory name) := by
  unfold Table.resolve Table.contains Table.resolve?
  cases hEntry : table.entryOf? name with
  | none => exact Or.inr ⟨rfl, rfl⟩
  | some i =>
      rcases List.lookup_eq_some_iff.mp hEntry with
        ⟨before, after, hNames, _⟩
      have hMem : (name, i) ∈ table.names := by
        rw [hNames]
        simp
      have hInside := hTable _ hMem
      rw [Option.bind_some, List.getElem?_eq_getElem hInside]
      exact Or.inl ⟨_, rfl⟩

end NamesEntries

end Table

/- Make an edit of a table, which may refuse it. -/
def TableEdit.perform
    (edit : TableEdit)
    (table : Table)
    (name : String)
    (members : List Member) : Except TableError Table :=
  match edit with
  | .define => table.define name members
  | .extend => table.add name members
  | .reduce => table.subtract name members

theorem TableEdit.perform_eq_ok
    {table : Table}
    (hOpen : table.frozen = false)
    (edit : TableEdit)
    (name : String)
    (members : List Member) :
    edit.perform table name members =
      .ok
        (table.append name
          (edit.editMembers table name members)) := by
  have hDefine (members : List Member) :
      table.define name members =
        .ok (table.append name members) := by
    rw [Table.define, hOpen]
    rfl
  cases edit with
  | define => exact hDefine _
  | extend => exact hDefine _
  | reduce => exact hDefine _

------------------------------------------------------------
-- Lines
------------------------------------------------------------

/-
  What a line may ask of a reading, and gets: the parts of a
  category line, the category of a name that is defined, and
  edits of the table.
-/
structure Reading.Serves
    (reading : Reading)
    (line : SourceLine) : Prop where
  parts :
    line.kind = .category →
      ∃ category, CategoryLine.read? line.text = some category
  resolve :
    ∀ name,
      (∃ category,
          reading.table.resolve name = .ok category) ∨
        reading.table.contains name = false ∧
          reading.table.resolve name =
            .error (.undefinedCategory name)
  edit :
    ∀ (edit : TableEdit) name members,
      edit.perform reading.table name members =
        .ok
          (reading.table.append name
            (edit.editMembers reading.table name members))

theorem SourceLine.category_ofRaw
    {number : Nat}
    {raw : List Char}
    (hKind : (SourceLine.ofRaw number raw).kind = .category) :
    ∃ category,
      CategoryLine.read? (SourceLine.ofRaw number raw).text =
        some category := by
  have hText :
      LineKind.ofText (SourceLine.ofRaw number raw).text =
        .category :=
    hKind
  unfold LineKind.ofText at hText
  split at hText
  · cases hText
  · cases hText
  · split at hText
    · exact Option.isSome_iff_exists.mp ‹_›
    · cases hText

namespace Reading

variable {reading next : Reading}

/- A reading whose table is open and refers to its entries. -/
structure IsOpen
    (reading : Reading) : Prop where
  table_open : reading.table.frozen = false
  names : reading.table.NamesEntries

theorem IsOpen.step
    {line : SourceLine}
    (hOpen : reading.IsOpen)
    (hStep : reading.Step line next) :
    next.IsOpen := by
  cases hStep with
  | category =>
      exact
        { table_open := hOpen.table_open
          names := hOpen.names.append _ _ }
  | skip => exact hOpen
  | define => exact ⟨hOpen.table_open, hOpen.names⟩
  | run => exact ⟨hOpen.table_open, hOpen.names⟩
  | report => exact ⟨hOpen.table_open, hOpen.names⟩
  | block => exact ⟨hOpen.table_open, hOpen.names⟩
  | store => exact ⟨hOpen.table_open, hOpen.names⟩
  | rule => exact ⟨hOpen.table_open, hOpen.names⟩

theorem IsOpen.lines
    {lines : List SourceLine}
    (hOpen : reading.IsOpen)
    (hLines : reading.lines lines = .ok next) :
    next.IsOpen :=
  lines_induction (fun _ _ => IsOpen.step) hOpen hLines

theorem IsOpen.serves
    {source : String}
    {line : SourceLine}
    (hOpen : reading.IsOpen)
    (hLine : line ∈ SourceLine.ofSource source) :
    reading.Serves line where
  parts := by
    rcases SourceLine.mem_ofRaws hLine with ⟨i, raw, _, rfl⟩
    exact SourceLine.category_ofRaw
  resolve := hOpen.names.resolve_cases
  edit := TableEdit.perform_eq_ok hOpen.table_open

end Reading

------------------------------------------------------------
-- Sources
------------------------------------------------------------

/- The reading that a source with given categories starts from. -/
def Reading.start
    (definitions : List (String × List Member))
    (graphs : List String)
    (limit : DigitLimit) : Reading where
  table := (Table.ofList definitions).copy
  graphs := graphs
  digitLimit := limit

/- A line is malformed if all of its digits are decimal. -/
theorem Place.Faults.malformed_of_decimal
    {place : Place}
    {text : List Char}
    {isToken : Token → Prop}
    {e : ReadError}
    (hFaults : place.Faults none text isToken e)
    (hDecimal :
      ∀ c ∈ text, isDigit c = true → isDecimal c = true) :
    ∃ fault, e = .malformed fault := by
  cases hFaults with
  | malformed => exact ⟨_, rfl⟩
  | notDecimal hMem hDigit hOther =>
      rw [hDecimal _ hMem hDigit] at hOther
      cases hOther
  | tooManyDigits hLong => cases hLong

/- Only a malformed source is refused if digits are decimal. -/
theorem Ruleset.malformed_of_decimal
    {table : Table}
    {graphs : List String}
    {source : String}
    {e : ReadError}
    (hDecimal :
      ∀ c ∈ source.toList,
        isDigit c = true → isDecimal c = true)
    (hRead : Ruleset.read table graphs source none = .error e) :
    ∃ fault, e = .malformed fault := by
  unfold Ruleset.read at hRead
  split at hRead
  · rename_i hLines
    cases hRead
    rcases Reading.lines_faults hLines with
      ⟨i, raw, hRaw, hFaults⟩
    refine hFaults.malformed_of_decimal fun c hMem => ?_
    have hInside :=
      (SourceLine.ofRaw_standsIn (i + 1) raw).subset hMem
    exact
      hDecimal c
        ((mem_of_mem_breakLines (List.mem_of_getElem? hRaw)
          hInside).resolve_left List.not_mem_nil)
  · unfold Reading.finish at hRead
    split at hRead
    · cases hRead
      exact ⟨_, rfl⟩
    split at hRead
    · cases hRead
      exact ⟨_, rfl⟩
    · cases hRead

/-
  A source whose digits are decimal is read as a ruleset or
  is malformed if numbers may have any length. Whatever its
  lines ask of the categories can be done.
-/
theorem Ruleset.read_outcome
    {source : String}
    (hDecimal :
      ∀ c ∈ source.toList,
        isDigit c = true → isDecimal c = true)
    (definitions : List (String × List Member))
    (graphs : List String) :
    ((∃ ruleset,
          Ruleset.read (Table.ofList definitions) graphs source
              none =
            .ok ruleset) ∨
        ∃ e,
          Ruleset.read (Table.ofList definitions) graphs source
              none =
            .error (.malformed e)) ∧
      ∀ before line after reading,
        SourceLine.ofSource source = before ++ line :: after →
          (Reading.start definitions graphs none).lines before =
              .ok reading →
            reading.Serves line := by
  constructor
  · cases hRead :
        Ruleset.read (Table.ofList definitions) graphs source
          none with
    | ok ruleset => exact Or.inl ⟨ruleset, rfl⟩
    | error e =>
        rcases Ruleset.malformed_of_decimal hDecimal hRead with
          ⟨fault, rfl⟩
        exact Or.inr ⟨fault, rfl⟩
  · intro before line after reading hSource hBefore
    have hOpen :
        (Reading.start definitions graphs none).IsOpen :=
      { table_open := rfl
        names := (Table.NamesEntries.ofList definitions).copy }
    have hLine : line ∈ SourceLine.ofSource source := by
      rw [hSource]
      simp
    exact (hOpen.lines hBefore).serves hLine

------------------------------------------------------------
-- Digits of another script
------------------------------------------------------------

/- Three in Arabic digits, and a category that is missing. -/
def arabicSource : String :=
  "V += a, [W]\n!block: \u0661\n" ++
    "a\x7b\u0663\x7d > [V]^\u0663 repeat:\u0663"

/- The same with another line, which is no rule. -/
def openSource : String :=
  arabicSource ++ "\n[V > a\x7b\u0663\x7d"

theorem arabicSource_outcome :
    (∀ source ∈ [arabicSource, openSource],
        ∀ c ∈ source.toList,
          isDigit c = true → isDecimal c = true) ∧
      (∃ ruleset,
          Ruleset.read (Table.ofList []) ["th"] arabicSource
                none =
              .ok ruleset ∧
            ruleset.items.map Item.name = ["!block: \u0661"] ∧
            ruleset.diagnostics.map Diagnostic.message =
              ["category 'W' is not defined",
                "category 'V' is not defined before '+='"]) ∧
        (∃ e,
          Ruleset.read (Table.ofList []) ["th"] openSource
                none =
              .error (.malformed e) ∧
            e.message = "Line 4, Col 0: unclosed '['") ∧
          ∀ source ∈ [arabicSource, openSource],
            ∀ before line after reading,
              SourceLine.ofSource source =
                  before ++ line :: after →
                (Reading.start [] ["th"] none).lines before =
                    .ok reading →
                  reading.Serves line := by
  have hDecimal :
      ∀ source ∈ [arabicSource, openSource],
        ∀ c ∈ source.toList,
          isDigit c = true → isDecimal c = true := by
    have hAll :
        ∀ source ∈ [arabicSource, openSource],
          source.toList.all
              (fun c => !isDigit c || isDecimal c) =
            true := by
      decide +kernel
    intro source hSource c hMem hDigit
    simpa [hDigit] using
      List.all_eq_true.mp (hAll source hSource) c hMem
  have hOutcome := fun source hSource =>
    Ruleset.read_outcome (hDecimal source hSource) [] ["th"]
  have hArabic :
      ((Ruleset.read (Table.ofList []) ["th"] arabicSource
            none).toOption.map fun ruleset =>
          (ruleset.items.map Item.name,
            ruleset.diagnostics.map Diagnostic.message)) =
        some
          (["!block: \u0661"],
            ["category 'W' is not defined",
              "category 'V' is not defined before '+='"]) := by
    decide +kernel
  have hOpen :
      (Ruleset.read (Table.ofList []) ["th"] openSource
            none).map (fun _ => ()) =
        .error
          (.malformed
            { cause := .unclosed '[', line := 4, column := 0 }) :=
    by decide +kernel
  refine
    ⟨hDecimal, ?_, ?_, fun source hSource =>
      (hOutcome source hSource).2⟩
  · rcases (hOutcome arabicSource (by simp)).1 with
      ⟨ruleset, hRead⟩ | ⟨e, hRead⟩
    · rw [hRead] at hArabic
      rcases Prod.mk.inj (Option.some.inj hArabic) with
        ⟨hItems, hReports⟩
      exact ⟨ruleset, hRead, hItems, hReports⟩
    · rw [hRead] at hArabic
      cases hArabic
  · rcases (hOutcome openSource (by simp)).1 with
      ⟨ruleset, hRead⟩ | ⟨e, hRead⟩
    · rw [hRead] at hOpen
      cases hOpen
    · rw [hRead] at hOpen
      cases hOpen
      exact ⟨_, hRead, rfl⟩

end Diachrony
