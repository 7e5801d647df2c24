import Diachrony.Proofs.Category.Tables
import Diachrony.Proofs.Source.EmptyMembers
import Diachrony.Proofs.Source.Extension
import Diachrony.Proofs.Source.NamedTargets

/-
  The latest edits of names.

  Every category line adds an entry to the table and lets
  its name stand for that. So behind any lines a name stands
  for the entry of the latest line that edits it, and a rule
  whose target is the name refers to exactly this entry.

  Key definitions include:
    * `SourceLine.Edits`
    * `Reading.Produces`

  Key theorems include:
    * `Reading.exists_produces`
    * `Reading.target_of_latest_edit`
-/

namespace Diachrony

open Unicode

------------------------------------------------------------
-- Lines
------------------------------------------------------------

/- A category line for a certain name. -/
def SourceLine.Edits
    (line : SourceLine)
    (name : List Char) : Prop :=
  line.kind = .category ∧
    ∃ category ∈ CategoryLine.read? line.text,
      category.name = name

instance
    (line : SourceLine)
    (name : List Char) :
    Decidable (line.Edits name) := by
  unfold SourceLine.Edits
  infer_instance

/-
  The entry that the latest edit of a name among some lines
  adds to the table. No line behind it edits the name.
-/
inductive Reading.Produces
    (reading : Reading)
    (name : List Char) :
    List SourceLine → Category → Prop
  | latest
      {before later : List SourceLine}
      {line : SourceLine}
      {taken produced : Reading}
      {category : Category}
      (hBefore : reading.lines before = .ok taken)
      (hLine : taken.line line = .ok produced)
      (hEdits : line.Edits name)
      (hEntries :
        produced.table.entries =
          taken.table.entries ++ [category])
      (hName : category.name = String.ofList name)
      (hLater : ∀ other ∈ later, ¬other.Edits name) :
      Produces reading name (before ++ line :: later) category

section Lines

variable {reading next : Reading}
variable {line : SourceLine}
variable {lines : List SourceLine}
variable {name : List Char}
variable {category : Category}

theorem SourceLine.Edits.isName
    (hEdits : line.Edits name) :
    isName name = true := by
  rcases hEdits.2 with ⟨category, hRead, rfl⟩
  unfold CategoryLine.read? at hRead
  dsimp only at hRead
  split at hRead
  · cases hRead
  rename_i hSome
  split at hRead
  · cases hRead
  cases hRead
  refine isName_iff.mpr ⟨?_, ?_⟩
  · simpa using hSome
  · exact fun c hMem => List.mem_takeWhile_imp hMem

/- An edit of a name adds the entry that it stands for. -/
theorem Reading.line_edits
    (hEdits : line.Edits name)
    (hLine : reading.line line = .ok next) :
    ∃ category,
      next.table.entries = reading.table.entries ++ [category] ∧
        category.name = String.ofList name ∧
        next.table.resolve? (String.ofList name) =
          some category := by
  rcases hEdits with ⟨hKind, category, hRead, rfl⟩
  cases line_takes hLine with
  | category _ hCategory hBody =>
      cases hCategory.symm.trans hRead
      exact ⟨_, rfl, rfl, Table.resolve?_append _ _ _⟩
  | unnamed hNone => cases hNone.symm.trans hRead
  | blank hOther | define hOther | run hOther
  | block hOther | rule hOther => cases hOther.symm.trans hKind

/- A line that does not edit a name leaves what it stands for. -/
theorem Reading.line_keeps
    (hEdits : ¬line.Edits name)
    (hResolve :
      reading.table.resolve? (String.ofList name) =
        some category)
    (hLine : reading.line line = .ok next) :
    next.table.resolve? (String.ofList name) =
      some category := by
  have hTakes := line_takes hLine
  by_cases hKind : line.kind = .category
  · cases hTakes with
    | @category other _ _ _ hCategory hBody =>
        have hOther :
            String.ofList other.name ≠ String.ofList name :=
          fun hSame =>
            hEdits
              ⟨hKind, other, hCategory,
                String.ofList_injective hSame⟩
        exact Table.resolve?_append_other hOther hResolve _
    | unnamed => exact hResolve
    | blank hOther | define hOther | run hOther
    | block hOther | rule hOther =>
        cases hOther.symm.trans hKind
  · rw [hTakes.table_eq hKind]
    exact hResolve

/-
  A name that is edited stands for the entry of its latest
  edit.
-/
theorem Reading.exists_produces
    (hLines : reading.lines lines = .ok next)
    (hEdit : ∃ line ∈ lines, line.Edits name) :
    ∃ category,
      reading.Produces name lines category ∧
        next.table.resolve? (String.ofList name) =
          some category := by
  induction lines using List.reverseRecOn generalizing next with
  | nil =>
      rcases hEdit with ⟨_, hNone, _⟩
      cases hNone
  | append_singleton lines line ih =>
      rw [lines_append] at hLines
      split at hLines
      · cases hLines
      rename_i taken hBefore
      have hLine : taken.line line = .ok next := by
        unfold Reading.lines at hLines
        split at hLines
        · cases hLines
        · cases hLines
          assumption
      by_cases hHere : line.Edits name
      · rcases line_edits hHere hLine with
          ⟨category, hEntries, hName, hResolve⟩
        exact
          ⟨category,
            .latest hBefore hLine hHere hEntries hName
              (List.forall_mem_nil _),
            hResolve⟩
      · rcases hEdit with ⟨edit, hMem, hEdits⟩
        have hEarlier : edit ∈ lines := by
          rcases List.mem_append.mp hMem with hBefore | hLast
          · exact hBefore
          · rw [List.mem_singleton.mp hLast] at hEdits
            exact absurd hEdits hHere
        rcases ih hBefore ⟨edit, hEarlier, hEdits⟩ with
          ⟨category, hProduces, hResolve⟩
        refine ⟨category, ?_, line_keeps hHere hResolve hLine⟩
        cases hProduces with
        | latest hFirst hEdit hEdits hEntries hName hLater =>
            rw [List.append_assoc, List.cons_append]
            refine .latest hFirst hEdit hEdits hEntries hName ?_
            exact
              List.forall_mem_append.mpr
                ⟨hLater, List.forall_mem_singleton.mpr hHere⟩

end Lines

------------------------------------------------------------
-- Rules
------------------------------------------------------------

section Rules

variable {reading current next : Reading}
variable {earlier : List SourceLine}
variable {line : SourceLine}
variable {name rest : List Char}

/- A rule line is read if its rule is, and adds it. -/
theorem Reading.lines_rule_iff
    (hLines : reading.lines earlier = .ok current)
    (hKind : line.kind = .rule) :
    reading.lines (earlier ++ [line]) = .ok next ↔
      ∃ rule,
        Rule.read (current.setting line.place) line.text =
            .ok rule ∧
          next = current.addRule rule := by
  have hLine :
      current.line line =
        current.ruleLine line.place line.text := by
    unfold Reading.line
    simp only [hKind]
    rfl
  rw [lines_append, hLines]
  dsimp only
  rw [Reading.lines, hLine, ruleLine]
  cases Rule.read (current.setting line.place) line.text with
  | error e => simp
  | ok rule => simp [Reading.lines, eq_comm]

/-
  A name that some line edits can be the target of any later
  rule, if it has no underscore and empty brackets could be
  the target as well. The target refers to the entry of the
  latest edit of the name. A name with an underscore can
  never be a target.
-/
theorem Reading.target_of_latest_edit
    (hLines : reading.lines earlier = .ok current)
    (hEdit : ∃ edit ∈ earlier, edit.Edits name)
    (hKind : line.kind = .rule)
    (hText : line.text = namedText name rest) :
    ∃ category,
      reading.Produces name earlier category ∧
        current.table.resolve? (String.ofList name) =
          some category ∧
        ((∃ next, reading.lines (earlier ++ [line]) = .ok next) ↔
          '_' ∉ name ∧
            ∃ empty,
              Rule.read (current.setting line.place)
                  (namedText [] rest) =
                .ok empty) ∧
        ∀ next,
          reading.lines (earlier ++ [line]) = .ok next →
            ∃ rule,
              next = current.addRule rule ∧
                rule.branches =
                  [namedBranch category name] := by
  rcases exists_produces hLines hEdit with
    ⟨category, hProduces, hResolve⟩
  rcases hEdit with ⟨edit, _, hEdits⟩
  rcases
    @Rule.read_named (current.setting line.place) name rest
      category hEdits.isName hResolve with
    ⟨hReads, hBranches⟩
  refine ⟨category, hProduces, hResolve, ?_, ?_⟩
  · simp only [lines_rule_iff hLines hKind, hText]
    rw [← hReads]
    constructor
    · rintro ⟨_, rule, hRule, _⟩
      exact ⟨rule, hRule⟩
    · rintro ⟨rule, hRule⟩
      exact ⟨_, rule, hRule, rfl⟩
  · intro next hNext
    rcases (lines_rule_iff hLines hKind).mp hNext with
      ⟨rule, hRule, hAdded⟩
    rw [hText] at hRule
    exact ⟨rule, hAdded, hBranches rule hRule⟩

/- Lines that edit two names in turn. -/
def vowelEdits : List SourceLine :=
  SourceLine.ofSource "V = a\nW = o\nV += e\nW += u"

/- A rule behind them. -/
def vowelUse : SourceLine :=
  SourceLine.ofRaw 5 "[V] > x / [W]_ rtl".toList

def emptyReading : Reading where
  table := {}
  graphs := []

theorem vowelUse_named :
    (∃ edit ∈ vowelEdits, edit.Edits ['V']) ∧
      vowelUse.kind = .rule ∧
      vowelUse.text =
        namedText ['V'] " x / [W]_ rtl".toList ∧
      ∃ current rule,
        emptyReading.lines vowelEdits = .ok current ∧
          emptyReading.lines (vowelEdits ++ [vowelUse]) =
            .ok (current.addRule rule) ∧
          rule.branches =
            [namedBranch
              { name := "V"
                members := [[.symbol "a"], [.symbol "e"]]
                index := 2 }
              ['V']] := by
  have hEdit : ∃ edit ∈ vowelEdits, edit.Edits ['V'] := by
    decide +kernel
  have hKind : vowelUse.kind = .rule := by decide +kernel
  have hText :
      vowelUse.text =
        namedText ['V'] " x / [W]_ rtl".toList := by
    decide +kernel
  have hRead :
      (emptyReading.lines (vowelEdits ++ [vowelUse])).isOk =
        true := by
    decide +kernel
  have hEntry :
      (emptyReading.lines vowelEdits).toOption.bind
          (fun current => current.table.resolve? "V") =
        some
          { name := "V"
            members := [[.symbol "a"], [.symbol "e"]]
            index := 2 } := by
    decide +kernel
  rcases hLines : emptyReading.lines vowelEdits with
    _ | current
  · rw [hLines] at hEntry
    cases hEntry
  rw [hLines] at hEntry
  rcases Reading.target_of_latest_edit hLines hEdit hKind hText with
    ⟨category, _, hResolve, _, hRules⟩
  cases hNext : emptyReading.lines (vowelEdits ++ [vowelUse]) with
  | error e =>
      rw [hNext] at hRead
      cases hRead
  | ok next =>
      rcases hRules next hNext with ⟨rule, rfl, hBranches⟩
      cases hResolve.symm.trans hEntry
      exact
        ⟨hEdit, hKind, hText, current, rule, rfl, rfl, hBranches⟩

/- A source with a name that has an underscore. -/
def underscoreLines : List SourceLine :=
  SourceLine.ofSource "a_b = x"

def underscoreRule : SourceLine :=
  SourceLine.ofRaw 2 "[a_b] > y".toList

/- The name is taken by its line and refused in the rule. -/
theorem underscoreRule_refused :
    (∃ edit ∈ underscoreLines, edit.Edits "a_b".toList) ∧
      underscoreRule.kind = .rule ∧
      underscoreRule.text =
        namedText "a_b".toList " y".toList ∧
      ∃ current,
        emptyReading.lines underscoreLines = .ok current ∧
          (Rule.read (current.setting underscoreRule.place)
              (namedText [] " y".toList)).isOk =
            true ∧
          (emptyReading.lines
              (underscoreLines ++ [underscoreRule])).isOk =
            false := by
  refine
    ⟨by decide +kernel, by decide +kernel, by decide +kernel, ?_⟩
  have hRead :
      ((emptyReading.lines underscoreLines).toOption.any
        fun current =>
          (Rule.read (current.setting underscoreRule.place)
            (namedText [] " y".toList)).isOk) =
        true := by
    decide +kernel
  cases hLines : emptyReading.lines underscoreLines with
  | error e =>
      rw [hLines] at hRead
      cases hRead
  | ok current =>
      rw [hLines] at hRead
      exact ⟨current, rfl, hRead, by decide +kernel⟩

end Rules

end Diachrony
