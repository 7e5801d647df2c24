import Diachrony.Proofs.Source.Places
import Diachrony.Source.RulesetText

/-
  Lines in their order.

  The text of a line stands in the raw line where its column
  says. If the lines of a source are refused then the first
  one that is refused decides, and the lines before it have
  been read. A line that is read makes one step, and what
  every step keeps is kept by all lines.

  Key definitions include:
    * `Reading.Step`
    * `Reading.Takes`

  Key theorems include:
    * `SourceLine.ofRaw_standsIn`
    * `SourceLine.trim_ofRaw`
    * `SourceLine.mem_ofRaws`
    * `SourceLine.ofRaws_append`
    * `mem_of_mem_breakLines`
    * `Reading.lines_append`
    * `Reading.lines_eq_error`
    * `Reading.line_takes`
    * `Reading.line_step`
    * `Reading.lines_keep`
    * `Reading.lines_induction`
    * `Reading.digitLimit_lines`
-/

namespace Diachrony

open Unicode

------------------------------------------------------------
-- Raw lines
------------------------------------------------------------

theorem stripComment_isPrefix
    (raw : List Char) :
    stripComment raw <+: raw := by
  fun_induction stripComment raw
  case case1 => exact List.prefix_rfl
  case case2 ih =>
    exact
      List.cons_prefix_cons.mpr
        ⟨rfl, List.cons_prefix_cons.mpr ⟨rfl, ih⟩⟩
  case case3 => exact List.nil_prefix
  case case4 ih => exact List.cons_prefix_cons.mpr ⟨rfl, ih⟩

namespace SourceLine

variable {number : Nat}
variable {raw : List Char}

/- The text of a line stands at its column. -/
theorem ofRaw_standsIn
    (number : Nat)
    (raw : List Char) :
    StandsIn raw (ofRaw number raw).column
      (ofRaw number raw).text := by
  have hCode : StandsIn raw 0 (stripComment raw) :=
    .of_isPrefix (stripComment_isPrefix raw)
  have hText :=
    hCode.trans (.of_trimLeft (trimLeft_suffix (stripComment raw)))
  rw [Nat.zero_add] at hText
  exact hText

/- The text of a line has no outer blanks. -/
theorem trim_ofRaw
    (number : Nat)
    (raw : List Char) :
    trim (ofRaw number raw).text = (ofRaw number raw).text :=
  trim_trim (stripComment raw)

theorem mem_ofRaws
    {line : SourceLine}
    {raws : List (List Char)}
    (hLine : line ∈ ofRaws number raws) :
    ∃ i raw,
      raws[i]? = some raw ∧ line = ofRaw (number + i) raw := by
  induction raws generalizing number with
  | nil => cases hLine
  | cons first rest ih =>
      rcases List.mem_cons.mp hLine with rfl | hLater
      · exact ⟨0, first, rfl, rfl⟩
      · rcases ih hLater with ⟨i, raw, hRaw, rfl⟩
        refine ⟨i + 1, raw, hRaw, ?_⟩
        rw [Nat.add_assoc, Nat.add_comm 1 i]

theorem ofRaws_append
    (number : Nat)
    (raws others : List (List Char)) :
    ofRaws number (raws ++ others) =
      ofRaws number raws ++
        ofRaws (number + raws.length) others := by
  induction raws generalizing number with
  | nil => rfl
  | cons first rest ih =>
      rw [List.cons_append, ofRaws, ih, ofRaws, List.length_cons,
        Nat.add_assoc, Nat.add_comm 1 rest.length,
        List.cons_append]

end SourceLine

/- All that is in a line is in the text. -/
theorem mem_of_mem_breakLines
    {current text raw : List Char}
    {c : Char}
    (hRaw : raw ∈ breakLines current text)
    (hMem : c ∈ raw) :
    c ∈ current ∨ c ∈ text := by
  fun_induction breakLines current text
  case case1 => cases hRaw
  case case2 =>
    obtain rfl := List.mem_singleton.mp hRaw
    exact Or.inl (List.mem_reverse.mp hMem)
  case case3 current rest ih =>
    rcases List.mem_cons.mp hRaw with rfl | hLater
    · exact Or.inl (List.mem_reverse.mp hMem)
    · rcases ih hLater with hNone | hRest
      · cases hNone
      · exact Or.inr (by simp [hRest])
  case case4 ih =>
    rcases List.mem_cons.mp hRaw with rfl | hLater
    · exact Or.inl (List.mem_reverse.mp hMem)
    · rcases ih hLater with hNone | hRest
      · cases hNone
      · exact Or.inr (List.mem_cons_of_mem _ hRest)
  case case5 ih =>
    rcases ih hRaw with hCurrent | hRest
    · rcases List.mem_cons.mp hCurrent with rfl | hBefore
      · exact Or.inr List.mem_cons_self
      · exact Or.inl hBefore
    · exact Or.inr (List.mem_cons_of_mem _ hRest)

------------------------------------------------------------
-- Reading
------------------------------------------------------------

namespace Reading

variable {reading next : Reading}

theorem lines_append
    (reading : Reading)
    (first later : List SourceLine) :
    reading.lines (first ++ later) =
      match reading.lines first with
      | .error e => .error e
      | .ok next => next.lines later := by
  induction first generalizing reading with
  | nil => rfl
  | cons line rest ih =>
      rw [List.cons_append, lines, lines]
      cases reading.line line with
      | error e => rfl
      | ok next => exact ih next

/- If lines are refused then a first one of them is. -/
theorem lines_eq_error
    {lines : List SourceLine}
    {e : ReadError}
    (hLines : reading.lines lines = .error e) :
    ∃ before line after next,
      lines = before ++ line :: after ∧
        reading.lines before = .ok next ∧
        next.line line = .error e := by
  induction lines generalizing reading with
  | nil => cases hLines
  | cons line rest ih =>
      unfold Reading.lines at hLines
      split at hLines
      · rename_i hLine
        cases hLines
        exact ⟨[], line, rest, reading, rfl, rfl, hLine⟩
      · rename_i hLine
        rcases ih hLines with
          ⟨before, other, after, next, rfl, hBefore, hOther⟩
        refine
          ⟨line :: before, other, after, next, rfl, ?_, hOther⟩
        rw [Reading.lines, hLine]
        exact hBefore

/- A category line is taken as such. -/
theorem line_of_category
    {line : SourceLine}
    {category : CategoryLine}
    (hKind : line.kind = .category)
    (hCategory :
      CategoryLine.read? line.text = some category) :
    reading.line line =
      reading.categoryLine line.place category := by
  unfold Reading.line
  simp only [hKind, hCategory]
  rfl

/- What a line can make of a reading. -/
inductive Step
    (reading : Reading)
    (line : SourceLine) : Reading → Prop
  | skip :
      Step reading line reading
  | category
      {category : CategoryLine}
      {members : List Member}
      {diagnostics : List Diagnostic}
      (hLine : CategoryLine.read? line.text = some category) :
      Step reading line
        (reading.editCategory line.place category members
          diagnostics)
  | define
      {name : String} :
      Step reading line { reading with pending := some name }
  | run
      {name : String}
      {rule : Rule}
      (hStored : reading.stored.lookup name = some rule) :
      Step reading line
        { reading with items := reading.items ++ [.rule rule] }
  | report
      {diagnostic : Diagnostic} :
      Step reading line
        { reading with
          diagnostics := reading.diagnostics ++ [diagnostic] }
  | block
      {marker : BlockMarker}
      {diagnostics : List Diagnostic}
      (hPosition : marker.position = reading.items.length)
      (hLine : marker.line = line.number)
      (hRead :
        Metarule.read reading.digitLimit line.place line.text =
          .ok (.block marker.size marker.flags diagnostics)) :
      Step reading line
        { reading with
          markers := reading.markers ++ [marker]
          diagnostics := reading.diagnostics ++ diagnostics }
  | store
      {name : String}
      {rule : Rule}
      (hPending : reading.pending = some name) :
      Step reading line
        { reading with
          diagnostics := reading.diagnostics ++ rule.diagnostics
          stored := (name, rule) :: reading.stored
          pending := none }
  | rule
      {rule : Rule}
      (hPending : reading.pending = none) :
      Step reading line
        { reading with
          diagnostics := reading.diagnostics ++ rule.diagnostics
          items := reading.items ++ [.rule rule]
          ruleCount := reading.ruleCount + 1 }

theorem runStored_step
    (reading : Reading)
    (line : SourceLine)
    (name : String) :
    reading.Step line (reading.runStored line.place name) := by
  unfold runStored
  split
  · exact .run ‹_›
  · exact .report

theorem addRule_step
    (reading : Reading)
    (line : SourceLine)
    (rule : Rule) :
    reading.Step line (reading.addRule rule) := by
  unfold addRule
  dsimp only
  split
  · exact .store ‹_›
  · exact .rule ‹_›

/-
  How a line is taken that is read. Its kind decides, and of
  a metarule what it says.
-/
inductive Takes
    (reading : Reading)
    (line : SourceLine) : Reading → Prop
  | blank
      (hKind : line.kind = .blank) :
      Takes reading line reading
  | unnamed
      (hLine : CategoryLine.read? line.text = none) :
      Takes reading line reading
  | category
      {category : CategoryLine}
      {members : List Member}
      {diagnostics : List Diagnostic}
      (hKind : line.kind = .category)
      (hLine : CategoryLine.read? line.text = some category)
      (hBody :
        readCategoryBody reading.table reading.graphs
            { line.place with
              column := line.place.column + category.offset }
            category.body =
          .ok (members, diagnostics)) :
      Takes reading line
        (reading.editCategory line.place category members
          diagnostics)
  | define
      {name : String}
      (hKind : line.kind = .metarule) :
      Takes reading line { reading with pending := some name }
  | run
      {name : String}
      (hKind : line.kind = .metarule) :
      Takes reading line (reading.runStored line.place name)
  | block
      {size : Option Nat}
      {flags : Flags}
      {diagnostics : List Diagnostic}
      (hKind : line.kind = .metarule)
      (hRead :
        Metarule.read reading.digitLimit line.place line.text =
          .ok (.block size flags diagnostics)) :
      Takes reading line
        { reading with
          markers :=
            reading.markers ++
              [ { position := reading.items.length
                  size := size
                  flags := flags
                  line := line.number
                  source := String.ofList line.text } ]
          diagnostics := reading.diagnostics ++ diagnostics }
  | rule
      {rule : Rule}
      (hKind : line.kind = .rule)
      (hRead :
        Rule.read (reading.setting line.place) line.text =
          .ok rule) :
      Takes reading line (reading.addRule rule)

theorem line_takes
    {line : SourceLine}
    (hLine : reading.line line = .ok next) :
    reading.Takes line next := by
  unfold Reading.line at hLine
  dsimp only at hLine
  split at hLine
  · cases hLine
    exact .blank ‹_›
  · split at hLine
    · cases hLine
      exact .unnamed ‹_›
    rename_i hCategory
    unfold Reading.categoryLine at hLine
    dsimp only at hLine
    split at hLine
    · cases hLine
    · rename_i hBody
      cases hLine
      exact .category ‹_› hCategory hBody
  · unfold Reading.metarule at hLine
    split at hLine
    · cases hLine
    · cases hLine
      exact .define ‹_›
    · cases hLine
      exact .run ‹_›
    · rename_i hRead
      cases hLine
      exact .block ‹_› hRead
  · unfold Reading.ruleLine at hLine
    split at hLine
    · cases hLine
    · rename_i hRead
      cases hLine
      exact .rule ‹_› hRead

theorem line_step
    {line : SourceLine}
    (hLine : reading.line line = .ok next) :
    reading.Step line next := by
  cases line_takes hLine with
  | blank | unnamed => exact .skip
  | category _ hCategory => exact .category hCategory
  | define => exact .define
  | run => exact reading.runStored_step line _
  | block _ hRead => exact .block rfl rfl hRead
  | rule => exact reading.addRule_step line _

/- What holds after every line that is read holds after all. -/
theorem lines_keep
    {P : Reading → Prop}
    {lines : List SourceLine}
    (hLine :
      ∀ line ∈ lines,
        ∀ {reading next : Reading},
          P reading →
            reading.line line = .ok next → P next)
    (hReading : P reading)
    (hLines : reading.lines lines = .ok next) :
    P next := by
  induction lines generalizing reading with
  | nil =>
      cases hLines
      exact hReading
  | cons line rest ih =>
      unfold Reading.lines at hLines
      split at hLines
      · cases hLines
      rename_i hNext
      rcases List.forall_mem_cons.mp hLine with ⟨hFirst, hRest⟩
      exact ih hRest (hFirst hReading hNext) hLines

/- What every step keeps is kept by all lines. -/
theorem lines_induction
    {P : Reading → Prop}
    {lines : List SourceLine}
    (hStep :
      ∀ line ∈ lines,
        ∀ {reading next : Reading},
          P reading →
            reading.Step line next → P next)
    (hReading : P reading)
    (hLines : reading.lines lines = .ok next) :
    P next :=
  lines_keep
    (fun line hMem _ _ hBefore hLine =>
      hStep line hMem hBefore (line_step hLine))
    hReading hLines

theorem Step.digitLimit_eq
    {line : SourceLine}
    (hStep : reading.Step line next) :
    next.digitLimit = reading.digitLimit := by
  cases hStep <;> rfl

/- The limit on digits stays as it is. -/
theorem digitLimit_lines
    {lines : List SourceLine}
    (hLines : reading.lines lines = .ok next) :
    next.digitLimit = reading.digitLimit := by
  refine
    lines_induction
      (P := fun other =>
        other.digitLimit = reading.digitLimit)
      ?_ rfl hLines
  intro line _ other after hOther hStep
  rw [hStep.digitLimit_eq, hOther]

end Reading

end Diachrony
