import Diachrony.Proofs.Source.Lines

/-
  What becomes of a definition.

  A definition is a line that gives a name to the next rule.
  It waits for that rule. If the rule comes first, it is
  stored under the name and can be inserted behind it until
  the name is defined again. If another definition comes
  first, it takes the place of the one that waits. If nothing
  comes, the source is refused.

  Key definitions include:
    * `SourceLine.Defines`
    * `SourceLine.Inserts`
    * `SourceLine.EndsWait`
    * `Reading.Resolves`

  Key theorems include:
    * `Reading.line_cases`
    * `Reading.Holds.inserts`
    * `Ruleset.definition_resolved`
-/

namespace Diachrony

open Unicode

------------------------------------------------------------
-- Lines
------------------------------------------------------------

/- A metarule line of a kind that is given one name. -/
def SourceLine.Gives
    (line : SourceLine)
    (kind name : String) : Prop :=
  line.kind = .metarule ∧
    ∃ parts ∈ MetaruleLine.read? line.text,
      parts.name = kind ∧ parts.oneName line.place = .ok name

instance
    (line : SourceLine)
    (kind name : String) :
    Decidable (line.Gives kind name) := by
  unfold SourceLine.Gives
  infer_instance

/- A line that defines a name. -/
def SourceLine.Defines
    (line : SourceLine)
    (name : String) : Prop :=
  line.Gives "def" name

/- A line that inserts the rule of a name. -/
def SourceLine.Inserts
    (line : SourceLine)
    (name : String) : Prop :=
  line.Gives "rule" name

instance
    (line : SourceLine)
    (name : String) :
    Decidable (line.Defines name) :=
  inferInstanceAs (Decidable (line.Gives "def" name))

instance
    (line : SourceLine)
    (name : String) :
    Decidable (line.Inserts name) :=
  inferInstanceAs (Decidable (line.Gives "rule" name))

/- A line after which no earlier definition waits any more. -/
def SourceLine.EndsWait
    (line : SourceLine) : Prop :=
  line.kind = .rule ∨ ∃ name, line.Defines name

section Lines

variable {reading next : Reading}
variable {line : SourceLine}
variable {limit : DigitLimit}
variable {name : String}

theorem SourceLine.Defines.read_eq
    (hDefines : line.Defines name)
    (limit : DigitLimit) :
    Metarule.read limit line.place line.text =
      .ok (.store name) := by
  rcases hDefines.2 with ⟨parts, hParts, hKind, hName⟩
  rw [Metarule.read, Option.mem_def.mp hParts]
  dsimp only
  rw [Metarule.ofLine, if_pos hKind, hName]

theorem SourceLine.Inserts.read_eq
    (hInserts : line.Inserts name)
    (limit : DigitLimit) :
    Metarule.read limit line.place line.text =
      .ok (.run name) := by
  rcases hInserts.2 with ⟨parts, hParts, hKind, hName⟩
  have hOther : parts.name ≠ "def" := by
    rw [hKind]
    decide
  rw [Metarule.read, Option.mem_def.mp hParts]
  dsimp only
  rw [Metarule.ofLine, if_neg hOther, if_pos hKind, hName]

/- Only a definition asks for a rule to be stored. -/
theorem SourceLine.Defines.of_read
    (hKind : line.kind = .metarule)
    (hRead :
      Metarule.read limit line.place line.text =
        .ok (.store name)) :
    line.Defines name := by
  unfold Metarule.read at hRead
  split at hRead
  · cases hRead
  rename_i parts hParts
  unfold Metarule.ofLine at hRead
  split at hRead
  · rename_i hDef
    split at hRead
    · cases hRead
    · rename_i hName
      cases hRead
      exact ⟨hKind, parts, hParts, hDef, hName⟩
  split at hRead
  · split at hRead <;> cases hRead
  split at hRead
  · unfold MetaruleLine.block at hRead
    split at hRead
    · cases hRead
    split at hRead <;> cases hRead
  · cases hRead

theorem Reading.line_of_metarule
    (hKind : line.kind = .metarule) :
    reading.line line =
      reading.metarule line.place line.text := by
  unfold Reading.line
  simp only [hKind]
  rfl

theorem Reading.line_defines
    (hDefines : line.Defines name) :
    reading.line line =
      .ok { reading with pending := some name } := by
  rw [line_of_metarule hDefines.1, metarule, hDefines.read_eq]

theorem Reading.line_inserts
    (hInserts : line.Inserts name) :
    reading.line line =
      .ok (reading.runStored line.place name) := by
  rw [line_of_metarule hInserts.1, metarule, hInserts.read_eq]

/-
  A line is a definition, or it is a rule, or it leaves both
  what waits and what is stored as it is.
-/
theorem Reading.line_cases
    (hLine : reading.line line = .ok next) :
    (∃ name,
        line.Defines name ∧
          next = { reading with pending := some name }) ∨
      (line.kind = .rule ∧
        ∃ rule,
          Rule.read (reading.setting line.place) line.text =
              .ok rule ∧
            next = reading.addRule rule) ∨
      (¬line.EndsWait ∧ next.pending = reading.pending ∧
        next.stored = reading.stored) := by
  by_cases hDefines : ∃ name, line.Defines name
  · rcases hDefines with ⟨name, hDefines⟩
    rw [line_defines hDefines] at hLine
    cases hLine
    exact .inl ⟨name, hDefines, rfl⟩
  have hIdle : line.kind ≠ .rule → ¬line.EndsWait :=
    fun hKind hEnds => hEnds.elim hKind hDefines
  cases hKind : line.kind with
  | blank =>
      unfold Reading.line at hLine
      simp only [hKind] at hLine
      cases hLine
      exact .inr (.inr ⟨hIdle (by simp [hKind]), rfl, rfl⟩)
  | category =>
      refine .inr (.inr ⟨hIdle (by simp [hKind]), ?_⟩)
      cases line_takes hLine with
      | blank | unnamed | category => exact ⟨rfl, rfl⟩
      | define hOther | run hOther | block hOther
      | rule hOther => cases hOther.symm.trans hKind
  | metarule =>
      refine .inr (.inr ⟨hIdle (by simp [hKind]), ?_⟩)
      rw [line_of_metarule hKind, metarule] at hLine
      split at hLine
      · cases hLine
      · rename_i hRead
        exact absurd ⟨_, .of_read hKind hRead⟩ hDefines
      · cases hLine
        unfold runStored
        split <;> exact ⟨rfl, rfl⟩
      · cases hLine
        exact ⟨rfl, rfl⟩
  | rule =>
      unfold Reading.line at hLine
      simp only [hKind, ruleLine] at hLine
      split at hLine
      · cases hLine
      · rename_i hRead
        cases hLine
        exact .inr (.inl ⟨rfl, _, hRead, rfl⟩)

------------------------------------------------------------
-- Stored rules
------------------------------------------------------------

/- A rule that is stored under a name, which is not waiting. -/
structure Reading.Holds
    (reading : Reading)
    (name : String)
    (rule : Rule) : Prop where
  lookup_eq : reading.stored.lookup name = some rule
  pending_ne : reading.pending ≠ some name

/- Only a definition of the name can change what it holds. -/
theorem Reading.Holds.keep
    {rule : Rule}
    (hHolds : reading.Holds name rule)
    (hOther : ¬line.Defines name)
    (hLine : reading.line line = .ok next) :
    next.Holds name rule := by
  rcases line_cases hLine with
    ⟨other, hDefines, rfl⟩ | ⟨_, added, _, rfl⟩ |
      ⟨_, hPending, hStored⟩
  · refine ⟨hHolds.lookup_eq, fun hSame => hOther ?_⟩
    cases hSame
    exact hDefines
  · unfold addRule
    dsimp only
    split
    · rename_i waiting hPending
      have hWaiting : (name == waiting) = false :=
        beq_false_of_ne fun hSame =>
          hHolds.pending_ne (hSame ▸ hPending)
      refine ⟨?_, nofun⟩
      rw [List.lookup_cons, hWaiting]
      exact hHolds.lookup_eq
    · rename_i hPending
      exact ⟨hHolds.lookup_eq, by simp [hPending]⟩
  · refine ⟨?_, ?_⟩
    · rw [hStored]
      exact hHolds.lookup_eq
    · rw [hPending]
      exact hHolds.pending_ne

/-
  What a name holds is inserted wherever that is asked for,
  until the name is defined again.
-/
theorem Reading.Holds.inserts
    {rule : Rule}
    {last : Reading}
    {middle rest : List SourceLine}
    (hHolds : reading.Holds name rule)
    (hLines : reading.lines (middle ++ line :: rest) = .ok last)
    (hInserts : line.Inserts name)
    (hMiddle : ∀ other ∈ middle, ¬other.Defines name) :
    ∃ found,
      reading.lines middle = .ok found ∧
        found.line line =
          .ok
            { found with items := found.items ++ [.rule rule] } := by
  rw [lines_append] at hLines
  split at hLines
  · cases hLines
  rename_i found hFound
  have hKept : found.Holds name rule :=
    lines_keep (P := fun other => other.Holds name rule)
      (fun other hMem _ _ hHolds hLine =>
        hHolds.keep (hMiddle other hMem) hLine)
      hHolds hFound
  refine ⟨found, hFound, ?_⟩
  rw [line_inserts hInserts, runStored, hKept.lookup_eq]

------------------------------------------------------------
-- Definitions
------------------------------------------------------------

/-
  What becomes of a name that waits before the lines that
  follow, up to the first of them that ends the wait. Either
  this is a rule, which is stored under the name instead of
  being added to the items and is inserted behind it until
  the next definition of the name. Or it is a definition, and
  then nothing has been stored.
-/
inductive Reading.Resolves
    (reading : Reading)
    (name : String) : List SourceLine → Prop
  | stored
      {between later : List SourceLine}
      {line : SourceLine}
      {reached next : Reading}
      {rule : Rule}
      (hBetween : ∀ other ∈ between, ¬other.EndsWait)
      (hReached : reading.lines between = .ok reached)
      (hKind : line.kind = .rule)
      (hRule :
        Rule.read (reached.setting line.place) line.text =
          .ok rule)
      (hLine : reached.line line = .ok next)
      (hStored : next.stored = (name, rule) :: reading.stored)
      (hItems : next.items = reached.items)
      (hInserted :
        ∀ middle insertion rest,
          later = middle ++ insertion :: rest →
            insertion.Inserts name →
              (∀ other ∈ middle, ¬other.Defines name) →
                ∃ found,
                  next.lines middle = .ok found ∧
                    found.line insertion =
                      .ok
                        { found with
                          items := found.items ++ [.rule rule] }) :
      Resolves reading name (between ++ line :: later)
  | replaced
      {between later : List SourceLine}
      {line : SourceLine}
      {reached : Reading}
      {other : String}
      (hBetween : ∀ other ∈ between, ¬other.EndsWait)
      (hReached : reading.lines between = .ok reached)
      (hDefines : line.Defines other)
      (hLine :
        reached.line line =
          .ok { reached with pending := some other })
      (hStored : reached.stored = reading.stored) :
      Resolves reading name (between ++ line :: later)

/- A line that does not end the wait can be put in front. -/
theorem Reading.Resolves.wait
    {lines : List SourceLine}
    (hIdle : ¬line.EndsWait)
    (hLine : reading.line line = .ok next)
    (hStored : next.stored = reading.stored)
    (hNext : next.Resolves name lines) :
    reading.Resolves name (line :: lines) := by
  have hLines : ∀ between,
      reading.lines (line :: between) = next.lines between := by
    intro between
    rw [Reading.lines, hLine]
  cases hNext with
  | stored hBetween hReached hKind hRule hTaken hAdded hItems
      hInserted =>
      rw [hStored] at hAdded
      rw [← List.cons_append]
      exact
        .stored (List.forall_mem_cons.mpr ⟨hIdle, hBetween⟩)
          ((hLines _).trans hReached) hKind hRule hTaken hAdded
          hItems hInserted
  | replaced hBetween hReached hDefines hTaken hSame =>
      rw [hStored] at hSame
      rw [← List.cons_append]
      exact
        .replaced (List.forall_mem_cons.mpr ⟨hIdle, hBetween⟩)
          ((hLines _).trans hReached) hDefines hTaken hSame

/- A name does not wait forever if the lines are read to the end. -/
theorem Reading.resolves
    {lines : List SourceLine}
    {last : Reading}
    (hPending : reading.pending = some name)
    (hLines : reading.lines lines = .ok last)
    (hLast : last.pending = none) :
    reading.Resolves name lines := by
  induction lines generalizing reading with
  | nil =>
      cases hLines
      cases hPending.symm.trans hLast
  | cons line later ih =>
      unfold Reading.lines at hLines
      split at hLines
      · cases hLines
      rename_i next hLine
      rcases line_cases hLine with
        ⟨other, hDefines, rfl⟩ | ⟨hKind, rule, hRule, rfl⟩ |
          ⟨hIdle, hSame, hStored⟩
      · exact
          .replaced (List.forall_mem_nil _) rfl hDefines hLine rfl
      · have hAdded :
            reading.addRule rule =
              { reading with
                diagnostics :=
                  reading.diagnostics ++ rule.diagnostics
                stored := (name, rule) :: reading.stored
                pending := none } := by
          rw [addRule, hPending]
        have hHolds : (reading.addRule rule).Holds name rule := by
          rw [hAdded]
          exact ⟨List.lookup_cons_self, nofun⟩
        refine
          .stored (List.forall_mem_nil _) rfl hKind hRule hLine
            ?_ ?_ ?_
        · rw [hAdded]
        · rw [hAdded]
        · rintro middle insertion rest rfl hInserts hMiddle
          exact hHolds.inserts hLines hInserts hMiddle
      · exact
          (ih (hSame.trans hPending) hLines).wait hIdle hLine
            hStored

/- Lines that do not end the wait leave the name waiting. -/
theorem Reading.pending_lines
    {lines : List SourceLine}
    (hPending : reading.pending = some name)
    (hIdle : ∀ line ∈ lines, ¬line.EndsWait)
    (hLines : reading.lines lines = .ok next) :
    next.pending = some name := by
  refine
    lines_keep (P := fun other => other.pending = some name)
      (fun line hMem other after hWaits hLine => ?_) hPending
      hLines
  rcases line_cases hLine with
    ⟨_, hDefines, _⟩ | ⟨hKind, _⟩ | ⟨_, hSame, _⟩
  · exact absurd (.inr ⟨_, hDefines⟩) (hIdle line hMem)
  · exact absurd (.inl hKind) (hIdle line hMem)
  · exact hSame.trans hWaits

end Lines

------------------------------------------------------------
-- Sources
------------------------------------------------------------

/- The reading that a source starts from. -/
def Reading.initial
    (table : Table)
    (graphs : List String)
    (limit : DigitLimit) : Reading where
  table := table.copy
  graphs := graphs
  digitLimit := limit

theorem Ruleset.read_eq
    (table : Table)
    (graphs : List String)
    (source : String)
    (limit : DigitLimit) :
    Ruleset.read table graphs source limit =
      match
        (Reading.initial table graphs limit).lines
          (SourceLine.ofSource source)
      with
      | .error e => .error e
      | .ok reading => reading.finish :=
  rfl

/-
  Lines are read up to a definition, and from there on with
  its name waiting.
-/
theorem Reading.exists_defined
    {before after : List SourceLine}
    {line : SourceLine}
    {name : String}
    {first last : Reading}
    (hDefines : line.Defines name)
    (hLines :
      first.lines ((before ++ [line]) ++ after) = .ok last) :
    ∃ defined,
      first.lines (before ++ [line]) = .ok defined ∧
        defined.pending = some name ∧
        defined.lines after = .ok last := by
  rw [lines_append] at hLines
  split at hLines
  · cases hLines
  rename_i defined hFront
  refine ⟨defined, hFront, ?_, hLines⟩
  rw [lines_append] at hFront
  split at hFront
  · cases hFront
  rw [lines, line_defines hDefines] at hFront
  cases hFront
  rfl

/-
  In a source that is read every definition is resolved. A
  source with a definition that neither a rule nor another
  definition follows is refused, and if all of its lines can
  be read then for this definition.
-/
theorem Ruleset.definition_resolved
    {source : String}
    {before after : List SourceLine}
    {line : SourceLine}
    {name : String}
    (hSource :
      SourceLine.ofSource source = before ++ line :: after)
    (hDefines : line.Defines name)
    (table : Table)
    (graphs : List String)
    (limit : DigitLimit) :
    (∀ ruleset,
        Ruleset.read table graphs source limit = .ok ruleset →
          ∃ defined,
            (Reading.initial table graphs limit).lines
                (before ++ [line]) =
              .ok defined ∧
            defined.Resolves name after) ∧
      ((∀ other ∈ after, ¬other.EndsWait) →
        (∃ e,
            Ruleset.read table graphs source limit =
              .error e) ∧
          ∀ last,
            (Reading.initial table graphs limit).lines
                (SourceLine.ofSource source) =
              .ok last →
            Ruleset.read table graphs source limit =
              .error (.at (.danglingDefinition name) 0 0)) := by
  have hParts :
      SourceLine.ofSource source = (before ++ [line]) ++ after := by
    rw [hSource, List.append_assoc]
    rfl
  have hDangling : (∀ other ∈ after, ¬other.EndsWait) →
      ∀ last,
        (Reading.initial table graphs limit).lines
            (SourceLine.ofSource source) =
          .ok last →
        Ruleset.read table graphs source limit =
          .error (.at (.danglingDefinition name) 0 0) := by
    intro hIdle last hLast
    rw [Ruleset.read_eq, hLast]
    rw [hParts] at hLast
    rcases Reading.exists_defined hDefines hLast with
      ⟨defined, _, hPending, hLines⟩
    dsimp only
    rw [Reading.finish,
      Reading.pending_lines hPending hIdle hLines]
  refine
    ⟨fun ruleset hRead => ?_,
      fun hIdle => ⟨?_, hDangling hIdle⟩⟩
  · rw [Ruleset.read_eq] at hRead
    split at hRead
    · cases hRead
    rename_i last hLast
    rw [hParts] at hLast
    rcases Reading.exists_defined hDefines hLast with
      ⟨defined, hFront, hPending, hLines⟩
    refine ⟨defined, hFront, Reading.resolves hPending hLines ?_⟩
    unfold Reading.finish at hRead
    split at hRead
    · cases hRead
    · assumption
  · cases hLast :
        (Reading.initial table graphs limit).lines
          (SourceLine.ofSource source) with
    | error e => exact ⟨e, by rw [Ruleset.read_eq, hLast]⟩
    | ok last => exact ⟨_, hDangling hIdle last hLast⟩

/- A definition whose rule comes after a category line. -/
def voicedSource : String :=
  "!def: voice\nV = a, e\np > b\n[V] > o\n!rule: voice"

/-
  The rule is stored, so that of the two items only the last
  one is this rule.
-/
theorem voicedSource_resolved :
    ∃ line after ruleset defined,
      SourceLine.ofSource voicedSource = [] ++ line :: after ∧
        line.Defines "voice" ∧
        Ruleset.read {} [] voicedSource = .ok ruleset ∧
        (Items.rules ruleset.items).map Rule.source =
          ["[V] > o", "p > b"] ∧
        (Reading.initial {} [] .standard).lines ([] ++ [line]) =
          .ok defined ∧
        defined.Resolves "voice" after := by
  have hRead :
      ((Ruleset.read {} [] voicedSource).toOption.map
          fun ruleset =>
            (Items.rules ruleset.items).map Rule.source) =
        some ["[V] > o", "p > b"] := by
    decide +kernel
  cases hRuleset : Ruleset.read {} [] voicedSource with
  | error e =>
      rw [hRuleset] at hRead
      cases hRead
  | ok ruleset =>
      rw [hRuleset] at hRead
      have hSource :
          SourceLine.ofSource voicedSource =
            [] ++ SourceLine.ofRaw 1 "!def: voice".toList ::
              (SourceLine.ofSource voicedSource).tail := by
        decide +kernel
      have hDefines :
          (SourceLine.ofRaw 1 "!def: voice".toList).Defines
            "voice" := by
        decide +kernel
      rcases
        (Ruleset.definition_resolved hSource hDefines {} []
          .standard).1 ruleset hRuleset with
        ⟨defined, hLines, hResolves⟩
      exact
        ⟨_, _, ruleset, defined, hSource, hDefines, rfl,
          Option.some.inj hRead, hLines, hResolves⟩

/- Two definitions before a rule. -/
def replacedSource : String :=
  "!def: a\n!def: b\nx > y\n!rule: a"

/-
  The first definition is lost without notice. Its name is
  not known where its rule is to be inserted.
-/
theorem replacedSource_lost :
    ∃ first second rest ruleset,
      SourceLine.ofSource replacedSource =
          first :: second :: rest ∧
        first.Defines "a" ∧ second.Defines "b" ∧
        Ruleset.read {} [] replacedSource = .ok ruleset ∧
        ruleset.items = [] ∧
        ruleset.diagnostics.map Diagnostic.problem =
          [.undefinedRule "a"] ∧
        ∀ last,
          (Reading.initial {} [] .standard).lines
              (SourceLine.ofSource replacedSource) =
            .ok last →
          last.stored.map Prod.fst = ["b"] := by
  have hRead :
      ((Ruleset.read {} [] replacedSource).toOption.map
          fun ruleset =>
            (ruleset.items.length,
              ruleset.diagnostics.map Diagnostic.problem)) =
        some (0, [.undefinedRule "a"]) := by
    decide +kernel
  have hStored :
      (((Reading.initial {} [] .standard).lines
            (SourceLine.ofSource replacedSource)).toOption.map
          fun last => last.stored.map Prod.fst) =
        some ["b"] := by
    decide +kernel
  cases hRuleset : Ruleset.read {} [] replacedSource with
  | error e =>
      rw [hRuleset] at hRead
      cases hRead
  | ok ruleset =>
      rw [hRuleset] at hRead
      rcases Prod.mk.inj (Option.some.inj hRead) with
        ⟨hItems, hDiagnostics⟩
      refine
        ⟨SourceLine.ofRaw 1 "!def: a".toList,
          SourceLine.ofRaw 2 "!def: b".toList,
          (SourceLine.ofSource replacedSource).drop 2, ruleset,
          by decide +kernel, by decide +kernel,
          by decide +kernel, rfl,
          List.length_eq_zero_iff.mp hItems, hDiagnostics, ?_⟩
      intro last hLast
      rw [hLast] at hStored
      exact Option.some.inj hStored

end Diachrony
