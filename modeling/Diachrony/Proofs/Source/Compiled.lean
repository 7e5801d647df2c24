import Diachrony.Proofs.Derivation.Steps
import Diachrony.Proofs.Scan.Totality
import Diachrony.Proofs.Source.AsRead
import Diachrony.Proofs.Source.FlagLists
import Diachrony.Proofs.Source.Lines

/-
  Rulesets as they are read.

  Whatever a source says, its rules can be matched, and a
  pass bound that is written on a rule or a block allows at
  least one pass. Stored rules and blocks inside blocks are
  no exception: lines only add rules that were read, and
  forming a block only puts items inside it.

  Key definitions include:
    * `Flags.PassesLimited`
    * `Item.AsRead`
    * `Items.AsRead`
    * `Reading.AsRead`

  Key theorems include:
    * `Flags.read_passesLimited`
    * `Rule.IsCompiled.matchable`
    * `formBlocks_asRead`
    * `Reading.AsRead.lines`
    * `Ruleset.read_asRead`
-/

namespace Diachrony

------------------------------------------------------------
-- Flags
------------------------------------------------------------

/- A pass bound of its own, if any, is one that can be written. -/
def Flags.PassesLimited
    (flags : Flags) : Prop :=
  ∀ bound ∈ flags.maxPasses,
    1 ≤ bound ∧ bound ≤ (maxPassesLimit : Int)

/- A bound that can be written allows a pass. -/
theorem Flags.PassesLimited.one_le_passBound
    {flags : Flags}
    (hLimited : flags.PassesLimited)
    {general : Int}
    (hGeneral : 1 ≤ general) :
    1 ≤ flags.passBound general := by
  unfold passBound
  split
  · exact hGeneral
  · rename_i bound hBound
    split
    · exact hGeneral
    · exact (hLimited bound hBound).1

theorem Flags.PassesLimited.default :
    Flags.PassesLimited {} := by
  intro bound hBound
  cases hBound

section FlagLists

variable {limit : DigitLimit}
variable {place : Place}
variable {flags next : Flags}

/- An item keeps the bound or writes one that allows a pass. -/
theorem Flags.PassesLimited.takes
    (hLimited : flags.PassesLimited)
    (hTakes : flags.Takes next) :
    next.PassesLimited := by
  cases hTakes with
  | passes hBound =>
      intro bound hSome
      obtain rfl := Option.mem_some.mp hSome
      exact
        ⟨Int.ofNat_le.mpr hBound.1, Int.ofNat_le.mpr hBound.2⟩
  | _ => exact hLimited

/- A flag list spells a pass bound that allows a pass, or none. -/
theorem Flags.read_passesLimited
    {text : List Char}
    {line column : Int}
    {result : Flags × List Diagnostic}
    (hRead : Flags.read limit text line column = .ok result) :
    result.1.PassesLimited :=
  Flags.read_keeps Flags.PassesLimited.takes
    Flags.PassesLimited.default hRead

theorem RuleFields.readFlags_passesLimited
    {fields : RuleFields}
    {line : Int}
    {result : Flags × List Diagnostic}
    (hRead : fields.readFlags limit line = .ok result) :
    result.1.PassesLimited := by
  unfold readFlags at hRead
  split at hRead
  · cases hRead
    exact Flags.PassesLimited.default
  · exact Flags.read_passesLimited hRead

theorem MetaruleLine.readFlags_passesLimited
    {line : MetaruleLine}
    {result : Flags × List Diagnostic}
    (hRead : line.readFlags limit place = .ok result) :
    result.1.PassesLimited := by
  unfold readFlags at hRead
  split at hRead
  · cases hRead
    exact Flags.PassesLimited.default
  · exact Flags.read_passesLimited hRead

theorem Metarule.read_passesLimited
    {text : List Char}
    {size : Option Nat}
    {diagnostics : List Diagnostic}
    (hRead :
      Metarule.read limit place text =
        .ok (.block size flags diagnostics)) :
    flags.PassesLimited := by
  unfold Metarule.read at hRead
  split at hRead
  · cases hRead
  unfold Metarule.ofLine at hRead
  split at hRead
  · split at hRead <;> cases hRead
  split at hRead
  · split at hRead <;> cases hRead
  split at hRead
  · unfold MetaruleLine.block at hRead
    split at hRead
    · cases hRead
    split at hRead
    · cases hRead
    rename_i hFlags
    cases hRead
    exact MetaruleLine.readFlags_passesLimited hFlags
  · cases hRead

end FlagLists

------------------------------------------------------------
-- Rules
------------------------------------------------------------

theorem Environment.AsRead.matchable
    {environment : Environment}
    (hRead : environment.AsRead) :
    environment.matchable = true := by
  cases environment with
  | around left right =>
      have hLeft := hRead left List.mem_cons_self
      have hRight :=
        hRead right
          (List.mem_cons_of_mem _ (List.mem_singleton_self _))
      simp only [Environment.matchable, hLeft.matchable,
        hRight.matchable, Bool.and_self]
  | anywhere pattern indices =>
      exact
        (hRead pattern (List.mem_singleton_self _)).matchable

theorem groupsMatchable_of_asRead
    {groups : List EnvironmentGroup}
    (hRead : groupsAsRead groups) :
    groupsMatchable groups = true := by
  simp only [groupsMatchable, List.all_eq_true]
  intro group hGroup environment hEnvironment
  exact (hRead group hGroup environment hEnvironment).matchable

/- A matcher can be built for all that a compiled rule tests. -/
theorem Rule.IsCompiled.matchable
    {rule : Rule}
    (hCompiled : rule.IsCompiled) :
    rule.matchable = true := by
  rcases hCompiled.exists_body with ⟨body, hRule⟩
  simp only [Rule.matchable, Bool.and_eq_true,
    List.all_eq_true]
  constructor
  · intro branch hBranch
    rcases hRule.exists_target hBranch with
      ⟨pattern, hPattern, hTarget⟩
    rw [hTarget]
    exact hPattern.matchable_assignSlots
  · intro predicate hPredicate
    rcases hRule.exists_predicate hPredicate with
      ⟨read, hRead, rfl⟩
    exact
      ⟨groupsMatchable_of_asRead hRead.environments,
        groupsMatchable_of_asRead hRead.exceptions⟩

------------------------------------------------------------
-- Items
------------------------------------------------------------

/-
  What an item has by itself if it was read: its flags allow
  a pass, and if it is a rule it is a compiled one.
-/
structure Item.AsRead
    (item : Item) : Prop where
  limited : item.flags.PassesLimited
  compiled :
    ∀ rule, item = .rule rule → rule.IsCompiled

theorem Item.AsRead.of_rule
    {rule : Rule}
    (hLimited : rule.flags.PassesLimited)
    (hCompiled : rule.IsCompiled) :
    (Item.rule rule).AsRead where
  limited := hLimited
  compiled := by
    rintro other ⟨⟩
    exact hCompiled

theorem Item.AsRead.of_block
    {head : BlockHead}
    {inside : List Item}
    (hLimited : head.flags.PassesLimited) :
    (Item.block head inside).AsRead where
  limited := hLimited
  compiled := by
    intro rule hRule
    cases hRule

/- A rule that was read is an item that was read. -/
theorem Rule.read_asRead
    {setting : RuleSetting}
    {text : List Char}
    {rule : Rule}
    (hRead : Rule.read setting text = .ok rule) :
    (Item.rule rule).AsRead := by
  apply Item.AsRead.of_rule
  · rcases Rule.read_cases hRead with
      ⟨_, _, _, _, _, _, _, _, hFlags, _, rfl⟩
    exact RuleFields.readFlags_passesLimited hFlags
  · exact ⟨setting, text, rule, hRead, rfl, rfl, rfl⟩

/- Items that were read, and so is all that is inside them. -/
def Items.AsRead
    (items : List Item) : Prop :=
  ∀ item ∈ Items.walk items, item.AsRead

theorem Items.walk_append
    (items others : List Item) :
    Items.walk (items ++ others) =
      Items.walk items ++ Items.walk others := by
  induction items with
  | nil => rfl
  | cons item rest ih =>
      rw [List.cons_append, Items.walk, Items.walk, ih,
        List.append_assoc]

namespace Items.AsRead

variable {items others : List Item}

theorem append_iff :
    Items.AsRead (items ++ others) ↔
      Items.AsRead items ∧ Items.AsRead others := by
  unfold Items.AsRead
  rw [Items.walk_append, List.forall_mem_append]

/- Items that are cut at a place are read on either side. -/
theorem take_drop
    (hItems : Items.AsRead items)
    (n : Nat) :
    Items.AsRead (items.take n) ∧
      Items.AsRead (items.drop n) := by
  rw [← append_iff, List.take_append_drop]
  exact hItems

theorem concat_rule
    {rule : Rule}
    (hItems : Items.AsRead items)
    (hRule : (Item.rule rule).AsRead) :
    Items.AsRead (items ++ [.rule rule]) := by
  refine append_iff.mpr ⟨hItems, ?_⟩
  intro item hItem
  obtain rfl := List.mem_singleton.mp hItem
  exact hRule

theorem cons_block
    {head : BlockHead}
    (hHead : head.flags.PassesLimited)
    (hInside : Items.AsRead others)
    (hItems : Items.AsRead items) :
    Items.AsRead (.block head others :: items) := by
  intro item hItem
  rcases List.mem_append.mp hItem with hBlock | hRest
  · rcases List.mem_cons.mp hBlock with rfl | hPart
    · exact Item.AsRead.of_block hHead
    · exact hInside item hPart
  · exact hItems item hRest

end Items.AsRead

------------------------------------------------------------
-- Blocks
------------------------------------------------------------

theorem BlockMarker.form_asRead
    {marker : BlockMarker}
    {items formed : List Item}
    (hMarker : marker.flags.PassesLimited)
    (hItems : Items.AsRead items)
    (hForm : marker.form items = .ok formed) :
    Items.AsRead formed := by
  unfold BlockMarker.form at hForm
  dsimp only at hForm
  split at hForm
  · cases hForm
  cases hForm
  rcases hItems.take_drop marker.position with
    ⟨hBefore, hFrom⟩
  rw [Items.AsRead.append_iff]
  refine ⟨hBefore, Items.AsRead.cons_block hMarker ?_ ?_⟩
  · exact (hFrom.take_drop _).1
  · exact (hItems.take_drop _).2

theorem formBlocks_asRead
    {items formed : List Item}
    {markers : List BlockMarker}
    (hMarkers :
      ∀ marker ∈ markers, marker.flags.PassesLimited)
    (hItems : Items.AsRead items)
    (hForm : formBlocks items markers = .ok formed) :
    Items.AsRead formed := by
  induction markers generalizing formed with
  | nil =>
      cases hForm
      exact hItems
  | cons marker rest ih =>
      rcases List.forall_mem_cons.mp hMarkers with
        ⟨hMarker, hRest⟩
      unfold formBlocks at hForm
      split at hForm
      · cases hForm
      rename_i hInner
      exact BlockMarker.form_asRead hMarker
        (ih hRest hInner) hForm

------------------------------------------------------------
-- Lines
------------------------------------------------------------

/- What has been read so far is as it is read. -/
structure Reading.AsRead
    (reading : Reading) : Prop where
  items : Items.AsRead reading.items
  markers :
    ∀ marker ∈ reading.markers, marker.flags.PassesLimited
  stored :
    ∀ entry ∈ reading.stored, (Item.rule entry.2).AsRead

namespace Reading.AsRead

variable {reading next : Reading}
variable (hReading : reading.AsRead)

include hReading

theorem addRule
    {rule : Rule}
    (hRule : (Item.rule rule).AsRead) :
    (reading.addRule rule).AsRead := by
  unfold Reading.addRule
  dsimp only
  split
  · exact
      { items := hReading.items
        markers := hReading.markers
        stored :=
          List.forall_mem_cons.mpr ⟨hRule, hReading.stored⟩ }
  · exact
      { items := hReading.items.concat_rule hRule
        markers := hReading.markers
        stored := hReading.stored }

theorem runStored
    (place : Place)
    (name : String) :
    (reading.runStored place name).AsRead := by
  unfold Reading.runStored
  split
  · rename_i rule hStored
    rcases List.lookup_eq_some_iff.mp hStored with
      ⟨before, after, hEntries, _⟩
    have hRule : (Item.rule rule).AsRead := by
      apply hReading.stored (name, rule)
      rw [hEntries]
      exact List.mem_append_right _ List.mem_cons_self
    exact
      { items := hReading.items.concat_rule hRule
        markers := hReading.markers
        stored := hReading.stored }
  · exact
      { items := hReading.items
        markers := hReading.markers
        stored := hReading.stored }

theorem line
    {source : SourceLine}
    (hNext : reading.line source = .ok next) :
    next.AsRead := by
  cases line_takes hNext with
  | blank | unnamed => exact hReading
  | category | define =>
      exact
        { items := hReading.items
          markers := hReading.markers
          stored := hReading.stored }
  | run => exact hReading.runStored _ _
  | block _ hRead =>
      refine
        { items := hReading.items
          markers := ?_
          stored := hReading.stored }
      refine List.forall_mem_append.mpr ⟨hReading.markers, ?_⟩
      intro marker hMarker
      obtain rfl := List.mem_singleton.mp hMarker
      exact Metarule.read_passesLimited hRead
  | rule _ hRead =>
      exact hReading.addRule (Rule.read_asRead hRead)

/- Each line keeps what has been read as it should be. -/
theorem lines
    {sources : List SourceLine}
    (hNext : reading.lines sources = .ok next) :
    next.AsRead :=
  lines_keep (fun _ _ _ _ hBefore hLine => hBefore.line hLine)
    hReading hNext

theorem finish
    {ruleset : Ruleset}
    (hFinish : reading.finish = .ok ruleset) :
    Items.AsRead ruleset.items := by
  unfold Reading.finish at hFinish
  split at hFinish
  · cases hFinish
  split at hFinish
  · cases hFinish
  rename_i hForm
  cases hFinish
  exact
    formBlocks_asRead hReading.markers hReading.items hForm

end Reading.AsRead

/- All that is in a ruleset that was read is as it is read. -/
theorem Ruleset.read_asRead
    {table : Table}
    {graphs : List String}
    {source : String}
    {limit : DigitLimit}
    {ruleset : Ruleset}
    (hRead :
      Ruleset.read table graphs source limit = .ok ruleset) :
    Items.AsRead ruleset.items := by
  unfold Ruleset.read at hRead
  split at hRead
  · cases hRead
  rename_i hLines
  have hStart :
      Reading.AsRead
        { table := table.copy
          graphs := graphs
          digitLimit := limit } :=
    { items := by
        intro item hItem
        cases hItem
      markers := by
        intro marker hMarker
        cases hMarker
      stored := by
        intro entry hEntry
        cases hEntry }
  exact (hStart.lines hLines).finish hRead

/- The ruleset that a source is read as, if it can be read. -/
def Ruleset.ofSource
    (table : Table)
    (graphs : List String)
    (source : String) : Ruleset :=
  match Ruleset.read table graphs source with
  | .ok ruleset => ruleset
  | .error _ => {}

theorem Ruleset.read_ofSource
    {table : Table}
    {graphs : List String}
    {source : String}
    (hRead :
      (Ruleset.read table graphs source).isOk = true) :
    Ruleset.read table graphs source =
      .ok (Ruleset.ofSource table graphs source) := by
  unfold Ruleset.ofSource
  cases hRuleset : Ruleset.read table graphs source with
  | ok ruleset => rfl
  | error e =>
      rw [hRuleset] at hRead
      cases hRead

end Diachrony
