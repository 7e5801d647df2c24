import Diachrony.Proofs.Matching.Instructions
import Diachrony.Proofs.Source.Blocks
import Diachrony.Proofs.Source.Compiled
import Diachrony.Proofs.Source.Extension
import Diachrony.Proofs.Source.MemberTexts
import Diachrony.Proofs.Source.References

/-
  Empty members.

  A category that has no empty member consumes a symbol or
  tests a word edge wherever it matches. Members of a source
  are never empty, with one exception: of an item of a
  category line that consists of backslashes nothing is left
  once these are dropped.

  Key definitions include:
    * `Category.IsSolid`
    * `Table.IsSolid`
    * `SourceLine.AddsEmpty`
    * `CategoryRef.Advances`

  Key theorems include:
    * `CategoryRef.advances_of_isSolid`
    * `Reading.table_isSolid_iff`
    * `Rule.isSolid_of_read`
    * `Ruleset.read_isSolid`
-/

namespace Diachrony

open Unicode

------------------------------------------------------------
-- Solid categories
------------------------------------------------------------

/- No member of a category is empty. -/
def Category.IsSolid
    (category : Category) : Prop :=
  ∀ member ∈ category.members, member ≠ []

/- No category of a table ever had an empty member. -/
def Table.IsSolid
    (table : Table) : Prop :=
  ∀ category ∈ table.entries, category.IsSolid

/- All categories that a rule refers to are solid. -/
def Rule.IsSolid
    (rule : Rule) : Prop :=
  ∀ category ∈ rule.categories, category.IsSolid

/-
  Wherever a reference is matched, a symbol is consumed or
  the thread stands at a word edge that it tests for.
-/
def CategoryRef.Advances
    (ref : CategoryRef) : Prop :=
  ∀ (window : Window) (thread : Thread) threads,
    window.step thread ref.instruction = .split threads →
      ∀ next ∈ threads,
        thread.pos < next.pos ∨
          next.pos = thread.pos ∧
            window.atEdge thread.pos = true

section Matching

variable {window : Window}
variable {pos stop : Nat}
variable {member : Member}

theorem Window.le_memberEnd?
    (hEnd : window.memberEnd? pos member = some stop) :
    pos ≤ stop := by
  induction member generalizing pos with
  | nil => exact (Option.some.inj hEnd).le
  | cons part rest ih =>
      cases part <;>
        unfold memberEnd? at hEnd <;>
        split at hEnd
      · exact Nat.le_of_succ_le (ih hEnd)
      · cases hEnd
      · exact ih hEnd
      · cases hEnd

/- A member that is not empty cannot be passed for nothing. -/
theorem Window.memberEnd?_advances
    (hSome : member ≠ [])
    (hEnd : window.memberEnd? pos member = some stop) :
    pos < stop ∨ stop = pos ∧ window.atEdge pos = true := by
  cases member with
  | nil => exact absurd rfl hSome
  | cons part rest =>
      cases part <;>
        unfold memberEnd? at hEnd <;>
        split at hEnd
      · exact Or.inl (Window.le_memberEnd? hEnd)
      · cases hEnd
      · rename_i hEdge
        rcases (Window.le_memberEnd? hEnd).eq_or_lt with
          hStays | hMoves
        · exact Or.inr ⟨hStays.symm, hEdge⟩
        · exact Or.inl hMoves
      · cases hEnd

theorem Category.mem_of_mem_trials
    {category : Category}
    {trial : Nat × Member}
    (hTrial : trial ∈ category.trials) :
    trial.2 ∈ category.members := by
  rw [trials_eq] at hTrial
  rcases List.mem_map.mp hTrial with ⟨entry, hEntry, rfl⟩
  have hMember : entry ∈ category.members.zipIdx :=
    (List.mem_insertionSort _).mp hEntry
  exact List.fst_mem_of_mem_zipIdx hMember

/- So a solid category cannot be matched for nothing. -/
theorem CategoryRef.advances_of_isSolid
    {ref : CategoryRef}
    (hSolid : ∀ category ∈ ref.category, category.IsSolid) :
    ref.Advances := by
  intro window thread threads hStep next hNext
  unfold CategoryRef.instruction at hStep
  split at hStep
  · cases hStep
    cases hNext
  rename_i category hCategory
  cases hStep
  rcases List.mem_filterMap.mp hNext with ⟨trial, hTrial, hMatch⟩
  split at hMatch
  · rcases Option.map_eq_some_iff.mp hMatch with
      ⟨stop, hStop, rfl⟩
    have hMember :=
      hSolid category hCategory trial.2
        (Category.mem_of_mem_trials hTrial)
    exact Window.memberEnd?_advances hMember hStop
  · cases hMatch

end Matching

------------------------------------------------------------
-- Items
------------------------------------------------------------

/- A text of one or more backslashes. -/
def IsBackslashes
    (text : List Char) : Prop :=
  text ≠ [] ∧ ∀ c ∈ text, c = '\\'

instance
    (text : List Char) :
    Decidable (IsBackslashes text) :=
  decidable_of_iff (text ≠ [] ∧ text.all (· = '\\') = true)
    (by simp [IsBackslashes])

section Items

variable {table : Table}
variable {graphs : List String}

theorem Table.IsSolid.resolve
    {name : String}
    {category : Category}
    (hTable : table.IsSolid)
    (hResolve : table.resolve? name = some category) :
    category.IsSolid := by
  rcases Option.bind_eq_some_iff.mp hResolve with
    ⟨i, _, hEntry⟩
  exact hTable category (List.mem_of_getElem? hEntry)

theorem Table.IsSolid.membersOf
    (hTable : table.IsSolid)
    (name : String) :
    ∀ member ∈ table.membersOf name, member ≠ [] := by
  unfold Table.membersOf
  split
  · exact List.forall_mem_nil _
  · rename_i hResolve
    exact hTable.resolve hResolve

/- Nothing is left of backslashes, and of nothing else. -/
theorem MemberText.IsReadFrom.lent_solid_iff
    {item : MemberText}
    {text : List Char}
    (hTable : table.IsSolid)
    (hRead : item.IsReadFrom text) :
    (∀ member ∈ item.lent table graphs, member ≠ []) ↔
      ¬IsBackslashes text := by
  rcases hRead.cases with
    ⟨hSome, ⟨rfl, rfl⟩ | ⟨rfl, hOpening, _⟩ | ⟨rfl, _⟩⟩
  · exact
      iff_of_true (List.forall_mem_singleton.mpr nofun)
        (by decide)
  · refine iff_of_true (hTable.membersOf _) fun hAll => ?_
    have hSame := hAll.2 _ (List.mem_of_head? hOpening)
    cases hSame
  · rw [lent, List.forall_mem_singleton, not_iff_not]
    rw [Member.ofSymbols, List.map_eq_nil_iff]
    constructor
    · intro hNone
      refine ⟨hSome, fun c hMem => ?_⟩
      by_contra hOther
      have hLeft : c ∈ text.filter (· ≠ '\\') :=
        List.mem_filter.mpr ⟨hMem, decide_eq_true hOther⟩
      refine segment_ne_nil (fun hEmpty => ?_) hNone
      rw [String.ofList_eq_empty_iff] at hEmpty
      rw [hEmpty] at hLeft
      cases hLeft
    · intro hAll
      have hEmpty : text.filter (· ≠ '\\') = [] :=
        List.filter_eq_nil_iff.mpr fun c hMem => by
          simp [hAll.2 c hMem]
      rw [hEmpty, segment, String.toList_ofList,
        Segmentation.pieces]
      rfl

theorem ReadsItems.lent_solid_iff
    {parts : List (List Char)}
    {items : List MemberText}
    (hTable : table.IsSolid)
    (hItems : ReadsItems parts items) :
    (∀ member ∈
          items.flatMap (MemberText.lent table graphs),
        member ≠ []) ↔
      ∀ part ∈ parts, ¬IsBackslashes (trim part) := by
  induction hItems with
  | nil =>
      exact
        iff_of_true (List.forall_mem_nil _)
          (List.forall_mem_nil _)
  | cons hItem _ ih =>
      rw [List.flatMap_cons, List.forall_mem_append,
        List.forall_mem_cons, ih, hItem.lent_solid_iff hTable]

/- A list of members has an empty one for each such item. -/
theorem readCategoryBody_solid_iff
    {place : Place}
    {body : List Char}
    {members : List Member}
    {diagnostics : List Diagnostic}
    (hTable : table.IsSolid)
    (hRead :
      readCategoryBody table graphs place body =
        .ok (members, diagnostics)) :
    (∀ member ∈ members, member ≠ []) ↔
      ∀ part ∈ splitTop isComma body,
        ¬IsBackslashes (trim part) := by
  rcases readCategoryBody_eq_ok_iff.mp
      ⟨diagnostics, hRead, rfl⟩ with
    ⟨items, hItems, rfl, _⟩
  exact hItems.lent_solid_iff hTable

end Items

------------------------------------------------------------
-- Lines
------------------------------------------------------------

/-
  A line that defines or extends a category by an item of
  backslashes. The category of the graphs is none of them,
  because its members are the graphs as they are written.
-/
def SourceLine.AddsEmpty
    (line : SourceLine) : Prop :=
  line.kind = .category ∧
    ∃ category ∈ CategoryLine.read? line.text,
      String.ofList category.name ≠ Reading.graphsName ∧
        category.edit ≠ .reduce ∧
          ∃ part ∈ splitTop isComma category.body,
            IsBackslashes (trim part)

instance
    (line : SourceLine) :
    Decidable line.AddsEmpty := by
  unfold SourceLine.AddsEmpty
  infer_instance

section Lines

variable {table : Table}
variable {reading next : Reading}
variable {line : SourceLine}

theorem Table.append_isSolid_iff
    {name : String}
    {members : List Member} :
    (table.append name members).IsSolid ↔
      table.IsSolid ∧ ∀ member ∈ members, member ≠ [] := by
  unfold Table.IsSolid Table.append
  rw [List.forall_mem_append, List.forall_mem_singleton]
  rfl

/- An edit can only add what it lists. -/
theorem TableEdit.editMembers_solid_iff
    {edit : TableEdit}
    {name : String}
    {members : List Member}
    (hTable : table.IsSolid) :
    (∀ member ∈ edit.editMembers table name members,
        member ≠ []) ↔
      edit ≠ .reduce → ∀ member ∈ members, member ≠ [] := by
  have hBefore := hTable.membersOf name
  cases edit with
  | define => simp [editMembers]
  | extend =>
      rw [editMembers, Table.extended, List.forall_mem_append,
        and_iff_right hBefore]
      simp
  | reduce =>
      refine iff_of_true ?_ (fun hOther => absurd rfl hOther)
      intro member hMem
      exact hBefore member (List.mem_of_mem_filter hMem)

/- Graphs that are listed are never empty members. -/
theorem graphs_solid
    (listed : List String) :
    ∀ member ∈ listed.map Member.ofSymbol, member ≠ [] := by
  intro member hMember
  rcases List.mem_map.mp hMember with ⟨graph, _, rfl⟩
  nofun

/- Other lines leave the table as it is. -/
theorem Reading.Takes.table_eq
    (hKind : line.kind ≠ .category)
    (hTakes : reading.Takes line next) :
    next.table = reading.table := by
  cases hTakes with
  | blank | unnamed | define | block => rfl
  | category hCategory => exact absurd hCategory hKind
  | run =>
      unfold Reading.runStored
      split <;> rfl
  | rule =>
      unfold Reading.addRule
      dsimp only
      split <;> rfl

theorem Reading.editCategory_isSolid_iff
    {place bodyPlace : Place}
    {category : CategoryLine}
    {members : List Member}
    {diagnostics : List Diagnostic}
    (hTable : reading.table.IsSolid)
    (hBody :
      readCategoryBody reading.table reading.graphs bodyPlace
          category.body =
        .ok (members, diagnostics)) :
    (reading.editCategory place category members
          diagnostics).table.IsSolid ↔
      ¬(String.ofList category.name ≠ graphsName ∧
        category.edit ≠ .reduce ∧
          ∃ part ∈ splitTop isComma category.body,
            IsBackslashes (trim part)) := by
  have hMembers := readCategoryBody_solid_iff hTable hBody
  unfold editCategory
  dsimp only
  rw [Table.append_isSolid_iff, and_iff_right hTable,
    TableEdit.editMembers_solid_iff hTable]
  split
  · rename_i hGraphs
    exact iff_of_true (fun _ => graphs_solid _)
      (by simp [hGraphs])
  · rename_i hOther
    rw [hMembers]
    simp [hOther]

/- A table stays solid if no line adds an empty member. -/
theorem Reading.line_isSolid_iff
    (hTable : reading.table.IsSolid)
    (hLine : reading.line line = .ok next) :
    next.table.IsSolid ↔ ¬line.AddsEmpty := by
  have hTakes := line_takes hLine
  by_cases hKind : line.kind = .category
  · unfold SourceLine.AddsEmpty
    cases hTakes with
    | unnamed hCategory =>
        exact iff_of_true hTable (by simp [hCategory])
    | category _ hCategory hBody =>
        rw [editCategory_isSolid_iff hTable hBody]
        simp [hKind, hCategory]
    | blank hOther | define hOther | run hOther
    | block hOther | rule hOther => cases hOther.symm.trans hKind
  · rw [hTakes.table_eq hKind]
    exact iff_of_true hTable fun hAdds => hKind hAdds.1

/- Entries are never removed, and so are empty members not. -/
theorem Reading.Extends.isSolid
    (hExtends : reading.Extends next)
    (hNext : next.table.IsSolid) :
    reading.table.IsSolid :=
  fun category hMem =>
    hNext category (hExtends.entries.subset hMem)

theorem Reading.table_isSolid_iff
    {lines : List SourceLine}
    (hTable : reading.table.IsSolid)
    (hLines : reading.lines lines = .ok next) :
    next.table.IsSolid ↔ ∀ line ∈ lines, ¬line.AddsEmpty := by
  induction lines generalizing reading with
  | nil =>
      cases hLines
      exact iff_of_true hTable (List.forall_mem_nil _)
  | cons line rest ih =>
      unfold Reading.lines at hLines
      split at hLines
      · cases hLines
      rename_i middle hLine
      rw [List.forall_mem_cons]
      by_cases hAdds : line.AddsEmpty
      · refine iff_of_false (fun hNext => ?_) (fun h => h.1 hAdds)
        have hMiddle := (Extends.lines hLines).isSolid hNext
        exact (line_isSolid_iff hTable hLine).mp hMiddle hAdds
      · rw [and_iff_right hAdds]
        exact
          ih ((line_isSolid_iff hTable hLine).mpr hAdds) hLines

end Lines

------------------------------------------------------------
-- Rules
------------------------------------------------------------

/- All rules that were read so far have a property. -/
structure Reading.HasOnly
    (P : Rule → Prop)
    (reading : Reading) : Prop where
  items : ∀ rule ∈ Items.rules reading.items, P rule
  stored : ∀ entry ∈ reading.stored, P entry.2

section Rules

variable {P : Rule → Prop}
variable {reading next : Reading}

theorem Items.forall_rules_concat
    {items : List Item}
    {rule : Rule}
    (hItems : ∀ other ∈ Items.rules items, P other)
    (hRule : P rule) :
    ∀ other ∈ Items.rules (items ++ [.rule rule]), P other := by
  rw [Items.rules_append]
  exact
    List.forall_mem_append.mpr
      ⟨hItems, List.forall_mem_singleton.mpr hRule⟩

namespace Reading.HasOnly

theorem runStored
    (hReading : reading.HasOnly P)
    (place : Place)
    (name : String) :
    (reading.runStored place name).HasOnly P := by
  unfold Reading.runStored
  split
  · rename_i rule hStored
    rcases List.lookup_eq_some_iff.mp hStored with
      ⟨before, after, hEntries, _⟩
    have hRule : P rule := by
      apply hReading.stored (name, rule)
      rw [hEntries]
      exact List.mem_append_right _ List.mem_cons_self
    exact
      ⟨Items.forall_rules_concat hReading.items hRule,
        hReading.stored⟩
  · exact ⟨hReading.items, hReading.stored⟩

theorem addRule
    {rule : Rule}
    (hReading : reading.HasOnly P)
    (hRule : P rule) :
    (reading.addRule rule).HasOnly P := by
  unfold Reading.addRule
  dsimp only
  split
  · exact
      ⟨hReading.items,
        List.forall_mem_cons.mpr ⟨hRule, hReading.stored⟩⟩
  · exact
      ⟨Items.forall_rules_concat hReading.items hRule,
        hReading.stored⟩

/- It is enough that the rule of a line has it. -/
theorem line
    {source : SourceLine}
    (hReading : reading.HasOnly P)
    (hRule :
      ∀ rule,
        Rule.read (reading.setting source.place) source.text =
            .ok rule →
          P rule)
    (hLine : reading.line source = .ok next) :
    next.HasOnly P := by
  cases line_takes hLine with
  | blank | unnamed => exact hReading
  | category | define | block =>
      exact ⟨hReading.items, hReading.stored⟩
  | run => exact hReading.runStored _ _
  | rule _ hRead => exact hReading.addRule (hRule _ hRead)

end Reading.HasOnly

/- Members in brackets are empty only in the table. -/
theorem DerivesMembers.solid
    {context : ReadContext}
    {tokens : List Token}
    {members : List Member}
    (hTable : context.table.IsSolid)
    (hMembers : DerivesMembers context tokens members) :
    ∀ member ∈ members, member ≠ [] := by
  have hOne {tokens : List Token} {members : List Member}
      (hMember : DerivesMember context tokens members) :
      ∀ member ∈ members, member ≠ [] := by
    cases hMember with
    | run hRun hSome =>
        exact
          List.forall_mem_singleton.mpr
            (mt hRun.eq_nil_iff.mp hSome)
    | nested =>
        unfold ReadContext.nestedMembers
        split
        · rename_i hResolve
          exact hTable.resolve hResolve
        · exact List.forall_mem_nil _
  induction hMembers with
  | one hMember => exact hOne hMember
  | more hMember _ _ ih =>
      exact List.forall_mem_append.mpr ⟨hOne hMember, ih⟩

/- A rule that is read with a solid table is solid. -/
theorem Rule.isSolid_of_read
    {setting : RuleSetting}
    {text : List Char}
    {rule : Rule}
    (hTable : setting.table.IsSolid)
    (hRead : Rule.read setting text = .ok rule) :
    rule.IsSolid := by
  refine
    Rule.read_forall_categories (fun context hSame => ?_) hRead
  rw [← hSame] at hTable
  exact
    { named := fun _ _ hResolve => hTable.resolve hResolve
      listed := fun _ _ hMembers => hMembers.solid hTable }

/- What is formed has the entries and rules that were read. -/
theorem Reading.finish_rules_eq
    {ruleset : Ruleset}
    (hOrder : MarkersInOrder reading.items reading.markers)
    (hFinish : reading.finish = .ok ruleset) :
    ruleset.categories = reading.table.freeze ∧
      Items.rules ruleset.items = Items.rules reading.items := by
  unfold Reading.finish at hFinish
  split at hFinish
  · cases hFinish
  split at hFinish
  · cases hFinish
  rename_i hForm
  cases hFinish
  exact ⟨rfl, (hOrder.assembles hForm).rules_eq⟩

/- While the table is solid only solid rules are read. -/
theorem Reading.HasOnly.lines_isSolid
    {lines : List SourceLine}
    (hReading : reading.HasOnly Rule.IsSolid)
    (hTable : reading.table.IsSolid)
    (hSolid : ∀ line ∈ lines, ¬line.AddsEmpty)
    (hLines : reading.lines lines = .ok next) :
    next.HasOnly Rule.IsSolid := by
  have hBoth :
      next.table.IsSolid ∧ next.HasOnly Rule.IsSolid := by
    refine
      lines_keep
        (P := fun other =>
          other.table.IsSolid ∧ other.HasOnly Rule.IsSolid)
        ?_ ⟨hTable, hReading⟩ hLines
    rintro line hMem before after ⟨hBefore, hRules⟩ hLine
    refine
      ⟨(line_isSolid_iff hBefore hLine).mpr (hSolid line hMem),
        hRules.line (fun rule hRead => ?_) hLine⟩
    exact Rule.isSolid_of_read hBefore hRead
  exact hBoth.2

end Rules

------------------------------------------------------------
-- Sources
------------------------------------------------------------

/-
  No category of a source has an empty member, neither in
  the table nor in a rule, unless a line adds an item of
  backslashes. Then no reference is matched for nothing.
-/
theorem Ruleset.read_isSolid
    {graphs : List String}
    {source : String}
    {limit : DigitLimit}
    {ruleset : Ruleset}
    (hRead :
      Ruleset.read {} graphs source limit = .ok ruleset) :
    ((ruleset.categories.IsSolid ∧
          ∀ rule ∈ Items.rules ruleset.items, rule.IsSolid) ↔
        ∀ line ∈ SourceLine.ofSource source,
          ¬line.AddsEmpty) ∧
      ((∀ line ∈ SourceLine.ofSource source,
          ¬line.AddsEmpty) →
        ∀ rule ∈ Items.rules ruleset.items,
          ∀ pattern ∈ rule.patterns,
            ∀ ref ∈ Pattern.categoryRefs pattern,
              ref.Advances) := by
  unfold Ruleset.read at hRead
  split at hRead
  · cases hRead
  rename_i hLines
  have hEmpty : Table.IsSolid {} := List.forall_mem_nil _
  have hTable := Reading.table_isSolid_iff hEmpty hLines
  rcases Reading.finish_rules_eq
      (Reading.markers_inOrder rfl hLines) hRead with
    ⟨hCategories, hRules⟩
  have hSolid :
      (∀ line ∈ SourceLine.ofSource source, ¬line.AddsEmpty) →
        ∀ rule ∈ Items.rules ruleset.items, rule.IsSolid := by
    intro hLeft
    rw [hRules]
    exact
      (Reading.HasOnly.lines_isSolid
        ⟨List.forall_mem_nil _, List.forall_mem_nil _⟩ hEmpty
        hLeft hLines).items
  rw [hCategories]
  refine
    ⟨⟨fun hAll => hTable.mp hAll.1,
      fun hLeft => ⟨hTable.mpr hLeft, hSolid hLeft⟩⟩, ?_⟩
  intro hLeft rule hRule pattern hPattern ref hRef
  refine
    CategoryRef.advances_of_isSolid fun category hCategory => ?_
  refine hSolid hLeft rule hRule category ?_
  exact
    List.mem_flatMap.mpr
      ⟨pattern, hPattern,
        List.mem_filterMap.mpr ⟨ref, hRef, hCategory⟩⟩

------------------------------------------------------------
-- Escapes, graphs and edits
------------------------------------------------------------

/- Members of each kind, and a rule that refers to them. -/
def editedSource : String :=
  "graphs = th\nV = \\a, #, th\nW = [V], e\nV += i\n" ++
    "W -= e\n[W, s\\h] > x / _[V]"

theorem editedSource_isSolid :
    Ruleset.read {} [] editedSource =
        .ok (Ruleset.ofSource {} [] editedSource) ∧
      ((((Ruleset.ofSource {} []
              editedSource).categories.IsSolid ∧
            ∀ rule ∈
                Items.rules
                  (Ruleset.ofSource {} [] editedSource).items,
              rule.IsSolid) ↔
          ∀ line ∈ SourceLine.ofSource editedSource,
            ¬line.AddsEmpty) ∧
        ((∀ line ∈ SourceLine.ofSource editedSource,
            ¬line.AddsEmpty) →
          ∀ rule ∈
              Items.rules
                (Ruleset.ofSource {} [] editedSource).items,
            ∀ pattern ∈ rule.patterns,
              ∀ ref ∈ Pattern.categoryRefs pattern,
                ref.Advances)) ∧
        ∀ line ∈ SourceLine.ofSource editedSource,
          ¬line.AddsEmpty := by
  have hRead :
      Ruleset.read {} [] editedSource =
        .ok (Ruleset.ofSource {} [] editedSource) :=
    Ruleset.read_ofSource (by decide +kernel)
  exact ⟨hRead, Ruleset.read_isSolid hRead, by decide +kernel⟩

/- A category with an escaped backslash. -/
def backslashSource : String :=
  "V = a, \\\\"

/- The second member should be a backslash but is empty. -/
theorem backslashSource_empty :
    ∃ ruleset,
      Ruleset.read {} [] backslashSource = .ok ruleset ∧
        ruleset.categories.membersOf "V" =
          [Member.ofSymbol "a", []] :=
  ⟨Ruleset.ofSource {} [] backslashSource,
    Ruleset.read_ofSource (by decide +kernel),
    by decide +kernel⟩

end Diachrony
