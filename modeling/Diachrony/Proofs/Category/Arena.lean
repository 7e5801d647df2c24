import Diachrony.Proofs.Category.Tables
import Diachrony.Proofs.Source.Outcomes

/-
  What a table holds, told from the edits that made it.

  Every edit appends one entry. Its members are what its
  edit makes of the members that the name had before, and a
  name that is not defined counts as one without members.
  The name stands for the entry from then on, so a name
  always stands for the latest of its entries, and the names
  are those of the entries, each where it occurs first.

  Key definitions include:
    * `NamedEdit`
    * `NamedEdit.fold?`
    * `Table.IsLatest`
    * `Table.IsConsistent`
    * `Table.Records`

  Key theorems include:
    * `Table.IsConsistent.append`
    * `Table.Records.append`
-/

namespace Diachrony

------------------------------------------------------------
-- Edits
------------------------------------------------------------

/- An edit of a name and the members that are given in it. -/
structure NamedEdit where
  edit : TableEdit
  name : String
  given : List Member
  deriving Repr, DecidableEq

namespace NamedEdit

/- What an edit makes of the members of its name. -/
def result
    (edit : NamedEdit)
    (before : List Member) : List Member :=
  match edit.edit with
  | .define => edit.given
  | .extend => before ++ edit.given
  | .reduce => before.filter fun member => member ∉ edit.given

/-
  The members that a name has after a sequence of edits, if
  one of them is an edit of the name.
-/
def fold?
    (name : String)
    (edits : List NamedEdit) : Option (List Member) :=
  edits.foldl
    (fun before edit =>
      if edit.name = name then
        some (edit.result (before.getD []))
      else
        before)
    none

/- The entry that an edit makes behind others. -/
def entry
    (edit : NamedEdit)
    (before : List NamedEdit) : Category where
  name := edit.name
  members := edit.result ((fold? edit.name before).getD [])
  index := before.length

theorem fold?_concat
    (name : String)
    (edits : List NamedEdit)
    (edit : NamedEdit) :
    fold? name (edits ++ [edit]) =
      if edit.name = name then
        some (edit.result ((fold? name edits).getD []))
      else
        fold? name edits :=
  List.foldl_concat ..

/- An edit is made of the members that its name stands for. -/
theorem editMembers_eq
    (edit : NamedEdit)
    (table : Table) :
    edit.edit.editMembers table edit.name edit.given =
      edit.result (table.membersOf edit.name) := by
  rcases edit with ⟨_ | _ | _, name, given⟩
  · rfl
  · rfl
  · apply List.filter_congr
    intro member _
    simp

end NamedEdit

/- A table that is frozen refuses every edit. -/
theorem TableEdit.perform_eq_error
    {table : Table}
    (hFrozen : table.frozen = true)
    (edit : TableEdit)
    (name : String)
    (members : List Member) :
    edit.perform table name members = .error .frozen := by
  have hDefine (members : List Member) :
      table.define name members = .error .frozen := by
    rw [Table.define, if_pos hFrozen]
  cases edit with
  | define => exact hDefine _
  | extend => exact hDefine _
  | reduce => exact hDefine _

------------------------------------------------------------
-- Entries
------------------------------------------------------------

/- Where a list that one entry was added to is split. -/
theorem concat_eq_append_cons_iff
    {α : Type}
    {entries before after : List α}
    {last entry : α} :
    entries ++ [last] = before ++ entry :: after ↔
      (before = entries ∧ entry = last ∧ after = []) ∨
        ∃ later,
          after = later ++ [last] ∧
            entries = before ++ entry :: later := by
  constructor
  · intro hSplit
    rcases List.eq_nil_or_concat after with
      rfl | ⟨later, end', rfl⟩
    · rcases List.append_inj' hSplit rfl with ⟨rfl, hLast⟩
      cases hLast
      exact Or.inl ⟨rfl, rfl, rfl⟩
    · rw [List.concat_eq_append] at hSplit ⊢
      rw [← List.cons_append, ← List.append_assoc] at hSplit
      rcases List.append_inj' hSplit rfl with ⟨rfl, hLast⟩
      cases hLast
      exact Or.inr ⟨later, rfl, rfl⟩
  · rintro (⟨rfl, rfl, rfl⟩ | ⟨later, rfl, rfl⟩)
    · rfl
    · rw [List.append_assoc, List.cons_append]

/- A name that is written again does not count again. -/
theorem eraseDups_concat
    (name : String)
    (names : List String) :
    (names ++ [name]).eraseDups =
      if name ∈ names then
        names.eraseDups
      else
        names.eraseDups ++ [name] := by
  rw [List.eraseDups_append]
  by_cases hMem : name ∈ names
  · have hNone : [name].removeAll names = [] := by
      simp [List.removeAll, hMem]
    rw [if_pos hMem, hNone, List.eraseDups_nil, List.append_nil]
  · have hNew : [name].removeAll names = [name] := by
      simp [List.removeAll, hMem]
    rw [if_neg hMem, hNew]
    rfl

namespace Table

variable {table : Table}
variable {name other : String}
variable {i : Nat}

/- The last entry with a name stands at a certain place. -/
def IsLatest
    (table : Table)
    (name : String)
    (i : Nat) : Prop :=
  ∃ before category after,
    table.entries = before ++ category :: after ∧
      before.length = i ∧
      category.name = name ∧
      ∀ later ∈ after, later.name ≠ name

theorem IsLatest.lt
    (hLatest : table.IsLatest name i) :
    i < table.entries.length := by
  rcases hLatest with ⟨before, category, after, hEntries, rfl, -⟩
  rw [hEntries, List.length_append, List.length_cons]
  omega

/- An entry that is appended is the last one of its name. -/
theorem isLatest_append_iff
    (members : List Member) :
    (table.append name members).IsLatest other i ↔
      if name = other then
        i = table.entries.length
      else
        table.IsLatest other i := by
  constructor
  · rintro ⟨before, category, after, hEntries, rfl, hName, hLater⟩
    rcases concat_eq_append_cons_iff.mp hEntries with
      ⟨rfl, rfl, rfl⟩ | ⟨later, rfl, hBefore⟩
    · rw [if_pos]
      exact hName
    · have hOther : name ≠ other :=
        hLater _ (List.mem_append_right later
          (List.mem_singleton_self _))
      rw [if_neg hOther]
      refine ⟨before, category, later, hBefore, rfl, hName, ?_⟩
      intro between hBetween
      exact hLater between (List.mem_append_left _ hBetween)
  · by_cases hSame : name = other
    · rw [if_pos hSame]
      rintro rfl
      exact ⟨table.entries, _, [], rfl, rfl, hSame,
        List.forall_mem_nil _⟩
    · rw [if_neg hSame]
      rintro ⟨before, category, after, hEntries, hLength, hName,
        hLater⟩
      refine ⟨before, category,
        after ++ [table.nextEntry name members],
        ?_, hLength, hName, ?_⟩
      · exact concat_eq_append_cons_iff.mpr
          (Or.inr ⟨after, rfl, hEntries⟩)
      · intro later hMem
        rcases List.mem_append.mp hMem with hAfter | hNew
        · exact hLater later hAfter
        · rw [List.mem_singleton.mp hNew]
          exact hSame

------------------------------------------------------------
-- Consistency
------------------------------------------------------------

/-
  The entries of a table and its names agree: an entry knows
  its place, a name stands for its latest entry, and the
  names are in the order in which they were first defined.
-/
structure IsConsistent
    (table : Table) : Prop where
  index :
    ∀ (i : Nat) category,
      table.entries[i]? = some category → category.index = i
  latest :
    ∀ name i,
      table.entryOf? name = some i ↔ table.IsLatest name i
  defined :
    table.defined =
      (table.entries.map Category.name).eraseDups

theorem isConsistent_empty :
    ({} : Table).IsConsistent where
  index := by
    intro i category hEntry
    cases hEntry
  latest := by
    intro name i
    constructor
    · intro hNone
      cases hNone
    · intro hLatest
      exact absurd hLatest.lt (Nat.not_lt_zero i)
  defined := rfl

theorem IsConsistent.append
    (hTable : table.IsConsistent)
    (name : String)
    (members : List Member) :
    (table.append name members).IsConsistent where
  index := by
    intro i category hEntry
    rcases List.getElem?_eq_some_iff.mp hEntry with
      ⟨hInside, hCategory⟩
    by_cases hBefore : i < table.entries.length
    · apply hTable.index i category
      rw [← hEntry]
      exact (List.getElem?_append_left hBefore).symm
    · have hLast : i = table.entries.length := by
        rw [Table.append, List.length_append,
          List.length_singleton] at hInside
        omega
      rw [hLast] at hEntry ⊢
      cases List.getElem?_concat_length.symm.trans hEntry
      rfl
  latest := by
    intro other i
    rw [isLatest_append_iff, entryOf?_append]
    by_cases hSame : name = other
    · rw [if_pos hSame, if_pos hSame, Option.some.injEq, eq_comm]
    · rw [if_neg hSame, if_neg hSame]
      exact hTable.latest other i
  defined := by
    rw [defined_append, hTable.defined, Table.append,
      List.map_append]
    simp only [List.mem_eraseDups]
    exact (eraseDups_concat name _).symm

/- Other names stand for what they stood for. -/
theorem IsConsistent.resolve?_append
    (hTable : table.IsConsistent)
    (hOther : name ≠ other)
    (members : List Member) :
    (table.append name members).resolve? other =
      table.resolve? other := by
  rw [resolve?, entryOf?_append, if_neg hOther, resolve?]
  cases hEntry : table.entryOf? other with
  | none => rfl
  | some i =>
      have hInside := ((hTable.latest other i).mp hEntry).lt
      exact List.getElem?_append_left hInside

------------------------------------------------------------
-- History
------------------------------------------------------------

/-
  A table is what a sequence of edits makes of an empty one:
  each edit has made one entry, and a name has the members
  that its edits make.
-/
structure Records
    (table : Table)
    (edits : List NamedEdit) : Prop where
  length : table.entries.length = edits.length
  entry :
    ∀ before edit after,
      edits = before ++ edit :: after →
        table.entries[before.length]? = some (edit.entry before)
  members :
    ∀ name,
      (table.resolve? name).map Category.members =
        NamedEdit.fold? name edits

theorem records_empty :
    ({} : Table).Records [] where
  length := rfl
  entry := by
    intro before edit after hEdits
    cases before with
    | nil => cases hEdits
    | cons first before => cases hEdits
  members := by
    intro name
    rfl

theorem Records.membersOf_eq
    {edits : List NamedEdit}
    (hRecords : table.Records edits)
    (name : String) :
    table.membersOf name =
      (NamedEdit.fold? name edits).getD [] := by
  rw [membersOf, ← hRecords.members name]
  cases table.resolve? name with
  | none => rfl
  | some category => rfl

/- One more edit is recorded. -/
theorem Records.append
    {edits : List NamedEdit}
    (hTable : table.IsConsistent)
    (hRecords : table.Records edits)
    (edit : NamedEdit) :
    (table.append edit.name
        (edit.edit.editMembers table edit.name edit.given)).Records
      (edits ++ [edit]) := by
  rw [edit.editMembers_eq, hRecords.membersOf_eq]
  refine ⟨?_, ?_, ?_⟩
  · rw [Table.append, List.length_append, hRecords.length,
      List.length_append, List.length_singleton,
      List.length_singleton]
  · intro before latest after hEdits
    rcases concat_eq_append_cons_iff.mp hEdits with
      ⟨rfl, rfl, rfl⟩ | ⟨later, rfl, rfl⟩
    · rw [Table.append, ← hRecords.length,
        List.getElem?_concat_length, nextEntry, NamedEdit.entry,
        hRecords.length]
    · have hEntry := hRecords.entry before latest later rfl
      have hInside := (List.getElem?_eq_some_iff.mp hEntry).1
      exact (List.getElem?_append_left hInside).trans hEntry
  · intro name
    rw [NamedEdit.fold?_concat]
    by_cases hSame : edit.name = name
    · rw [if_pos hSame, ← hSame, Table.resolve?_append]
      rfl
    · rw [if_neg hSame, hTable.resolve?_append hSame]
      exact hRecords.members name

end Table

end Diachrony
