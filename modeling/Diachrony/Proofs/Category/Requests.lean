import Diachrony.Category.Workspace
import Diachrony.Proofs.Category.Arena
import Mathlib.Data.List.Forall2

/-
  Tables under any sequence of requests.

  A request edits one of the tables at hand or makes a copy
  of it, frozen or not. An edit appends an entry to the
  table that it is asked of, or is refused if that table is
  frozen. Nothing else happens to a table. So whatever is
  asked for, each table holds what its own edits have made,
  those of the table that it was copied from included, and
  an entry is never changed.

  Key definitions include:
    * `TableRequest`
    * `Workspace.perform`
    * `Workspace.attemptAll`
    * `TableHistory`
    * `Table.Follows`
    * `Table.Extends`

  Key theorems include:
    * `Workspace.stock_attempt`
    * `Workspace.follow_attempt`
    * `Workspace.exists_later_attempt`
    * `Workspace.tables_consistent`
-/

namespace Diachrony

------------------------------------------------------------
-- Requests
------------------------------------------------------------

/- What can be asked of a table. -/
inductive TableAction where
  | edit
      (edit : TableEdit)
      (name : String)
      (given : GivenMembers)
  | copy
  | freeze
  deriving Repr, DecidableEq

/-
  What is asked of which table. The tables are numbered in
  the order in which they are made, and a number that none
  has stands for an empty table.
-/
structure TableRequest where
  table : Nat
  action : TableAction
  deriving Repr, DecidableEq

/- A request for an edit of a certain table. -/
def TableRequest.Edits
    (request : TableRequest)
    (i : Nat) : Prop :=
  request.table = i ∧
    ∃ edit name given, request.action = .edit edit name given

namespace Workspace

/- The table with a certain number. -/
def tableAt
    (workspace : Workspace)
    (i : Nat) : Table :=
  workspace.stock[i]?.getD {}

/- Do what is asked for, or refuse it. -/
def perform
    (workspace : Workspace)
    (request : TableRequest) :
    Except TableError Workspace :=
  let turned := { workspace with current := request.table }
  match request.action with
  | .edit edit name given =>
      turned.edit fun table =>
        edit.perform table name given.members
  | .copy => .ok (turned.branch Table.copy)
  | .freeze => .ok (turned.branch Table.freeze)

/- A request that is refused leaves all as it was. -/
def attempt
    (workspace : Workspace)
    (request : TableRequest) : Workspace :=
  match workspace.perform request with
  | .error _ => workspace
  | .ok next => next

/- Make requests one after another. -/
def attemptAll
    (workspace : Workspace)
    (requests : List TableRequest) : Workspace :=
  requests.foldl attempt workspace

variable {workspace : Workspace}
variable {request : TableRequest}

theorem perform_open
    {edit : TableEdit}
    {name : String}
    {given : GivenMembers}
    {i : Nat}
    (hOpen : (workspace.tableAt i).frozen = false) :
    workspace.perform ⟨i, .edit edit name given⟩ =
      .ok
        { workspace with
          stock :=
            workspace.stock.set i
              ((workspace.tableAt i).append name
                (edit.editMembers (workspace.tableAt i) name
                  given.members))
          current := i } := by
  have hEdit :=
    TableEdit.perform_eq_ok hOpen edit name given.members
  rw [tableAt] at hEdit
  simp only [perform, Workspace.edit, Workspace.table]
  rw [hEdit]
  rfl

theorem perform_frozen
    {edit : TableEdit}
    {name : String}
    {given : GivenMembers}
    {i : Nat}
    (hFrozen : (workspace.tableAt i).frozen = true) :
    workspace.perform ⟨i, .edit edit name given⟩ =
      .error .frozen := by
  have hEdit :=
    TableEdit.perform_eq_error hFrozen edit name given.members
  rw [tableAt] at hEdit
  simp only [perform, Workspace.edit, Workspace.table]
  rw [hEdit]

/- What the tables are after a request. -/
theorem stock_attempt
    (workspace : Workspace)
    (request : TableRequest) :
    (workspace.attempt request).stock =
      let table := workspace.tableAt request.table
      match request.action with
      | .edit edit name given =>
          if table.frozen then
            workspace.stock
          else
            workspace.stock.set request.table
              (table.append name
                (edit.editMembers table name given.members))
      | .copy => workspace.stock ++ [table.copy]
      | .freeze => workspace.stock ++ [table.freeze] := by
  rcases request with ⟨i, action⟩
  cases action with
  | edit edit name given =>
      by_cases hFrozen : (workspace.tableAt i).frozen
      · rw [attempt, perform_frozen hFrozen]
        exact (if_pos hFrozen).symm
      · have hOpen := Bool.eq_false_iff.mpr hFrozen
        rw [attempt, perform_open hOpen]
        exact (if_neg hFrozen).symm
  | copy => rfl
  | freeze => rfl

end Workspace

------------------------------------------------------------
-- Histories
------------------------------------------------------------

/- The edits that a table has taken, and if it takes more. -/
structure TableHistory where
  edits : List NamedEdit := []
  frozen : Bool := false
  deriving Repr, DecidableEq

namespace TableHistory

/-
  The histories of tables after a request. A frozen table
  takes no edit, and a copy has the history of its source.
-/
def attempt
    (histories : List TableHistory)
    (request : TableRequest) : List TableHistory :=
  let history := histories[request.table]?.getD {}
  match request.action with
  | .edit edit name given =>
      if history.frozen then
        histories
      else
        histories.set request.table
          { history with
            edits :=
              history.edits ++
                [ { edit := edit
                    name := name
                    given := given.members } ] }
  | .copy => histories ++ [{ history with frozen := false }]
  | .freeze => histories ++ [{ history with frozen := true }]

/- The histories of one fresh table and its copies. -/
def ofRequests
    (requests : List TableRequest) : List TableHistory :=
  requests.foldl attempt [{}]

end TableHistory

/- A table is what its history makes of it. -/
structure Table.Follows
    (table : Table)
    (history : TableHistory) : Prop where
  consistent : table.IsConsistent
  records : table.Records history.edits
  frozen : table.frozen = history.frozen

theorem Table.follows_empty :
    ({} : Table).Follows {} :=
  ⟨isConsistent_empty, records_empty, rfl⟩

/- A copy follows the history of its source. -/
theorem Table.Follows.copied
    {table : Table}
    {history : TableHistory}
    (hTable : table.Follows history)
    (frozen : Bool) :
    Table.Follows { table with frozen := frozen }
      { history with frozen := frozen } where
  consistent :=
    ⟨hTable.consistent.index, hTable.consistent.latest,
      hTable.consistent.defined⟩
  records :=
    ⟨hTable.records.length, hTable.records.entry,
      hTable.records.members⟩
  frozen := rfl

section Pairs

variable {α β : Type}
variable {related : α → β → Prop}
variable {as : List α}
variable {bs : List β}
variable {a : α}
variable {b : β}

theorem forall₂_getD
    (hPairs : List.Forall₂ related as bs)
    (hPair : related a b)
    (i : Nat) :
    related (as[i]?.getD a) (bs[i]?.getD b) := by
  induction hPairs generalizing i with
  | nil => exact hPair
  | cons hFirst _ ih =>
      cases i with
      | zero => exact hFirst
      | succ i => exact ih i

theorem forall₂_set
    (hPairs : List.Forall₂ related as bs)
    (hPair : related a b)
    (i : Nat) :
    List.Forall₂ related (as.set i a) (bs.set i b) := by
  induction hPairs generalizing i with
  | nil => exact .nil
  | cons hFirst hLater ih =>
      cases i with
      | zero => exact .cons hPair hLater
      | succ i => exact .cons hFirst (ih i)

theorem forall₂_concat
    (hPairs : List.Forall₂ related as bs)
    (hPair : related a b) :
    List.Forall₂ related (as ++ [a]) (bs ++ [b]) := by
  induction hPairs with
  | nil => exact .cons hPair .nil
  | cons hFirst _ ih => exact .cons hFirst ih

end Pairs

namespace Workspace

variable {workspace : Workspace}
variable {request : TableRequest}
variable {histories : List TableHistory}

/- Each table goes on to follow its history. -/
theorem follow_attempt
    (hTables :
      List.Forall₂ Table.Follows workspace.stock histories)
    (request : TableRequest) :
    List.Forall₂ Table.Follows (workspace.attempt request).stock
      (TableHistory.attempt histories request) := by
  rw [stock_attempt, TableHistory.attempt]
  have hTable :=
    forall₂_getD hTables Table.follows_empty request.table
  change (workspace.tableAt request.table).Follows _ at hTable
  generalize workspace.tableAt request.table = table at hTable
  generalize histories[request.table]?.getD {} = history
    at hTable
  cases request.action with
  | edit edit name given =>
      dsimp only
      rw [hTable.frozen]
      by_cases hFrozen : history.frozen
      · rw [if_pos hFrozen, if_pos hFrozen]
        exact hTables
      · rw [if_neg hFrozen, if_neg hFrozen]
        apply forall₂_set hTables
        exact
          { consistent := hTable.consistent.append name _
            records :=
              Table.Records.append hTable.consistent
                hTable.records ⟨edit, name, given.members⟩
            frozen := hTable.frozen }
  | copy => exact forall₂_concat hTables (hTable.copied false)
  | freeze => exact forall₂_concat hTables (hTable.copied true)

theorem follow_attemptAll
    (requests : List TableRequest) :
    List.Forall₂ Table.Follows
      ((ofTable {}).attemptAll requests).stock
      (TableHistory.ofRequests requests) := by
  have hFresh :
      List.Forall₂ Table.Follows (ofTable {}).stock [{}] :=
    .cons Table.follows_empty .nil
  rw [attemptAll, TableHistory.ofRequests]
  generalize ofTable {} = workspace at hFresh ⊢
  generalize ([{}] : List TableHistory) = histories at hFresh ⊢
  induction requests generalizing workspace histories with
  | nil => exact hFresh
  | cons request requests ih =>
      exact ih _ _ (follow_attempt hFresh request)

end Workspace

------------------------------------------------------------
-- Entries are kept
------------------------------------------------------------

/-
  A later state of a table: it has all entries, and it is
  the same if the table is frozen.
-/
structure Table.Extends
    (table later : Table) : Prop where
  entries : table.entries <+: later.entries
  frozen : later.frozen = table.frozen
  closed : table.frozen = true → later = table

namespace Table

variable {table later last : Table}

theorem Extends.refl
    (table : Table) :
    table.Extends table :=
  ⟨List.prefix_rfl, rfl, fun _ => rfl⟩

theorem Extends.trans
    (hLater : table.Extends later)
    (hLast : later.Extends last) :
    table.Extends last where
  entries := hLater.entries.trans hLast.entries
  frozen := hLast.frozen.trans hLater.frozen
  closed := by
    intro hFrozen
    rw [hLast.closed (hLater.frozen.trans hFrozen)]
    exact hLater.closed hFrozen

theorem extends_append
    (hOpen : ¬ table.frozen = true)
    (name : String)
    (members : List Member) :
    table.Extends (table.append name members) where
  entries := List.prefix_append _ _
  frozen := rfl
  closed := fun hFrozen => absurd hFrozen hOpen

/- An entry is found where it was, whatever comes after it. -/
theorem Extends.get?_eq
    (hLater : table.Extends later)
    {i : Nat}
    {category : Category}
    (hEntry : table.get? i = some category) :
    later.get? i = some category := by
  rw [get?, nth?_natCast] at hEntry ⊢
  rcases hLater.entries with ⟨more, hMore⟩
  have hInside := (List.getElem?_eq_some_iff.mp hEntry).1
  rw [← hMore, List.getElem?_append_left hInside, hEntry]

end Table

namespace Workspace

variable {workspace : Workspace}
variable {table : Table}
variable {i : Nat}

/- A request keeps a table, or appends if it edits it. -/
theorem exists_later_attempt
    (hTable : workspace.stock[i]? = some table)
    (request : TableRequest) :
    ∃ later,
      (workspace.attempt request).stock[i]? = some later ∧
        table.Extends later ∧
        (¬ request.Edits i → later = table) := by
  rw [stock_attempt]
  have hInside : i < workspace.stock.length :=
    (List.getElem?_eq_some_iff.mp hTable).1
  have hSame :
      table.Extends table ∧
        (¬ request.Edits i → table = table) :=
    ⟨Table.Extends.refl table, fun _ => rfl⟩
  rcases request with ⟨k, action⟩
  cases action with
  | edit edit name given =>
      dsimp only
      by_cases hFrozen : (workspace.tableAt k).frozen
      · rw [if_pos hFrozen]
        exact ⟨table, hTable, hSame⟩
      rw [if_neg hFrozen]
      by_cases hTarget : k = i
      · subst hTarget
        have hCurrent : workspace.tableAt k = table := by
          rw [tableAt, hTable, Option.getD_some]
        rw [hCurrent] at hFrozen ⊢
        rw [List.getElem?_set_self hInside]
        refine ⟨_, rfl, Table.extends_append hFrozen name _, ?_⟩
        intro hOther
        exact absurd ⟨rfl, edit, name, given, rfl⟩ hOther
      · rw [List.getElem?_set_ne hTarget]
        exact ⟨table, hTable, hSame⟩
  | copy =>
      exact ⟨table,
        (List.getElem?_append_left hInside).trans hTable, hSame⟩
  | freeze =>
      exact ⟨table,
        (List.getElem?_append_left hInside).trans hTable, hSame⟩

theorem exists_later_attemptAll
    (hTable : workspace.stock[i]? = some table)
    (requests : List TableRequest) :
    ∃ later,
      (workspace.attemptAll requests).stock[i]? = some later ∧
        table.Extends later ∧
        ((∀ request ∈ requests, ¬ request.Edits i) →
          later = table) := by
  induction requests generalizing workspace table with
  | nil =>
      exact ⟨table, hTable, Table.Extends.refl table, fun _ => rfl⟩
  | cons request requests ih =>
      rcases exists_later_attempt hTable request with
        ⟨next, hNext, hExtends, hKept⟩
      rcases ih hNext with ⟨later, hLater, hMore, hUnchanged⟩
      refine ⟨later, hLater, hExtends.trans hMore, ?_⟩
      intro hOthers
      rw [List.forall_mem_cons] at hOthers
      rw [hUnchanged hOthers.2, hKept hOthers.1]

/-
  Whatever is asked of a fresh table and its copies, each
  table is consistent and is what its own history makes of
  it. However it goes on, the entries of a table stay where
  they are, nothing but an edit of a table changes it, and
  an edit that a frozen table refuses changes nothing.
-/
theorem tables_consistent
    (requests : List TableRequest) :
    let workspace := (ofTable {}).attemptAll requests
    List.Forall₂ Table.Follows workspace.stock
        (TableHistory.ofRequests requests) ∧
      (∀ more i table,
        workspace.stock[i]? = some table →
          ∃ later,
            (workspace.attemptAll more).stock[i]? =
                some later ∧
              table.Extends later ∧
              (∀ (k : Nat) category,
                table.get? k = some category →
                  later.get? k = some category) ∧
              ((∀ request ∈ more, ¬ request.Edits i) →
                later = table)) ∧
      ∀ i edit name given,
        (workspace.tableAt i).frozen = true →
          workspace.perform ⟨i, .edit edit name given⟩ =
              .error .frozen ∧
            workspace.attempt ⟨i, .edit edit name given⟩ =
              workspace := by
  intro workspace
  refine ⟨follow_attemptAll requests, ?_, ?_⟩
  · intro more i table hTable
    rcases exists_later_attemptAll hTable more with
      ⟨later, hLater, hExtends, hKept⟩
    exact ⟨later, hLater, hExtends,
      fun _ _ hEntry => hExtends.get?_eq hEntry, hKept⟩
  · intro i edit name given hFrozen
    have hRefused : workspace.perform ⟨i, .edit edit name given⟩ =
        .error .frozen :=
      perform_frozen hFrozen
    refine ⟨hRefused, ?_⟩
    rw [attempt, hRefused]

/-
  A frozen copy refuses what its own copy takes, and the
  first table has no part in it.
-/
theorem frozenCopy_kept :
    let workspace :=
      (ofTable {}).attemptAll
        [ ⟨0, .edit .extend "V" (.characters "aei")⟩,
          ⟨0, .freeze⟩,
          ⟨1, .copy⟩ ]
    let redefined : TableRequest :=
      ⟨1, .edit .define "V" (.listed [.edge])⟩
    let reduced : TableRequest :=
      ⟨2, .edit .reduce "V" (.characters "ea")⟩
    let after := workspace.attemptAll [redefined, reduced]
    workspace.perform redefined = .error .frozen ∧
      after.stock[0]? = workspace.stock[0]? ∧
      (after.tableAt 1).membersOf "V" =
        ["a", "e", "i"].map Member.ofSymbol ∧
      (after.tableAt 2).membersOf "V" =
        ["i"].map Member.ofSymbol := by
  intro workspace redefined reduced after
  have hTables := tables_consistent
    [ ⟨0, .edit .extend "V" (.characters "aei")⟩,
      ⟨0, .freeze⟩,
      ⟨1, .copy⟩ ]
  rcases hTables.2.1 [redefined, reduced] 0 _ rfl with
    ⟨later, hLater, -, -, hKept⟩
  refine ⟨(hTables.2.2 1 _ _ _ rfl).1, ?_, rfl, rfl⟩
  rw [hLater, hKept]
  · rfl
  · rintro request (_ | ⟨_, _ | ⟨_, hNone⟩⟩) ⟨hOther, -⟩
    · cases hOther
    · cases hOther
    · cases hNone

end Workspace

end Diachrony
