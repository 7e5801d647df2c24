import Diachrony.Category.Table

/-
  Several tables at hand.

  A workspace has one current table. A table can be saved
  under a name and made current again later. What is saved
  is the table itself and not its present content, so later
  edits of it show under every name it was saved by, while
  a copy is a new table.

  Key definitions include:
    * `Workspace`
    * `Workspace.table`
    * `Workspace.edit`
    * `Workspace.branch`
    * `Workspace.save`
    * `Workspace.load?`
-/

namespace Diachrony

/- A stock of tables, the current one and the saved ones. -/
structure Workspace where
  stock : List Table
  current : Nat := 0
  saved : List (String × Nat) := []
  deriving Repr, DecidableEq

namespace Workspace

/- A workspace with one table. -/
def ofTable
    (table : Table) : Workspace :=
  { stock := [table] }

/- The current table. -/
def table
    (workspace : Workspace) : Table :=
  workspace.stock[workspace.current]?.getD {}

/- Replace the content of the current table. -/
def update
    (workspace : Workspace)
    (table : Table) : Workspace :=
  { workspace with
    stock := workspace.stock.set workspace.current table }

/- Edit the current table. A refused edit changes nothing. -/
def edit
    (workspace : Workspace)
    (change : Table → Except TableError Table) :
    Except TableError Workspace :=
  match change workspace.table with
  | .error e => .error e
  | .ok table => .ok (workspace.update table)

/- Make a new table from the current one and turn to it. -/
def branch
    (workspace : Workspace)
    (derive : Table → Table) : Workspace :=
  { workspace with
    stock := workspace.stock ++ [derive workspace.table]
    current := workspace.stock.length }

/- Save the current table under a name. -/
def save
    (workspace : Workspace)
    (name : String) : Workspace :=
  { workspace with
    saved :=
      Table.point name workspace.current workspace.saved }

/- Turn to a saved table. -/
def load?
    (workspace : Workspace)
    (name : String) : Option Workspace :=
  (workspace.saved.lookup name).map fun i =>
    { workspace with current := i }

end Workspace

end Diachrony
