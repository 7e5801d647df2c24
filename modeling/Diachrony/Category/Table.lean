import Diachrony.Category

/-
  Tables of named categories.

  A table keeps every category it has ever held. Defining a
  name again adds a new entry and points the name at it, so
  whatever was built on the old entry keeps it. A frozen
  table refuses all edits.

  Key definitions include:
    * `Table`
    * `Table.resolve?`
    * `Table.append`
    * `Table.define`
    * `Table.add`
    * `Table.subtract`
-/

namespace Diachrony

/- Why a table refuses a request. -/
inductive TableError where
  | frozen
  | undefinedCategory (name : String)
  deriving Repr, DecidableEq

/- What a refused request is told. -/
def TableError.message : TableError → String
  | .frozen => "category table is frozen"
  | .undefinedCategory name =>
      "category " ++ quote name ++ " is not defined"

/-
  All entries ever made, and for each name, in the order of
  first definition, the entry that it stands for.
-/
structure Table where
  entries : List Category := []
  names : List (String × Nat) := []
  frozen : Bool := false
  deriving Repr, DecidableEq

namespace Table

------------------------------------------------------------
-- Lookup
------------------------------------------------------------

/- The entry that a name stands for. -/
def entryOf?
    (table : Table)
    (name : String) : Option Nat :=
  table.names.lookup name

/- Whether a name is defined. -/
def contains
    (table : Table)
    (name : String) : Bool :=
  (table.entryOf? name).isSome

/- The category that a name stands for. -/
def resolve?
    (table : Table)
    (name : String) : Option Category :=
  (table.entryOf? name).bind fun i => table.entries[i]?

/- The category of a name that has to be defined. -/
def resolve
    (table : Table)
    (name : String) : Except TableError Category :=
  match table.resolve? name with
  | none => .error (.undefinedCategory name)
  | some category => .ok category

/- The members of a name; an undefined name has none. -/
def membersOf
    (table : Table)
    (name : String) : List Member :=
  match table.resolve? name with
  | none => []
  | some category => category.members

/- The entry at an index that may count from the end. -/
def get?
    (table : Table)
    (i : Int) : Option Category :=
  nth? table.entries i

/- The defined names in the order of their first definition. -/
def defined
    (table : Table) : List String :=
  table.names.map Prod.fst

/- The number of defined names. -/
def size
    (table : Table) : Nat :=
  table.names.length

/- The categories in the order of their names. -/
def categories
    (table : Table) : List Category :=
  table.names.filterMap fun entry => table.entries[entry.2]?

/- A table as shown in a listing. -/
def describe
    (table : Table) : String :=
  "CategoryTable(" ++ toString table.size ++ " categories)"

------------------------------------------------------------
-- Edits
------------------------------------------------------------

/- Point a name at an entry, keeping the place of the name. -/
def point
    (name : String)
    (i : Nat) :
    List (String × Nat) → List (String × Nat)
  | [] => [(name, i)]
  | (other, j) :: rest =>
      if other = name then
        (name, i) :: rest
      else
        (other, j) :: point name i rest

/- The entry that the next definition of a name makes. -/
def nextEntry
    (table : Table)
    (name : String)
    (members : List Member) : Category where
  name := name
  members := members
  index := table.entries.length

/- Enter a category whether or not the table is frozen. -/
def append
    (table : Table)
    (name : String)
    (members : List Member) : Table :=
  { table with
    entries := table.entries ++ [table.nextEntry name members]
    names := point name table.entries.length table.names }

/- Make a name stand for the given members. -/
def define
    (table : Table)
    (name : String)
    (members : List Member) : Except TableError Table :=
  if table.frozen then
    .error .frozen
  else
    .ok (table.append name members)

/- The members of a name with others after them. -/
def extended
    (table : Table)
    (name : String)
    (members : List Member) : List Member :=
  table.membersOf name ++ members

/- The members of a name without those that are listed. -/
def reduced
    (table : Table)
    (name : String)
    (members : List Member) : List Member :=
  (table.membersOf name).filter fun m => !members.contains m

/- Add members to a name; an undefined name is created. -/
def add
    (table : Table)
    (name : String)
    (members : List Member) : Except TableError Table :=
  table.define name (table.extended name members)

/- Remove members from a name; an undefined name is created. -/
def subtract
    (table : Table)
    (name : String)
    (members : List Member) : Except TableError Table :=
  table.define name (table.reduced name members)

/- Make a name stand for the members of another name. -/
def defineFrom
    (table : Table)
    (name source : String) : Except TableError Table :=
  match table.resolve source with
  | .error e => .error e
  | .ok category => table.define name category.members

/- The same table, closed to edits. -/
def freeze
    (table : Table) : Table :=
  { table with frozen := true }

/- The same table, open to edits. -/
def copy
    (table : Table) : Table :=
  { table with frozen := false }

/- A table that defines the given names one after another. -/
def ofList
    (definitions : List (String × List Member)) : Table :=
  definitions.foldl
    (fun table entry => table.append entry.1 entry.2)
    {}

end Table

end Diachrony
