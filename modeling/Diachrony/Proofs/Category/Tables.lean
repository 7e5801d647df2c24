import Diachrony.Category.Table

/-
  What an entry that is appended to a table changes.

  The name of the entry stands for it from then on, and all
  other names stand for what they stood for. A name that is
  new comes after the names that are there, and one that is
  not new keeps its place.

  Key theorems include:
    * `Table.entryOf?_append`
    * `Table.defined_append`
    * `Table.resolve?_append`
    * `Table.membersOf_append`
-/

namespace Diachrony

namespace Table

variable {table : Table}
variable {name other : String}
variable {category : Category}
variable {i : Nat}
variable {names : List (String × Nat)}

------------------------------------------------------------
-- Names
------------------------------------------------------------

theorem mem_point
    {entry : String × Nat}
    (hEntry : entry ∈ point name i names) :
    entry = (name, i) ∨ entry ∈ names := by
  fun_induction point name i names
  case case1 => exact Or.inl (List.mem_singleton.mp hEntry)
  case case2 =>
    rcases List.mem_cons.mp hEntry with rfl | hLater
    · exact Or.inl rfl
    · exact Or.inr (List.mem_cons_of_mem _ hLater)
  case case3 ih =>
    rcases List.mem_cons.mp hEntry with rfl | hLater
    · exact Or.inr List.mem_cons_self
    · exact (ih hLater).imp_right (List.mem_cons_of_mem _)

theorem lookup_point
    (i : Nat)
    (names : List (String × Nat)) :
    (point name i names).lookup name = some i := by
  fun_induction point name i names
  case case1 => exact List.lookup_cons_self
  case case2 => exact List.lookup_cons_self
  case case3 hOther ih =>
    rw [List.lookup_cons, beq_false_of_ne (Ne.symm hOther)]
    exact ih

theorem lookup_point_other
    (hOther : other ≠ name)
    (i : Nat)
    (names : List (String × Nat)) :
    (point other i names).lookup name = names.lookup name := by
  have hBeq : (name == other) = false :=
    beq_false_of_ne hOther.symm
  fun_induction point other i names
  case case1 => rw [List.lookup_cons, hBeq]
  case case2 => rw [List.lookup_cons, List.lookup_cons, hBeq]
  case case3 ih => rw [List.lookup_cons, List.lookup_cons, ih]

/- A name keeps its place, and a new one comes last. -/
theorem map_fst_point
    (name : String)
    (i : Nat)
    (names : List (String × Nat)) :
    (point name i names).map Prod.fst =
      if name ∈ names.map Prod.fst then
        names.map Prod.fst
      else
        names.map Prod.fst ++ [name] := by
  fun_induction point name i names
  case case1 => rfl
  case case2 =>
    rw [List.map_cons, List.map_cons,
      if_pos List.mem_cons_self]
  case case3 other j rest hOther ih =>
    rw [List.map_cons, List.map_cons, ih]
    by_cases hMem : name ∈ rest.map Prod.fst
    · rw [if_pos hMem, if_pos (List.mem_cons_of_mem _ hMem)]
    · rw [if_neg hMem, if_neg, List.cons_append]
      rintro (_ | ⟨_, hLater⟩)
      · exact hOther rfl
      · exact hMem hLater

------------------------------------------------------------
-- Tables
------------------------------------------------------------

/- What the names stand for after an entry is appended. -/
theorem entryOf?_append
    (table : Table)
    (name other : String)
    (members : List Member) :
    (table.append name members).entryOf? other =
      if name = other then
        some table.entries.length
      else
        table.entryOf? other := by
  rw [entryOf?, append]
  by_cases hSame : name = other
  · rw [if_pos hSame, hSame, lookup_point]
  · rw [if_neg hSame, lookup_point_other hSame, entryOf?]

/- Which names are defined after an entry is appended. -/
theorem defined_append
    (table : Table)
    (name : String)
    (members : List Member) :
    (table.append name members).defined =
      if name ∈ table.defined then
        table.defined
      else
        table.defined ++ [name] :=
  map_fst_point name table.entries.length table.names

/- A name stands for the entry that was made for it last. -/
theorem resolve?_append
    (table : Table)
    (name : String)
    (members : List Member) :
    (table.append name members).resolve? name =
      some (table.nextEntry name members) := by
  rw [resolve?, entryOf?_append, if_pos rfl]
  exact List.getElem?_concat_length

theorem membersOf_append
    (table : Table)
    (name : String)
    (members : List Member) :
    (table.append name members).membersOf name = members := by
  rw [membersOf, resolve?_append]
  rfl

/- What a name stands for is not changed by other names. -/
theorem resolve?_append_other
    (hOther : other ≠ name)
    (hResolve : table.resolve? name = some category)
    (members : List Member) :
    (table.append other members).resolve? name =
      some category := by
  rcases Option.bind_eq_some_iff.mp hResolve with
    ⟨i, hEntry, hCategory⟩
  have hInside : i < table.entries.length :=
    (List.getElem?_eq_some_iff.mp hCategory).1
  rw [resolve?, entryOf?_append, if_neg hOther, hEntry]
  exact (List.getElem?_append_left hInside).trans hCategory

end Table

end Diachrony
