import Diachrony.Proofs.Source.Parts
import Diachrony.Source.CategoryText

/-
  The items of a category line.

  A list of members is cut at its commas outside brackets,
  and each item is read by itself. So the list is read if
  and only if each item can be, and what it stands for is
  what its items stand for, one after another.

  Key definitions include:
    * `MemberText.lent`
    * `MemberText.problems`
    * `MemberText.IsReadFrom`
    * `IsMemberText`

  Key theorems include:
    * `exists_isReadFrom_iff`
    * `splitFrom_skip`
    * `readCategoryBody_eq_ok_iff`
    * `readCategoryBody_isOk_iff`
-/

namespace Diachrony

open Unicode

------------------------------------------------------------
-- Items
------------------------------------------------------------

/- The members that an item stands for, wherever it stands. -/
def MemberText.lent
    (table : Table)
    (graphs : List String) : MemberText → List Member
  | .edge => [[.edge]]
  | .symbols text =>
      [Member.ofSymbols (segment graphs none text)]
  | .nested name => table.membersOf name

/- What is wrong with an item that is read. -/
def MemberText.problems
    (table : Table) : MemberText → List Problem
  | .edge => []
  | .symbols _ => []
  | .nested name =>
      if (table.resolve? name).isSome then
        []
      else
        [.undefinedCategory name]

/- A text that is read as an item, wherever it stands. -/
def MemberText.IsReadFrom
    (item : MemberText)
    (text : List Char) : Prop :=
  ∀ place, MemberText.ofText place text = .ok item

/-
  A text that is not empty and either stands in square
  brackets or contains none.
-/
def IsMemberText
    (text : List Char) : Prop :=
  text ≠ [] ∧
    ((text.head? = some '[' ∧ text.getLast? = some ']') ∨
      ('[' ∉ text ∧ ']' ∉ text))

instance
    (text : List Char) :
    Decidable (IsMemberText text) := by
  unfold IsMemberText
  infer_instance

section Items

variable {table : Table}
variable {graphs : List String}
variable {place : Place}
variable {item : MemberText}
variable {text : List Char}

theorem MemberText.members_fst :
    (item.members table graphs place).1 =
      item.lent table graphs := by
  cases item with
  | edge => rfl
  | symbols text => rfl
  | nested name =>
      rw [members, lent, Table.membersOf]
      cases table.resolve? name <;> rfl

theorem MemberText.members_problems :
    (item.members table graphs place).2.map
        Diagnostic.problem =
      item.problems table := by
  cases item with
  | edge => rfl
  | symbols text => rfl
  | nested name =>
      rw [members, problems]
      cases table.resolve? name <;> rfl

/- Where an item stands only matters if it is refused. -/
theorem MemberText.IsReadFrom.of_place
    (hRead : MemberText.ofText place text = .ok item) :
    item.IsReadFrom text := by
  intro other
  unfold MemberText.ofText at hRead ⊢
  split at hRead
  · cases hRead
  rename_i hSome
  rw [if_neg hSome]
  split at hRead
  · rename_i hEdge
    rw [if_pos hEdge]
    exact hRead
  rename_i hOther
  rw [if_neg hOther]
  split at hRead
  · rename_i hWrapped
    rw [if_pos hWrapped]
    exact hRead
  rename_i hBare
  rw [if_neg hBare]
  split at hRead
  · cases hRead
  · rename_i hPlain
    rw [if_neg hPlain]
    exact hRead

/- What is read of the three kinds of items. -/
theorem MemberText.IsReadFrom.cases
    (hRead : item.IsReadFrom text) :
    text ≠ [] ∧
      ((item = .edge ∧ text = ['#']) ∨
        (item =
            .nested
              (String.ofList (trim (text.drop 1).dropLast)) ∧
          text.head? = some '[' ∧ text.getLast? = some ']') ∨
        (item =
            .symbols (String.ofList (text.filter (· ≠ '\\'))) ∧
          '[' ∉ text ∧ ']' ∉ text)) := by
  have hHere := hRead ⟨0, 0⟩
  unfold MemberText.ofText at hHere
  split at hHere
  · cases hHere
  rename_i hSome
  refine ⟨by simpa using hSome, ?_⟩
  split at hHere
  · cases hHere
    exact Or.inl ⟨rfl, ‹_›⟩
  split at hHere
  · cases hHere
    exact Or.inr (Or.inl ⟨rfl, ‹_›⟩)
  split at hHere
  · cases hHere
  · rename_i hPlain
    cases hHere
    exact Or.inr (Or.inr ⟨rfl, by simpa [not_or] using hPlain⟩)

/- Items are those texts that can be read as some. -/
theorem exists_isReadFrom_iff :
    (∃ item : MemberText, item.IsReadFrom text) ↔
      IsMemberText text := by
  constructor
  · rintro ⟨item, hRead⟩
    rcases hRead.cases with
      ⟨hSome, ⟨_, rfl⟩ | ⟨_, hWrapped⟩ | ⟨_, hPlain⟩⟩
    · decide
    · exact ⟨hSome, Or.inl hWrapped⟩
    · exact ⟨hSome, Or.inr hPlain⟩
  · rintro ⟨hSome, hBrackets⟩
    have hNone : text.isEmpty = false := by simpa using hSome
    by_cases hEdge : text = ['#']
    · exact ⟨.edge, fun _ => by simp [MemberText.ofText, hEdge]⟩
    rcases hBrackets with hWrapped | ⟨hOpening, hClosing⟩
    · refine
        ⟨.nested (String.ofList (trim (text.drop 1).dropLast)),
          fun place => ?_⟩
      rw [MemberText.ofText, hNone, if_neg Bool.false_ne_true,
        if_neg hEdge, if_pos hWrapped]
    · refine
        ⟨.symbols (String.ofList (text.filter (· ≠ '\\'))),
          fun place => ?_⟩
      have hBare :
          ¬(text.head? = some '[' ∧
            text.getLast? = some ']') :=
        fun hBoth => hOpening (List.mem_of_head? hBoth.1)
      have hPlain :
          ¬(text.contains '[' = true ∨
            text.contains ']' = true) := by
        simp [hOpening, hClosing]
      rw [MemberText.ofText, hNone, if_neg Bool.false_ne_true,
        if_neg hEdge, if_neg hBare, if_neg hPlain]

end Items

------------------------------------------------------------
-- Cuts
------------------------------------------------------------

section Cuts

variable {isSeparator : Char → Bool}
variable {depth last : Int}
variable {part gap rest body : List Char}
variable {c : Char}

theorem splitFrom_plain
    (hPlain : c ≠ '\\') :
    splitFrom isSeparator depth part (c :: rest) =
      if isSeparator c && bracketDepth depth c = 0 then
        part.reverse ::
          splitFrom isSeparator (bracketDepth depth c) [] rest
      else
        splitFrom isSeparator (bracketDepth depth c)
          (c :: part) rest := by
  rw [splitFrom.eq_def]
  split
  · rename_i hNil
    cases hNil
  · rename_i hCons
    cases hCons
    exact absurd rfl hPlain
  · rename_i hCons
    cases hCons
    exact absurd rfl hPlain
  · rename_i hCons
    cases hCons
    rfl

/- Where nothing is separated the part goes on. -/
theorem splitFrom_skip
    (hPlain : ∀ c ∈ gap, c ≠ '\\')
    (hJoined : ∀ c ∈ gap, isSeparator c = false)
    (hDepth : depthAfter depth gap = some last) :
    splitFrom isSeparator depth part (gap ++ rest) =
      splitFrom isSeparator last (gap.reverse ++ part) rest := by
  induction gap generalizing depth part with
  | nil =>
      cases hDepth
      rfl
  | cons c gap ih =>
      rcases List.forall_mem_cons.mp hPlain with
        ⟨hFirst, hLater⟩
      rcases List.forall_mem_cons.mp hJoined with
        ⟨hHere, hThere⟩
      rw [depthAfter_plain hFirst] at hDepth
      rw [List.cons_append, splitFrom_plain hFirst, hHere,
        Bool.false_and, if_neg Bool.false_ne_true,
        ih hLater hThere hDepth, List.reverse_cons,
        List.append_assoc, List.singleton_append]

/- The first part ends at a separator outside brackets. -/
theorem splitFrom_separator
    (hPlain : c ≠ '\\')
    (hSeparator : isSeparator c = true)
    (hLevel : bracketDepth depth c = 0) :
    splitFrom isSeparator depth part (c :: rest) =
      part.reverse :: splitFrom isSeparator 0 [] rest := by
  rw [splitFrom_plain hPlain, hSeparator, hLevel]
  rfl

theorem isComma_of_blank
    (hBlank : isBlank c = true) :
    isComma c = false :=
  decide_eq_false (ne_of_blank hBlank (by decide))

/- A list without members has an empty item. -/
theorem splitTop_of_blanks
    (hBlanks : trim body = []) :
    splitTop isComma body = [body] := by
  have hAll : ∀ c ∈ body, isBlank c = true := by
    intro c hMem
    by_contra hOther
    have hLeft := mem_trim hMem (Bool.eq_false_iff.mpr hOther)
    rw [hBlanks] at hLeft
    cases hLeft
  have hDepth : depthAfter 0 body = some 0 := by
    have hWhole : depthAfter 0 (body ++ []) = depthAfter 0 [] :=
      depthAfter_blanks hAll
    rwa [List.append_nil] at hWhole
  have hSplit :
      splitFrom isComma 0 [] (body ++ []) =
        splitFrom isComma 0 (body.reverse ++ []) [] :=
    splitFrom_skip
      (fun c hMem => ne_of_blank (hAll c hMem) (by decide))
      (fun c hMem => isComma_of_blank (hAll c hMem)) hDepth
  rw [List.append_nil, List.append_nil, splitFrom,
    List.reverse_reverse] at hSplit
  exact hSplit

end Cuts

------------------------------------------------------------
-- Lists
------------------------------------------------------------

section Lists

variable {table : Table}
variable {graphs : List String}
variable {place : Place}
variable {line column : Int}
variable {parts : List (List Char)}
variable {body : List Char}
variable {members : List Member}
variable {problems : List Problem}

/- Texts that are read as items, with the blanks around them. -/
abbrev ReadsItems
    (parts : List (List Char))
    (items : List MemberText) : Prop :=
  List.Forall₂
    (fun part item => MemberText.IsReadFrom item (trim part))
    parts items

/- Texts are read if each of them is, and item by item. -/
theorem readMemberTexts_eq_ok_iff :
    (∃ diagnostics,
        readMemberTexts table graphs line column parts =
            .ok (members, diagnostics) ∧
          diagnostics.map Diagnostic.problem = problems) ↔
      ∃ items,
        ReadsItems parts items ∧
          members =
            items.flatMap (MemberText.lent table graphs) ∧
          problems =
            items.flatMap (MemberText.problems table) := by
  induction parts generalizing column members problems with
  | nil =>
      constructor
      · rintro ⟨diagnostics, hRead, rfl⟩
        cases hRead
        exact ⟨[], .nil, rfl, rfl⟩
      · rintro ⟨items, hItems, rfl, rfl⟩
        cases hItems
        exact ⟨[], rfl, rfl⟩
  | cons part rest ih =>
      constructor
      · rintro ⟨diagnostics, hRead, rfl⟩
        unfold readMemberTexts at hRead
        dsimp only at hRead
        split at hRead
        · cases hRead
        rename_i item hItem
        split at hRead
        · cases hRead
        rename_i hRest
        cases hRead
        rcases ih.mp ⟨_, hRest, rfl⟩ with
          ⟨items, hItems, rfl, hProblems⟩
        refine
          ⟨item :: items,
            .cons (.of_place hItem) hItems, ?_, ?_⟩
        · rw [MemberText.members_fst, List.flatMap_cons]
        · rw [List.map_append, MemberText.members_problems,
            hProblems, List.flatMap_cons]
      · rintro ⟨items, hItems, rfl, rfl⟩
        cases hItems with
        | @cons _ item _ items hItem hItems =>
          rcases (@ih (column + part.length + 1) _ _).mpr
              ⟨items, hItems, rfl, rfl⟩ with
            ⟨diagnostics, hRest, hProblems⟩
          simp only [readMemberTexts, hItem _, hRest,
            MemberText.members_fst]
          refine ⟨_, rfl, ?_⟩
          rw [List.map_append, MemberText.members_problems,
            hProblems, List.flatMap_cons]

/- A list of members is read if its parts are, part by part. -/
theorem readCategoryBody_eq_ok_iff :
    (∃ diagnostics,
        readCategoryBody table graphs place body =
            .ok (members, diagnostics) ∧
          diagnostics.map Diagnostic.problem = problems) ↔
      ∃ items,
        ReadsItems (splitTop isComma body) items ∧
          members =
            items.flatMap (MemberText.lent table graphs) ∧
          problems =
            items.flatMap (MemberText.problems table) := by
  rw [readCategoryBody]
  split
  · rename_i hBlank
    have hBlanks := List.isEmpty_iff.mp hBlank
    refine iff_of_false (fun ⟨_, hRead, _⟩ => nomatch hRead) ?_
    rintro ⟨items, hItems, _⟩
    rw [splitTop_of_blanks hBlanks] at hItems
    cases hItems with
    | cons hItem _ =>
      rw [hBlanks] at hItem
      exact (exists_isReadFrom_iff.mp ⟨_, hItem⟩).1 rfl
  · exact readMemberTexts_eq_ok_iff

theorem exists_readsItems_iff :
    (∃ items, ReadsItems parts items) ↔
      ∀ part ∈ parts, IsMemberText (trim part) := by
  induction parts with
  | nil =>
      exact iff_of_true ⟨[], .nil⟩ (List.forall_mem_nil _)
  | cons part rest ih =>
      rw [List.forall_mem_cons, ← ih, ← exists_isReadFrom_iff]
      constructor
      · rintro ⟨items, hItems⟩
        cases hItems with
        | cons hItem hItems =>
          exact ⟨⟨_, hItem⟩, ⟨_, hItems⟩⟩
      · rintro ⟨⟨item, hItem⟩, ⟨items, hItems⟩⟩
        exact ⟨item :: items, .cons hItem hItems⟩

/- It can be read at all if each part is an item. -/
theorem readCategoryBody_isOk_iff :
    (∃ result,
        readCategoryBody table graphs place body =
          .ok result) ↔
      ∀ part ∈ splitTop isComma body,
        IsMemberText (trim part) := by
  rw [← exists_readsItems_iff]
  constructor
  · rintro ⟨⟨members, diagnostics⟩, hRead⟩
    rcases readCategoryBody_eq_ok_iff.mp
        ⟨diagnostics, hRead, rfl⟩ with
      ⟨items, hItems, _⟩
    exact ⟨items, hItems⟩
  · rintro ⟨items, hItems⟩
    rcases readCategoryBody_eq_ok_iff.mpr
        ⟨items, hItems, rfl, rfl⟩ with
      ⟨diagnostics, hRead, _⟩
    exact ⟨_, hRead⟩

end Lists

end Diachrony
