import Diachrony.Proofs.Word.CombiningMarks
import Diachrony.Proofs.Word.Uniqueness

/-
  Symbols that are written with a separator between them.

  A symbol that a text is cut into by itself is also cut off
  in front of other text, if no graph reaches from the one
  into the other and the other does not begin with a mark. A
  separator that shares no character with the graphs and the
  symbols stops every graph at the end of a symbol. So the
  symbols that were joined are found again, whatever graphs
  the ends and beginnings of neighbours would spell.

  Key theorems include:
    * `Segmentation.IsNext.append`
    * `Segmentation.pieces_intercalate`
    * `segment_intercalate`
-/

namespace Diachrony

namespace Segmentation

variable {graphs symbols : List (List Char)}
variable {text graph piece behind separator : List Char}

------------------------------------------------------------
-- Text behind a symbol
------------------------------------------------------------

/-
  A graph without the next character of a text does not
  reach into it.
-/
theorem prefix_append_iff
    (hApart : ∀ c ∈ behind.head?, c ∉ graph) :
    graph <+: text ++ behind ↔ graph <+: text := by
  constructor
  · intro hGraph
    rcases List.prefix_or_prefix_of_prefix hGraph
        (List.prefix_append text behind) with
      hInside | ⟨more, rfl⟩
    · exact hInside
    · rw [List.prefix_append_right_inj] at hGraph
      cases more with
      | nil => exact ⟨[], by simp only [List.append_nil]⟩
      | cons c more =>
          rcases hGraph with ⟨rest, rfl⟩
          have hOutside := hApart c rfl
          exact absurd
            (List.mem_append_right text List.mem_cons_self)
            hOutside
  · intro hGraph
    exact hGraph.trans (List.prefix_append text behind)

theorem fits_append_iff
    (hApart : ∀ graph ∈ graphs, ∀ c ∈ behind.head?, c ∉ graph) :
    Fits graphs (text ++ behind) graph ↔
      Fits graphs text graph := by
  constructor
  · rintro ⟨hListed, hLength, hPrefix⟩
    exact ⟨hListed, hLength,
      (prefix_append_iff (hApart graph hListed)).mp hPrefix⟩
  · rintro ⟨hListed, hLength, hPrefix⟩
    exact ⟨hListed, hLength,
      (prefix_append_iff (hApart graph hListed)).mpr hPrefix⟩

/-
  A piece that is a text of its own is cut off in front of
  other text as well.
-/
theorem IsNext.append
    (hNext : IsNext graphs piece piece)
    (hApart : ∀ graph ∈ graphs, ∀ c ∈ behind.head?, c ∉ graph)
    (hMark : isMarked behind = false) :
    IsNext graphs (piece ++ behind) piece := by
  rcases hNext with ⟨hFits, hLongest⟩ | ⟨hNone, hBase⟩
  · apply IsNext.graph
    refine ⟨(fits_append_iff hApart).mpr hFits, ?_⟩
    intro other hOther
    exact hLongest other ((fits_append_iff hApart).mp hOther)
  · apply IsNext.base
    · intro graph hFits
      exact hNone graph ((fits_append_iff hApart).mp hFits)
    · exact ⟨hBase.marked, behind, rfl, hMark⟩

------------------------------------------------------------
-- Separators
------------------------------------------------------------

/- A separator is dropped. -/
theorem pieces_separator
    (hSome : separator ≠ []) :
    Segmentation.pieces graphs separator
        (separator ++ behind) =
      Segmentation.pieces graphs separator behind := by
  rcases List.exists_cons_of_ne_nil hSome with ⟨c, rest, rfl⟩
  have hStarts :
      startsWithSeparator (c :: rest) (c :: (rest ++ behind)) := by
    rw [startsWithSeparator, ← List.cons_append,
      List.isPrefixOf_iff_prefix.mpr (List.prefix_append _ _)]
    rfl
  rw [List.cons_append, Segmentation.pieces, if_pos hStarts,
    List.length_cons, Nat.add_sub_cancel, List.drop_left]

/- None begins where a character stands that it has not. -/
theorem not_startsWithSeparator
    {c : Char}
    (hOutside : c ∉ separator) :
    startsWithSeparator separator (c :: text) = false := by
  cases separator with
  | nil => rfl
  | cons d separator =>
      have hOther : (d == c) = false := by
        apply beq_false_of_ne
        rintro rfl
        exact hOutside List.mem_cons_self
      rw [startsWithSeparator, List.isPrefixOf, hOther]
      rfl

/- What stands behind a symbol of a joined text. -/
inductive Closes
    (separator : List Char) : List Char → Prop where
  | done : Closes separator []
  | next (rest : List Char) :
      Closes separator (separator ++ rest)

theorem Closes.isMarked_eq
    (hCloses : Closes separator behind)
    (hSome : separator ≠ [])
    (hMark : isMarked separator = false) :
    isMarked behind = false := by
  cases hCloses with
  | done => rfl
  | next rest =>
      rwa [isMarked, List.head?_append_of_ne_nil _ hSome]

theorem Closes.head_mem
    (hCloses : Closes separator behind)
    (hSome : separator ≠ []) :
    ∀ c ∈ behind.head?, c ∈ separator := by
  intro c hHead
  cases hCloses with
  | done => cases hHead
  | next rest =>
      rw [List.head?_append_of_ne_nil _ hSome] at hHead
      exact List.mem_of_mem_head? hHead

/- A symbol in front of a separator or the end is found. -/
theorem pieces_closed
    (hSome : separator ≠ [])
    (hMark : isMarked separator = false)
    (hGraphs : ∀ graph ∈ graphs, graph.Disjoint separator)
    (hNext : IsNext graphs piece piece)
    (hPiece : piece.Disjoint separator)
    (hCloses : Closes separator behind) :
    Segmentation.pieces graphs separator (piece ++ behind) =
      piece :: Segmentation.pieces graphs separator behind := by
  apply pieces_of_isNext
  · rcases List.exists_cons_of_ne_nil hNext.ne_nil with
      ⟨c, rest, rfl⟩
    exact not_startsWithSeparator (hPiece List.mem_cons_self)
  · apply hNext.append
    · intro graph hListed c hHead hInside
      exact hGraphs graph hListed hInside
        (hCloses.head_mem hSome c hHead)
    · exact hCloses.isMarked_eq hSome hMark

theorem pieces_intercalate
    (hSome : separator ≠ [])
    (hMark : isMarked separator = false)
    (hGraphs : ∀ graph ∈ graphs, graph.Disjoint separator)
    (hNext : ∀ piece ∈ symbols, IsNext graphs piece piece)
    (hSymbols : ∀ piece ∈ symbols, piece.Disjoint separator) :
    Segmentation.pieces graphs separator
        (separator.intercalate symbols) =
      symbols := by
  induction symbols with
  | nil => rw [List.intercalate_nil, Segmentation.pieces]
  | cons first later ih =>
      rw [List.forall_mem_cons] at hNext hSymbols
      have hLater := ih hNext.2 hSymbols.2
      have hFirst {behind} :=
        @pieces_closed graphs first behind separator hSome hMark
          hGraphs hNext.1 hSymbols.1
      cases later with
      | nil =>
          rw [List.intercalate_singleton,
            ← List.append_nil first, hFirst Closes.done,
            List.append_nil, Segmentation.pieces]
      | cons second later =>
          rw [List.intercalate_cons_cons, List.append_assoc,
            hFirst (Closes.next _), pieces_separator hSome,
            hLater]

end Segmentation

------------------------------------------------------------
-- Symbols
------------------------------------------------------------

variable {graphs : List String}
variable {separator : String}
variable {symbols : List Symbol}

/- A symbol that a text consists of is its next symbol. -/
theorem isNextSymbol_self
    {symbol : Symbol}
    (hAtomic : segment graphs none symbol = [symbol]) :
    IsNextSymbol graphs symbol symbol := by
  have hNext :=
    (segment_eq_iff.mp hAtomic).2 [] symbol [] rfl
  rwa [String.join_cons, String.join_nil, String.append_empty]
    at hNext

/- Whether texts share a character can be tried on each. -/
theorem disjoint_of_all
    {text other : List Char}
    (hAll : text.all (· ∉ other) = true) :
    text.Disjoint other := by
  intro c hMem
  simpa using List.all_eq_true.mp hAll c hMem

/-
  Joining symbols with a separator and segmenting the text
  gives the symbols, if each of them is cut off as a whole
  when it stands alone, the separator shares no character
  with them and with the graphs, and it does not begin with
  a mark.
-/
theorem segment_intercalate
    (hSome : separator ≠ "")
    (hMark : beginsWithMark separator = false)
    (hGraphs :
      ∀ graph ∈ graphs,
        graph.toList.Disjoint separator.toList)
    (hAtomic :
      ∀ symbol ∈ symbols,
        segment graphs none symbol = [symbol])
    (hSymbols :
      ∀ symbol ∈ symbols,
        symbol.toList.Disjoint separator.toList) :
    segment graphs (some separator)
        (separator.intercalate symbols) =
      symbols := by
  rw [segment_eq_iff_pieces, String.toList_intercalate]
  apply Segmentation.pieces_intercalate
  · intro hNone
    exact hSome (String.toList_injective hNone)
  · exact hMark
  · exact List.forall_mem_map.mpr hGraphs
  · intro piece hPiece
    rcases List.mem_map.mp hPiece with ⟨symbol, hSymbol, rfl⟩
    exact isNextSymbol_self (hAtomic symbol hSymbol)
  · exact List.forall_mem_map.mpr hSymbols

/-
  The neighbours `t`, `s` and `h` would spell a graph of
  three characters. A separator of two keeps them apart, and
  neither a mark nor a whole graph is lost.
-/
theorem polygraph_broken_up :
    segment ["ts", "sh", "tsh"] (some "'-")
        ("'-".intercalate ["t", "s", "h", "s\u0301", "tsh"]) =
      ["t", "s", "h", "s\u0301", "tsh"] := by
  have hGraphs :
      ∀ graph ∈ ["ts", "sh", "tsh"],
        graph.toList.all (· ∉ "'-".toList) = true := by
    decide
  have hSymbols :
      ∀ symbol ∈ ["t", "s", "h", "s\u0301", "tsh"],
        symbol.toList.all (· ∉ "'-".toList) = true := by
    decide
  exact
    segment_intercalate (by decide) (by decide +kernel)
      (fun graph hGraph =>
        disjoint_of_all (hGraphs graph hGraph))
      (by decide +kernel)
      (fun symbol hSymbol =>
        disjoint_of_all (hSymbols symbol hSymbol))

end Diachrony
