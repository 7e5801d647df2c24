import Diachrony.Proofs.Word.Pieces
import Mathlib.Data.List.Basic

/-
  What the symbols of a text are, said without the search
  for them.

  The next symbol of a text is the longest listed graph of
  two or more characters that the text begins with. Where no
  such graph fits, it is one character with all the marks
  behind it. Two graphs of one length cannot both be the
  longest, so a text is cut into such symbols in one way
  only, which is the one that segmentation finds. What else
  the list of graphs contains, and in which order, is
  immaterial.

  Key definitions include:
    * `Segmentation.Fits`
    * `Segmentation.IsNext`
    * `IsNextSymbol`

  Key theorems include:
    * `Segmentation.longestGraph?_eq_some_iff`
    * `Segmentation.pieces_of_isNext`
    * `Segmentation.pieces_eq_iff`
    * `segment_unique`
-/

namespace Diachrony

namespace Segmentation

variable {graphs others pieces : List (List Char)}
variable {text other graph piece behind : List Char}
variable {separator : List Char}

------------------------------------------------------------
-- The longest graph
------------------------------------------------------------

/-
  A listed graph of two or more characters that a text
  begins with.
-/
structure Fits
    (graphs : List (List Char))
    (text graph : List Char) : Prop where
  listed : graph ∈ graphs
  two_le : 2 ≤ graph.length
  isPrefix : graph <+: text

/- A graph that fits and is not shorter than any that does. -/
structure IsLongest
    (graphs : List (List Char))
    (text graph : List Char) : Prop where
  fits : Fits graphs text graph
  longest :
    ∀ other, Fits graphs text other →
      other.length ≤ graph.length

/- What is found is not shorter than a graph that fits. -/
theorem exists_longestGraph?
    (hFits : Fits graphs text other) :
    ∃ graph,
      longestGraph? text graphs = some graph ∧
        other.length ≤ graph.length := by
  induction graphs with
  | nil => exact absurd hFits.listed List.not_mem_nil
  | cons first graphs ih =>
      have hOther : other = first ∨ Fits graphs text other := by
        rcases List.mem_cons.mp hFits.listed with
          hFirst | hLater
        · exact Or.inl hFirst
        · exact Or.inr ⟨hLater, hFits.two_le, hFits.isPrefix⟩
      rw [longestGraph?]
      by_cases hFirst :
          2 ≤ first.length ∧ first.isPrefixOf text
      · rw [if_pos hFirst]
        rcases hOther with rfl | hLater
        · cases longestGraph? text graphs with
          | none => exact ⟨other, rfl, Nat.le_refl _⟩
          | some longer =>
              dsimp only
              split
              · exact ⟨longer, rfl, by omega⟩
              · exact ⟨other, rfl, Nat.le_refl _⟩
        · rcases ih hLater with ⟨longer, hFound, hLonger⟩
          rw [hFound]
          dsimp only
          split
          · exact ⟨longer, rfl, hLonger⟩
          · exact ⟨first, rfl, by omega⟩
      · rw [if_neg hFirst]
        rcases hOther with rfl | hLater
        · refine absurd ⟨hFits.two_le, ?_⟩ hFirst
          exact List.isPrefixOf_iff_prefix.mpr hFits.isPrefix
        · exact ih hLater

theorem fits_of_longestGraph?
    (hFound : longestGraph? text graphs = some graph) :
    Fits graphs text graph := by
  rcases longestGraph?_spec hFound with
    ⟨hListed, hLength, hPrefix⟩
  exact ⟨hListed, hLength, hPrefix⟩

/- Two graphs that are both the longest are the same. -/
theorem longestGraph?_eq_some_iff :
    longestGraph? text graphs = some graph ↔
      IsLongest graphs text graph := by
  constructor
  · intro hFound
    refine ⟨fits_of_longestGraph? hFound, ?_⟩
    intro other hFits
    rcases exists_longestGraph? hFits with
      ⟨longer, hLonger, hLength⟩
    rw [hFound, Option.some.injEq] at hLonger
    rwa [hLonger]
  · intro hLongest
    rcases exists_longestGraph? hLongest.fits with
      ⟨longer, hFound, hLength⟩
    have hFits := fits_of_longestGraph? hFound
    have hPrefix : graph <+: longer :=
      List.prefix_of_prefix_length_le hLongest.fits.isPrefix
        hFits.isPrefix hLength
    rw [hFound,
      hPrefix.eq_of_length_le (hLongest.longest longer hFits)]

theorem longestGraph?_eq_none_iff :
    longestGraph? text graphs = none ↔
      ∀ graph, ¬ Fits graphs text graph := by
  constructor
  · intro hNone graph hFits
    rcases exists_longestGraph? hFits with ⟨_, hFound, -⟩
    rw [hNone] at hFound
    cases hFound
  · intro hNone
    apply Option.eq_none_iff_forall_ne_some.mpr
    intro graph hFound
    exact hNone graph (fits_of_longestGraph? hFound)

------------------------------------------------------------
-- The next piece
------------------------------------------------------------

/- A character at the front with all the marks behind it. -/
structure IsBase
    (text piece : List Char) : Prop where
  marked :
    ∃ base marks,
      piece = base :: marks ∧
        ∀ mark ∈ marks, Unicode.isCombining mark
  ends :
    ∃ behind, text = piece ++ behind ∧ isMarked behind = false

/-
  What is cut off a text next: the longest graph that fits,
  or a character with its marks if none fits.
-/
inductive IsNext
    (graphs : List (List Char))
    (text piece : List Char) : Prop where
  | graph
      (hLongest : IsLongest graphs text piece)
  | base
      (hNone : ∀ graph, ¬ Fits graphs text graph)
      (hBase : IsBase text piece)

theorem IsNext.ne_nil
    (hNext : IsNext graphs text piece) :
    piece ≠ [] := by
  rcases hNext with hLongest | ⟨-, ⟨⟨base, marks, rfl, -⟩, -⟩⟩
  · apply List.ne_nil_of_length_pos
    have := hLongest.fits.two_le
    omega
  · exact List.cons_ne_nil base marks

/- The next piece depends on the graphs that fit only. -/
theorem IsNext.congr
    (hNext : IsNext graphs text piece)
    (hSame :
      ∀ graph,
        Fits graphs text graph ↔ Fits others text graph) :
    IsNext others text piece := by
  rcases hNext with ⟨hFits, hLongest⟩ | ⟨hNone, hBase⟩
  · apply IsNext.graph
    refine ⟨(hSame piece).mp hFits, ?_⟩
    intro other hOther
    exact hLongest other ((hSame other).mpr hOther)
  · apply IsNext.base ?_ hBase
    intro graph hFits
    exact hNone graph ((hSame graph).mpr hFits)

/- Marks are taken up to where none is next. -/
theorem takeWhile_marks
    {marks : List Char}
    (hMarks : ∀ mark ∈ marks, Unicode.isCombining mark)
    (hEnds : isMarked behind = false) :
    (marks ++ behind).takeWhile Unicode.isCombining = marks ∧
      (marks ++ behind).dropWhile Unicode.isCombining =
        behind := by
  rw [List.takeWhile_append_of_pos hMarks,
    List.dropWhile_append_of_pos hMarks]
  cases behind with
  | nil => exact ⟨List.append_nil marks, rfl⟩
  | cons c behind =>
      have hOther : ¬ Unicode.isCombining c := by
        simpa [isMarked] using hEnds
      rw [List.takeWhile_cons_of_neg hOther,
        List.dropWhile_cons_of_neg hOther, List.append_nil]
      exact ⟨rfl, rfl⟩

/-
  Where no separator is next, the next piece is cut off and
  the rest is cut up in the same way.
-/
theorem pieces_of_isNext
    (hSeparator :
      startsWithSeparator separator (piece ++ behind) = false)
    (hNext : IsNext graphs (piece ++ behind) piece) :
    Segmentation.pieces graphs separator (piece ++ behind) =
      piece :: Segmentation.pieces graphs separator behind := by
  rcases List.exists_cons_of_ne_nil hNext.ne_nil with
    ⟨c, rest, rfl⟩
  rw [List.cons_append] at hSeparator hNext ⊢
  rw [Segmentation.pieces, if_neg (by rw [hSeparator]; decide)]
  rcases hNext with hLongest | ⟨hNone, ⟨hMarks, hEnds⟩⟩
  · rw [longestGraph?_eq_some_iff.mpr hLongest]
    dsimp only
    rw [List.length_cons, Nat.add_sub_cancel, List.drop_left]
  · rw [longestGraph?_eq_none_iff.mpr hNone]
    rcases hMarks with ⟨base, marks, hPiece, hMarks⟩
    rcases hEnds with ⟨behind', hText, hEnds⟩
    cases hPiece
    rw [← List.cons_append, List.append_cancel_left_eq] at hText
    cases hText
    rcases takeWhile_marks hMarks hEnds with ⟨hTake, hDrop⟩
    dsimp only
    rw [hTake, hDrop]

------------------------------------------------------------
-- All pieces
------------------------------------------------------------

theorem Greedy.isNext
    {later : List (List Char)}
    (hGreedy : Greedy graphs text (piece :: later)) :
    IsNext graphs text piece := by
  cases hGreedy with
  | graph hFound _ =>
      exact .graph (longestGraph?_eq_some_iff.mp hFound)
  | @base base marks behind _ hNone hMarks hEnds _ =>
      apply IsNext.base (longestGraph?_eq_none_iff.mp hNone)
      exact ⟨⟨base, marks, rfl, hMarks⟩, ⟨behind, rfl, hEnds⟩⟩

/-
  Segmentation finds the pieces that are together the text
  and of which each is the next one of what it begins.
-/
theorem pieces_eq_iff :
    Segmentation.pieces graphs [] text = pieces ↔
      pieces.flatten = text ∧
        ∀ before piece after,
          pieces = before ++ piece :: after →
            IsNext graphs (piece :: after).flatten piece := by
  constructor
  · rintro rfl
    have hGreedy := greedy_pieces graphs text
    refine ⟨hGreedy.flatten_eq, ?_⟩
    intro before piece after hPieces
    rw [hPieces] at hGreedy
    exact hGreedy.of_append.isNext
  · rintro ⟨rfl, hNext⟩
    induction pieces with
    | nil =>
        rw [List.flatten_nil, Segmentation.pieces]
    | cons piece later ih =>
        have hFirst := hNext [] piece later rfl
        rw [List.flatten_cons] at hFirst ⊢
        rw [pieces_of_isNext rfl hFirst, ih]
        intro before next after hLater
        exact hNext (piece :: before) next after
          (congrArg (piece :: ·) hLater)

theorem pieces_congr
    (hSame :
      ∀ graph, 2 ≤ graph.length →
        (graph ∈ graphs ↔ graph ∈ others)) :
    Segmentation.pieces others [] text =
      Segmentation.pieces graphs [] text := by
  have hFits :
      ∀ text graph,
        Fits graphs text graph ↔ Fits others text graph := by
    intro text graph
    constructor
    · rintro ⟨hListed, hLength, hPrefix⟩
      exact ⟨(hSame graph hLength).mp hListed, hLength, hPrefix⟩
    · rintro ⟨hListed, hLength, hPrefix⟩
      exact ⟨(hSame graph hLength).mpr hListed, hLength, hPrefix⟩
  rcases pieces_eq_iff.mp (Eq.refl
      (Segmentation.pieces graphs [] text)) with
    ⟨hText, hNext⟩
  apply pieces_eq_iff.mpr
  refine ⟨hText, ?_⟩
  intro before piece after hPieces
  exact (hNext before piece after hPieces).congr (hFits _)

end Segmentation

------------------------------------------------------------
-- Symbols
------------------------------------------------------------

/-
  The symbol that is cut off a text next, in characters.
-/
def IsNextSymbol
    (graphs : List String)
    (text symbol : String) : Prop :=
  Segmentation.IsNext (graphs.map String.toList) text.toList
    symbol.toList

theorem IsNextSymbol.ne_empty
    {graphs : List String}
    {text symbol : String}
    (hNext : IsNextSymbol graphs text symbol) :
    symbol ≠ "" := by
  rintro rfl
  exact Segmentation.IsNext.ne_nil hNext rfl

theorem mem_map_toList
    {graphs : List String}
    {graph : String} :
    graph.toList ∈ graphs.map String.toList ↔
      graph ∈ graphs :=
  List.mem_map_of_injective
    fun _ _ hSame => String.toList_injective hSame

theorem toList_join
    (symbols : List Symbol) :
    (String.join symbols).toList =
      (symbols.map String.toList).flatten := by
  rw [String.toList_join, List.flatMap_def]

/- A segmentation and its pieces in characters. -/
theorem segment_eq_iff_pieces
    {graphs : List String}
    {separator : Option String}
    {text : String}
    {symbols : List Symbol} :
    segment graphs separator text = symbols ↔
      Segmentation.pieces (graphs.map String.toList)
          (separator.getD "").toList text.toList =
        symbols.map String.toList := by
  rw [segment]
  constructor
  · rintro rfl
    rw [List.map_map]
    exact (List.map_id'' (fun _ => String.toList_ofList) _).symm
  · intro hPieces
    rw [hPieces, List.map_map]
    exact List.map_id'' (fun _ => String.ofList_toList) symbols

theorem segment_eq_iff
    {graphs : List String}
    {text : String}
    {symbols : List Symbol} :
    segment graphs none text = symbols ↔
      String.join symbols = text ∧
        ∀ before symbol after,
          symbols = before ++ symbol :: after →
            IsNextSymbol graphs
              (String.join (symbol :: after)) symbol := by
  apply segment_eq_iff_pieces.trans
  apply Segmentation.pieces_eq_iff.trans
  apply and_congr
  · rw [← toList_join, String.toList_inj]
  · constructor
    · rintro hNext before symbol after rfl
      rw [IsNextSymbol, toList_join, List.map_cons]
      apply hNext (before.map String.toList)
      rw [List.map_append, List.map_cons]
    · intro hNext before piece after hPieces
      rcases List.map_eq_append_iff.mp hPieces with
        ⟨before, later, rfl, -, hLater⟩
      rcases List.map_eq_cons_iff.mp hLater with
        ⟨symbol, after, rfl, rfl, rfl⟩
      have hSymbol := hNext before symbol after rfl
      rwa [IsNextSymbol, toList_join, List.map_cons] at hSymbol

/-
  Segmentation is the one way to cut a text into symbols
  that are not empty, are together the text, and of which
  each is the longest graph of two or more characters that
  the remaining text begins with, or, where none fits, one
  character with all the marks behind it. Nothing but the
  set of these graphs bears on it.
-/
theorem segment_unique
    (graphs : List String)
    (text : String) :
    (∀ symbols,
      segment graphs none text = symbols ↔
        (∀ symbol ∈ symbols, symbol ≠ "") ∧
          String.join symbols = text ∧
          ∀ before symbol after,
            symbols = before ++ symbol :: after →
              IsNextSymbol graphs
                (String.join (symbol :: after)) symbol) ∧
      ∀ others : List String,
        (∀ graph, 2 ≤ graph.length →
          (graph ∈ graphs ↔ graph ∈ others)) →
          segment others none text =
            segment graphs none text := by
  constructor
  · intro symbols
    rw [segment_eq_iff]
    constructor
    · rintro ⟨hText, hNext⟩
      refine ⟨?_, hText, hNext⟩
      intro symbol hSymbol
      rcases List.append_of_mem hSymbol with
        ⟨before, after, hSymbols⟩
      exact (hNext before symbol after hSymbols).ne_empty
    · rintro ⟨-, hText, hNext⟩
      exact ⟨hText, hNext⟩
  · intro others hSame
    rw [segment, segment]
    apply congrArg (List.map String.ofList)
    apply Segmentation.pieces_congr
    intro graph hLength
    rw [← String.toList_ofList (l := graph)] at hLength ⊢
    rw [mem_map_toList, mem_map_toList]
    exact hSame (String.ofList graph) hLength

/-
  The longer graph is taken though it is listed behind one
  that it begins with, and graphs that are empty, short or
  listed twice make no difference.
-/
theorem overlappingGraphs_unique :
    segment ["ts", "", "sh", "tsh", "a", "sh"] none "atshu\u0301" =
        ["a", "tsh", "u\u0301"] ∧
      segment ["sh", "tsh", "ts"] none "atshu\u0301" =
        segment ["ts", "", "sh", "tsh", "a", "sh"] none
          "atshu\u0301" := by
  refine ⟨by decide +kernel, ?_⟩
  apply (segment_unique ["ts", "", "sh", "tsh", "a", "sh"]
    "atshu\u0301").2
  intro graph hLength
  have hEmpty : graph ≠ "" := by
    rintro rfl
    exact absurd hLength (by decide)
  have hShort : graph ≠ "a" := by
    rintro rfl
    exact absurd hLength (by decide)
  simp only [List.mem_cons, List.not_mem_nil, hEmpty, hShort]
  grind

end Diachrony
