import Diachrony.Proofs.Word.Pieces

/-
  Where segmentation parts a combining mark from its base.

  A character that is no part of a graph takes the marks
  behind it, but a graph ends where it is listed to end. So
  a symbol after the first begins with a mark exactly where
  a listed graph of two or more characters is taken and a
  mark is the next character of the text. Where no listed
  graph stands directly before a mark, every mark stays with
  its base.

  Key definitions include:
    * `beginsWithMark`

  Key theorems include:
    * `Segmentation.Greedy.exists_isMarked_iff`
    * `segment_marks`
    * `graphMark_cutOff`
-/

namespace Diachrony

------------------------------------------------------------
-- Pieces
------------------------------------------------------------

namespace Segmentation.Greedy

variable {graphs pieces : List (List Char)}
variable {text : List Char}

/-
  A first piece with a mark behind it is a graph: a
  character would have taken the mark.
-/
theorem first_graph
    {piece : List Char}
    {later : List (List Char)}
    (hGreedy : Greedy graphs text (piece :: later))
    (hMark : isMarked later.flatten) :
    piece ∈ graphs ∧ 2 ≤ piece.length := by
  cases hGreedy with
  | graph hFound _ =>
      have hSpec := longestGraph?_spec hFound
      exact ⟨hSpec.1, hSpec.2.1⟩
  | base _ _ hEnds hBehind =>
      rw [hBehind.flatten_eq, hEnds] at hMark
      cases hMark

/-
  A piece after the first begins with a mark exactly where
  a graph is taken in front of one.
-/
theorem exists_isMarked_iff
    (hGreedy : Greedy graphs text pieces) :
    (∃ piece ∈ pieces.tail, isMarked piece) ↔
      ∃ before graph after behind,
        pieces = before ++ graph :: after ∧
          graph ∈ graphs ∧
          2 ≤ graph.length ∧
          text = (before ++ [graph]).flatten ++ behind ∧
          isMarked behind := by
  constructor
  · rintro ⟨piece, hPiece, hMark⟩
    rcases List.append_of_mem hPiece with ⟨between, after, hTail⟩
    rcases List.exists_cons_of_ne_nil
        (List.ne_nil_of_mem (List.mem_of_mem_tail hPiece)) with
      ⟨first, later, rfl⟩
    obtain ⟨before, graph, hBefore⟩ :
        ∃ before graph,
          first :: between = before ++ [graph] :=
      ⟨_, _, (List.dropLast_concat_getLast
        (List.cons_ne_nil first between)).symm⟩
    have hPieces :
        first :: later = before ++ graph :: piece :: after := by
      rw [List.tail_cons] at hTail
      rw [hTail, ← List.cons_append, hBefore,
        List.append_assoc, List.singleton_append]
    rw [hPieces] at hGreedy
    have hBehind : isMarked (piece :: after).flatten :=
      hGreedy.of_append.tail.isMarked_eq ▸ hMark
    have hGraph := hGreedy.of_append.first_graph hBehind
    refine ⟨before, graph, piece :: after,
      (piece :: after).flatten, hPieces,
      hGraph.1, hGraph.2, ?_, hBehind⟩
    rw [← hGreedy.flatten_eq, ← List.flatten_append,
      List.append_assoc, List.singleton_append]
  · rintro ⟨before, graph, after, behind, rfl, -, -,
      hText, hMark⟩
    rw [← List.singleton_append, ← List.append_assoc] at hGreedy
    have hBehind : after.flatten = behind :=
      List.append_cancel_left
        (by rw [← List.flatten_append, hGreedy.flatten_eq, hText])
    have hHead := hGreedy.of_append.isMarked_eq
    rw [hBehind, hMark] at hHead
    rcases (Option.any_eq_true ..).mp hHead with
      ⟨piece, hPiece, hMarked⟩
    rcases List.head?_eq_some_iff.mp hPiece with ⟨later, rfl⟩
    refine ⟨piece, ?_, hMarked⟩
    cases before with
    | nil => exact List.mem_cons_self
    | cons first before =>
        exact List.mem_append_right before
          (List.mem_cons_of_mem graph List.mem_cons_self)

end Segmentation.Greedy

------------------------------------------------------------
-- Symbols
------------------------------------------------------------

/- Whether a text begins with a combining mark. -/
def beginsWithMark
    (text : String) : Bool :=
  Segmentation.isMarked text.toList

/-
  A listed graph of two or more characters that is taken as
  a symbol of a text with a mark directly behind it.
-/
def TakenBeforeMark
    (graphs : List String)
    (text graph : String) : Prop :=
  graph ∈ graphs ∧
    2 ≤ graph.length ∧
    ∃ before after behind,
      segment graphs none text = before ++ graph :: after ∧
        text = String.join (before ++ [graph]) ++ behind ∧
        beginsWithMark behind

variable {graphs : List String}
variable {text graph : String}

/- Taking a graph in front of a mark, in characters. -/
theorem takenBeforeMark_iff :
    TakenBeforeMark graphs text graph ↔
      graph.toList ∈ graphs.map String.toList ∧
        2 ≤ graph.toList.length ∧
        ∃ before after behind,
          (segment graphs none text).map String.toList =
              before ++ graph.toList :: after ∧
            text.toList =
              (before ++ [graph.toList]).flatten ++ behind ∧
            Segmentation.isMarked behind := by
  have hJoin
      (before : List Symbol)
      (behind : String) :
      (String.join (before ++ [graph]) ++ behind).toList =
        (before.map String.toList ++ [graph.toList]).flatten ++
          behind.toList := by
    rw [String.toList_append, String.toList_join,
      List.flatMap_def, List.map_append]
    rfl
  constructor
  · rintro ⟨hGraph, hLength, before, after, behind,
      hSymbols, hText, hMark⟩
    refine ⟨List.mem_map_of_mem hGraph,
      String.length_toList ▸ hLength,
      before.map String.toList, after.map String.toList,
      behind.toList, ?_, ?_, hMark⟩
    · rw [hSymbols, List.map_append, List.map_cons]
    · rw [← hJoin, ← hText]
  · rintro ⟨hGraph, hLength, before, after, behind,
      hSymbols, hText, hMark⟩
    rcases List.map_eq_append_iff.mp hSymbols with
      ⟨before, later, hSegment, rfl, hLater⟩
    rcases List.map_eq_cons_iff.mp hLater with
      ⟨taken, after, rfl, hTaken, -⟩
    rcases List.mem_map.mp hGraph with ⟨listed, hListed, hSame⟩
    cases String.toList_injective hTaken
    cases String.toList_injective hSame
    refine ⟨hListed, String.length_toList ▸ hLength,
      before, after, String.ofList behind, hSegment, ?_, ?_⟩
    · rw [← String.toList_inj, hJoin, String.toList_ofList]
      exact hText
    · rw [beginsWithMark, String.toList_ofList]
      exact hMark

/- What the first symbol begins with. -/
theorem any_head?_segment
    (graphs : List String)
    (text : String) :
    (segment graphs none text).head?.any beginsWithMark =
      beginsWithMark text := by
  have hHead := (greedy_segment graphs text).isMarked_eq
  rw [List.head?_map, Option.any_map] at hHead
  exact hHead

/- What the symbols after the first begin with. -/
theorem exists_beginsWithMark_iff
    (graphs : List String)
    (text : String) :
    (∃ symbol ∈ (segment graphs none text).tail,
        beginsWithMark symbol) ↔
      ∃ graph, TakenBeforeMark graphs text graph := by
  have hMarked :=
    (greedy_segment graphs text).exists_isMarked_iff
  rw [← List.map_tail] at hMarked
  constructor
  · rintro ⟨symbol, hSymbol, hMark⟩
    rcases hMarked.mp
        ⟨symbol.toList, List.mem_map_of_mem hSymbol, hMark⟩ with
      ⟨before, graph, after, behind, hSymbols, hGraph, hLength,
       hText, hBehind⟩
    rw [← String.toList_ofList (l := graph)]
      at hSymbols hGraph hLength hText
    exact ⟨String.ofList graph, takenBeforeMark_iff.mpr
      ⟨hGraph, hLength, before, after, behind, hSymbols,
        hText, hBehind⟩⟩
  · rintro ⟨graph, hTaken⟩
    rcases takenBeforeMark_iff.mp hTaken with
      ⟨hGraph, hLength, before, after, behind, hSymbols, hText,
       hBehind⟩
    rcases hMarked.mpr ⟨before, graph.toList, after, behind,
        hSymbols, hGraph, hLength, hText, hBehind⟩ with
      ⟨piece, hPiece, hMark⟩
    rcases List.mem_map.mp hPiece with ⟨symbol, hSymbol, rfl⟩
    exact ⟨symbol, hSymbol, hMark⟩

/-
  A symbol begins with a mark if it is the first of a text
  that does, or if a listed graph of two or more characters
  is taken directly before it, and in no other case. So a
  text in which no such graph stands before a mark keeps
  every mark with its base.
-/
theorem segment_marks
    (graphs : List String)
    (text : String) :
    (segment graphs none text).head?.any beginsWithMark =
        beginsWithMark text ∧
      ((∃ symbol ∈ (segment graphs none text).tail,
          beginsWithMark symbol) ↔
        ∃ graph, TakenBeforeMark graphs text graph) ∧
      ((∀ graph ∈ graphs, 2 ≤ graph.length →
          ∀ before behind,
            text = before ++ graph ++ behind →
              beginsWithMark behind = false) →
        ∀ symbol ∈ (segment graphs none text).tail,
          beginsWithMark symbol = false) := by
  refine ⟨any_head?_segment graphs text,
    exists_beginsWithMark_iff graphs text, ?_⟩
  intro hApart symbol hSymbol
  refine Bool.eq_false_iff.mpr ?_
  intro hMark
  rcases (exists_beginsWithMark_iff graphs text).mp
      ⟨symbol, hSymbol, hMark⟩ with
    ⟨graph, hGraph, hLength, before, after, behind, -, hText,
     hBehind⟩
  have hUnmarked := hApart graph hGraph hLength
    (String.join before) behind
    (by rw [hText, String.join_append]; rfl)
  rw [hBehind] at hUnmarked
  cases hUnmarked

/-
  With `sh` listed, a mark behind `a` stays with it. One
  behind `sh` does not, since `sh` is taken before it.
-/
theorem digraph_marks :
    (∀ symbol ∈ (segment ["sh"] none "a\u0301sh").tail,
        beginsWithMark symbol = false) ∧
      "\u0301" ∈ (segment ["sh"] none "sh\u0301a").tail ∧
      ∃ graph, TakenBeforeMark ["sh"] "sh\u0301a" graph := by
  have hCut : "\u0301" ∈ (segment ["sh"] none "sh\u0301a").tail := by
    decide +kernel
  refine ⟨?_, hCut, ?_⟩
  · refine (segment_marks ["sh"] "a\u0301sh").2.2 ?_
    intro graph hGraph _ before behind hText
    obtain rfl := List.mem_singleton.mp hGraph
    have hChars := congrArg String.toList hText
    rw [String.toList_append, String.toList_append] at hChars
    have hLength := congrArg List.length hChars
    rw [List.length_append, List.length_append] at hLength
    change 4 = before.toList.length + 2 + behind.toList.length
      at hLength
    have hSuffixes :
        ∀ length < 3,
          Segmentation.isMarked
              ("a\u0301sh".toList.drop (4 - length)) =
            false := by
      decide +kernel
    have hBehind :
        behind.toList =
          "a\u0301sh".toList.drop (4 - behind.toList.length) :=
      List.suffix_iff_eq_drop.mp ⟨_, hChars.symm⟩
    rw [beginsWithMark, hBehind]
    exact hSuffixes _ (by omega)
  · exact (segment_marks ["sh"] "sh\u0301a").2.1.mp
      ⟨"\u0301", hCut, by decide⟩

/-
  A mark is cut off from a listed graph: with `sh` listed, a
  mark between `sh` and `a` is a symbol of its own.
-/
theorem graphMark_cutOff :
    ¬ ∀ (graphs : List String) (text : String),
      (∀ graph ∈ graphs, beginsWithMark graph = false) →
        (beginsWithMark text = false →
          (segment graphs none text).head?.any
            beginsWithMark = false) ∧
          ∀ symbol ∈ (segment graphs none text).tail,
            beginsWithMark symbol = false := by
  intro hKept
  have hSegment :
      segment ["sh"] none "sh\u0301a" =
        ["sh", "\u0301", "a"] := by
    decide +kernel
  have hMark := (hKept ["sh"] "sh\u0301a" (by decide)).2 "\u0301"
  rw [hSegment] at hMark
  exact absurd (hMark (by decide)) (by decide)

end Diachrony
