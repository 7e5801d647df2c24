import Diachrony.Symbol

/-
  The pieces that a text is segmented into, where no
  separator stands between symbols.

  The first piece is either the longest listed graph that
  the text begins with, or, where there is none, one
  character with all the marks behind it. What is behind the
  first piece is segmented in the same way. So nothing of
  the text is lost, and no piece is empty.

  Key definitions include:
    * `Segmentation.Greedy`

  Key theorems include:
    * `Segmentation.longestGraph?_spec`
    * `Segmentation.greedy_pieces`
    * `Segmentation.Greedy.flatten_eq`
    * `Segmentation.Greedy.of_append`
    * `greedy_segment`
-/

namespace Diachrony

namespace Segmentation

variable {graphs pieces : List (List Char)}
variable {text graph : List Char}

------------------------------------------------------------
-- The longest graph
------------------------------------------------------------

/-
  What is found is listed, has two characters at least, and
  is what the text begins with.
-/
theorem longestGraph?_spec
    (hFound : longestGraph? text graphs = some graph) :
    graph ∈ graphs ∧ 2 ≤ graph.length ∧ graph <+: text := by
  induction graphs with
  | nil =>
      cases hFound
  | cons first graphs ih =>
      have hLater
          (hFound : longestGraph? text graphs = some graph) :
          graph ∈ first :: graphs ∧
            2 ≤ graph.length ∧ graph <+: text :=
        ⟨List.mem_cons_of_mem first (ih hFound).1,
          (ih hFound).2⟩
      rw [longestGraph?] at hFound
      by_cases hFits :
          2 ≤ first.length ∧ first.isPrefixOf text
      · have hFirst :
            first ∈ first :: graphs ∧
              2 ≤ first.length ∧ first <+: text :=
          ⟨List.mem_cons_self, hFits.1,
            List.isPrefixOf_iff_prefix.mp hFits.2⟩
        rw [if_pos hFits] at hFound
        cases hOther : longestGraph? text graphs with
        | none =>
            simp only [hOther, Option.some.injEq] at hFound
            exact hFound ▸ hFirst
        | some longer =>
            simp only [hOther] at hFound
            split at hFound
            · exact hLater (hOther.trans hFound)
            · exact Option.some.inj hFound ▸ hFirst
      · rw [if_neg hFits] at hFound
        exact hLater hFound

------------------------------------------------------------
-- Greedy segmentation
------------------------------------------------------------

/- Whether a text begins with a combining mark. -/
def isMarked
    (text : List Char) : Bool :=
  text.head?.any Unicode.isCombining

/-
  A text and the pieces that are taken from its front, one
  after the other: the longest graph that fits, or one
  character with all the marks behind it.
-/
inductive Greedy
    (graphs : List (List Char)) :
    List Char → List (List Char) → Prop where
  | done :
      Greedy graphs [] []
  | graph
      {graph behind : List Char}
      {later : List (List Char)}
      (hFound :
        longestGraph? (graph ++ behind) graphs = some graph)
      (hBehind : Greedy graphs behind later) :
      Greedy graphs (graph ++ behind) (graph :: later)
  | base
      {base : Char}
      {marks behind : List Char}
      {later : List (List Char)}
      (hNone :
        longestGraph? (base :: (marks ++ behind)) graphs = none)
      (hMarks : ∀ mark ∈ marks, Unicode.isCombining mark)
      (hEnds : isMarked behind = false)
      (hBehind : Greedy graphs behind later) :
      Greedy graphs (base :: (marks ++ behind))
        ((base :: marks) :: later)

/- The marks behind a character end where no mark is next. -/
theorem isMarked_dropWhile
    (text : List Char) :
    isMarked (text.dropWhile Unicode.isCombining) = false := by
  have hHead :=
    List.head?_dropWhile_not Unicode.isCombining text
  rw [isMarked]
  cases hNext :
      (text.dropWhile Unicode.isCombining).head? with
  | none => rfl
  | some c =>
      rw [hNext] at hHead
      exact hHead

/- Without a separator, segmentation is greedy. -/
theorem greedy_pieces
    (graphs : List (List Char))
    (text : List Char) :
    Greedy graphs text (Segmentation.pieces graphs [] text) := by
  fun_induction Segmentation.pieces graphs [] text with
  | case1 =>
      exact Greedy.done
  | case2 c rest hSeparator =>
      exact absurd hSeparator Bool.false_ne_true
  | case3 c rest _ graph hFound ih =>
      rcases longestGraph?_spec hFound with
        ⟨-, hLength, behind, hText⟩
      have hBehind :
          rest.drop (graph.length - 1) = behind := by
        rw [← List.drop_succ_cons (a := c), ← hText,
          Nat.sub_add_cancel (by omega), List.drop_left]
      rw [hBehind] at ih ⊢
      rw [← hText] at hFound ⊢
      exact Greedy.graph hFound ih
  | case4 c rest _ hNone ih =>
      have hText :
          rest.takeWhile Unicode.isCombining ++
            rest.dropWhile Unicode.isCombining = rest :=
        List.takeWhile_append_dropWhile
      have hTaken :
          longestGraph?
              (c :: (rest.takeWhile Unicode.isCombining ++
                rest.dropWhile Unicode.isCombining))
              graphs =
            none :=
        hText.symm ▸ hNone
      have hGreedy :=
        Greedy.base hTaken
          (List.all_eq_true.mp List.all_takeWhile)
          (isMarked_dropWhile rest) ih
      rwa [hText] at hGreedy

------------------------------------------------------------
-- The text and its pieces
------------------------------------------------------------

namespace Greedy

/- The pieces together are the text. -/
theorem flatten_eq
    (hGreedy : Greedy graphs text pieces) :
    pieces.flatten = text := by
  induction hGreedy with
  | done => rfl
  | graph _ _ ih =>
      rw [List.flatten_cons, ih]
  | base _ _ _ _ ih =>
      rw [List.flatten_cons, ih, List.cons_append]

/- The later pieces are what the later text is cut into. -/
theorem tail
    {piece : List Char}
    {later : List (List Char)}
    (hGreedy : Greedy graphs text (piece :: later)) :
    Greedy graphs later.flatten later := by
  cases hGreedy with
  | graph _ hBehind => exact hBehind.flatten_eq ▸ hBehind
  | base _ _ _ hBehind => exact hBehind.flatten_eq ▸ hBehind

theorem of_append
    {before later : List (List Char)}
    (hGreedy : Greedy graphs text (before ++ later)) :
    Greedy graphs later.flatten later := by
  induction before generalizing text with
  | nil => exact hGreedy.flatten_eq ▸ hGreedy
  | cons piece before ih => exact ih hGreedy.tail

/- No piece is empty. -/
theorem ne_nil
    (hGreedy : Greedy graphs text pieces) :
    ∀ piece ∈ pieces, piece ≠ [] := by
  induction hGreedy with
  | done =>
      intro piece hPiece
      cases hPiece
  | @graph graph behind later hFound _ ih =>
      have hLength := (longestGraph?_spec hFound).2.1
      rintro piece (_ | ⟨_, hPiece⟩)
      · exact List.ne_nil_of_length_pos (by omega)
      · exact ih piece hPiece
  | base _ _ _ _ ih =>
      rintro piece (_ | ⟨_, hPiece⟩)
      · exact List.cons_ne_nil _ _
      · exact ih piece hPiece

/- A text begins with a mark if its first piece does. -/
theorem isMarked_eq
    (hGreedy : Greedy graphs text pieces) :
    pieces.head?.any isMarked = isMarked text := by
  cases pieces with
  | nil =>
      rw [← hGreedy.flatten_eq]
      rfl
  | cons piece later =>
      rcases List.exists_cons_of_ne_nil
          (hGreedy.ne_nil piece List.mem_cons_self) with
        ⟨c, rest, rfl⟩
      rw [← hGreedy.flatten_eq]
      rfl

end Greedy

end Segmentation

/- The symbols of a text are taken from it greedily. -/
theorem greedy_segment
    (graphs : List String)
    (text : String) :
    Segmentation.Greedy (graphs.map String.toList) text.toList
      ((segment graphs none text).map String.toList) := by
  have hGreedy := Segmentation.greedy_pieces
    (graphs.map String.toList) text.toList
  have hSymbols :
      (segment graphs none text).map String.toList =
        Segmentation.pieces (graphs.map String.toList) []
          text.toList := by
    rw [segment, List.map_map]
    exact List.map_id'' (fun _ => String.toList_ofList) _
  rwa [hSymbols]

end Diachrony
