import Diachrony.Unicode.Combining

/-
  Symbols and the segmentation of raw text.

  A symbol is the unit that rules work on: a single
  character, a base character with its combining marks, or
  one of the listed graphs (`th`, `ts`, ...). Segmentation
  reads a text from the left. At each point it takes the
  longest listed graph of two or more characters, and where
  none fits one character with the marks that follow it. A
  separator breaks up an accidental graph and is dropped.

  Key definitions include:
    * `Symbol`
    * `longestGraph?`
    * `segment`
-/

namespace Diachrony

/- An indivisible unit of a word. -/
abbrev Symbol :=
  String

namespace Segmentation

------------------------------------------------------------
-- Graphs
------------------------------------------------------------

/-
  The longest graph of at least two characters that a text
  begins with.
-/
def longestGraph?
    (text : List Char) :
    List (List Char) → Option (List Char)
  | [] => none
  | graph :: graphs =>
      let later := longestGraph? text graphs
      if 2 ≤ graph.length ∧ graph.isPrefixOf text then
        match later with
        | none => some graph
        | some longer =>
            if graph.length < longer.length then
              some longer
            else
              some graph
      else
        later

/- A nonempty separator at the front of a text. -/
def startsWithSeparator
    (separator : List Char)
    (text : List Char) : Bool :=
  !separator.isEmpty && separator.isPrefixOf text

------------------------------------------------------------
-- Pieces
------------------------------------------------------------

/-
  The pieces of a text. After the first character of a
  piece the rest of the piece is dropped from the text, so
  the remaining text is always shorter.
-/
def pieces
    (graphs : List (List Char))
    (separator : List Char) :
    List Char → List (List Char)
  | [] => []
  | c :: rest =>
      if startsWithSeparator separator (c :: rest) then
        pieces graphs separator
          (rest.drop (separator.length - 1))
      else
        match longestGraph? (c :: rest) graphs with
        | some graph =>
            graph ::
              pieces graphs separator
                (rest.drop (graph.length - 1))
        | none =>
            (c :: rest.takeWhile Unicode.isCombining) ::
              pieces graphs separator
                (rest.dropWhile Unicode.isCombining)
termination_by text => text.length
decreasing_by
  · simp only [List.length_cons, List.length_drop]
    omega
  · simp only [List.length_cons, List.length_drop]
    omega
  · have := (List.dropWhile_sublist
      (l := rest) Unicode.isCombining).length_le
    simp only [List.length_cons]
    omega

end Segmentation

/-
  Split a raw text into symbols.
-/
def segment
    (graphs : List String)
    (separator : Option String)
    (text : String) : List Symbol :=
  (Segmentation.pieces
    (graphs.map String.toList)
    (separator.getD "").toList
    text.toList).map String.ofList

end Diachrony
