import Diachrony.Proofs.Source.MemberTexts

/-
  Texts divided at a separator.

  A text is divided where the separator stands outside
  brackets. Nothing is lost: with the separator between them
  again, the parts are the text. And each part is divided as
  far as it can be. What has been read of a part leads from
  its beginning to the same depth of brackets, and never
  between a backslash and the character after it, so that a
  part by itself is read as it was in the text.

  Key definitions include:
    * `LeadsTo`

  Key theorems include:
    * `splitFrom_joined`
    * `splitFrom_undivided`
    * `splitTop_joined_undivided`
-/

namespace Diachrony

variable {isSeparator : Char → Bool}
variable {depth : Int}
variable {part rest text : List Char}
variable {separator c : Char}

------------------------------------------------------------
-- Parts joined again
------------------------------------------------------------

/- There is always a part, be it empty. -/
theorem splitFrom_ne_nil
    (isSeparator : Char → Bool)
    (depth : Int)
    (part text : List Char) :
    splitFrom isSeparator depth part text ≠ [] := by
  fun_induction splitFrom isSeparator depth part text
  case case1 => exact List.cons_ne_nil _ _
  case case2 ih => exact ih
  case case3 => exact List.cons_ne_nil _ _
  case case4 => exact List.cons_ne_nil _ _
  case case5 ih => exact ih

theorem intercalate_cons_parts
    {parts : List (List Char)}
    (hParts : parts ≠ []) :
    [separator].intercalate (part :: parts) =
      part ++ separator :: [separator].intercalate parts := by
  obtain ⟨next, later, rfl⟩ := List.exists_cons_of_ne_nil hParts
  rw [List.intercalate_cons_cons, List.append_assoc,
    List.singleton_append]

/- What has been read and what follows is found in the parts. -/
theorem splitFrom_joined
    (separator : Char)
    (depth : Int)
    (part text : List Char) :
    [separator].intercalate
        (splitFrom (fun c => c = separator) depth part text) =
      part.reverse ++ text := by
  fun_induction splitFrom (fun c => c = separator) depth part
      text
  case case1 part =>
    rw [List.intercalate_singleton, List.append_nil]
  case case2 ih =>
    rw [ih]
    simp only [List.reverse_cons, List.append_assoc,
      List.cons_append, List.nil_append]
  case case3 part =>
    rw [List.intercalate_singleton, List.reverse_cons]
  case case4 depth part c rest _ _ here hHere ih =>
    have hSeparator : c = separator :=
      of_decide_eq_true (Bool.and_eq_true_iff.mp hHere).1
    rw [intercalate_cons_parts (splitFrom_ne_nil _ _ _ _), ih,
      hSeparator, List.reverse_nil, List.nil_append]
  case case5 ih =>
    rw [ih, List.reverse_cons, List.append_assoc,
      List.singleton_append]

------------------------------------------------------------
-- Parts divided again
------------------------------------------------------------

/-
  What has been read of a part, last character first. From
  the beginning of the part it leads to a depth of brackets,
  without a separator on the way: whatever follows is
  divided as it is at this depth.
-/
def LeadsTo
    (isSeparator : Char → Bool)
    (depth : Int)
    (part : List Char) : Prop :=
  ∀ rest,
    splitTop isSeparator (part.reverse ++ rest) =
      splitFrom isSeparator depth part rest

namespace LeadsTo

theorem start :
    LeadsTo isSeparator 0 [] :=
  fun _ => rfl

/- A backslash takes the character after it along. -/
theorem escape
    (hPart : LeadsTo isSeparator depth part) :
    LeadsTo isSeparator depth (c :: '\\' :: part) := by
  intro rest
  have hBefore := hPart ('\\' :: c :: rest)
  rw [splitFrom] at hBefore
  rw [← hBefore]
  simp only [List.reverse_cons, List.append_assoc,
    List.cons_append, List.nil_append]

/- Any other character is read, unless it divides. -/
theorem plain
    (hPart : LeadsTo isSeparator depth part)
    (hPlain : c ≠ '\\')
    (hJoined :
      ¬(isSeparator c && bracketDepth depth c = 0) = true) :
    LeadsTo isSeparator (bracketDepth depth c) (c :: part) := by
  intro rest
  have hBefore := hPart (c :: rest)
  rw [splitFrom_plain hPlain, if_neg hJoined] at hBefore
  rw [← hBefore, List.reverse_cons, List.append_assoc,
    List.singleton_append]

/- A part that ends there is not divided. -/
theorem undivided
    (hPart : LeadsTo isSeparator depth part) :
    splitTop isSeparator part.reverse = [part.reverse] := by
  have hEnd := hPart []
  rwa [List.append_nil, splitFrom] at hEnd

/- Nor is one that ends in a backslash. -/
theorem undivided_backslash
    (hPart : LeadsTo isSeparator depth part) :
    splitTop isSeparator ('\\' :: part).reverse =
      [('\\' :: part).reverse] := by
  have hEnd := hPart ['\\']
  rwa [splitFrom, ← List.reverse_cons] at hEnd

end LeadsTo

/- What is read by itself is no backslash. -/
theorem ne_backslash
    (hPair :
      ∀ d more, c = '\\' → rest = d :: more → False)
    (hLone : c = '\\' → rest = [] → False) :
    c ≠ '\\' := by
  intro hEscape
  cases rest with
  | nil => exact hLone hEscape rfl
  | cons d more => exact hPair d more hEscape rfl

/- Every part of what follows a part is undivided by itself. -/
theorem splitFrom_undivided
    (hPart : LeadsTo isSeparator depth part)
    {piece : List Char}
    (hPiece :
      piece ∈ splitFrom isSeparator depth part text) :
    splitTop isSeparator piece = [piece] := by
  fun_induction splitFrom isSeparator depth part text
  case case1 =>
    obtain rfl := List.mem_singleton.mp hPiece
    exact hPart.undivided
  case case2 ih => exact ih hPart.escape hPiece
  case case3 =>
    obtain rfl := List.mem_singleton.mp hPiece
    exact hPart.undivided_backslash
  case case4 here hHere ih =>
    rcases List.mem_cons.mp hPiece with rfl | hLater
    · exact hPart.undivided
    · -- behind a separator the depth is that of a beginning
      have hLevel : here = 0 :=
        of_decide_eq_true (Bool.and_eq_true_iff.mp hHere).2
      rw [hLevel] at hLater ih
      exact ih .start hLater
  case case5 hPair hLone here hHere ih =>
    have hPlain := ne_backslash hPair hLone
    exact ih (hPart.plain hPlain hHere) hPiece

/-
  Whatever the brackets of a text are, and whatever the
  separator is: the parts with the separator between them
  are the text, and no part can be divided again.
-/
theorem splitTop_joined_undivided
    (separator : Char)
    (text : List Char) :
    [separator].intercalate
          (splitTop (fun c => c = separator) text) =
        text ∧
      ∀ part ∈ splitTop (fun c => c = separator) text,
        splitTop (fun c => c = separator) part = [part] := by
  constructor
  · exact splitFrom_joined separator 0 [] text
  · intro part hPart
    exact splitFrom_undivided .start hPart

end Diachrony
