import Diachrony.Unicode.CodeRange

/-
  Blanks and line breaks.

  Every line break is a blank. A text is trimmed by
  removing its blanks at one or both ends.

  Key definitions include:
    * `isBlank`
    * `isLineBreak`
    * `trimLeft`
    * `trimRight`
    * `trim`
-/

namespace Diachrony

namespace Unicode

------------------------------------------------------------
-- Blanks
------------------------------------------------------------

/- Spaces of every width, tabs, breaks and separators. -/
def blanks : List CodeRange :=
  [ (0x0009, 0x000D), (0x001C, 0x0020), (0x0085, 0x0085), (0x00A0, 0x00A0),
    (0x1680, 0x1680), (0x2000, 0x200A), (0x2028, 0x2029), (0x202F, 0x202F),
    (0x205F, 0x205F), (0x3000, 0x3000) ]

/- A character that separates without being seen. -/
def isBlank
    (c : Char) : Bool :=
  CodeRange.covers c.toNat blanks

------------------------------------------------------------
-- Line breaks
------------------------------------------------------------

/- Characters that end a line. -/
def lineBreaks : List CodeRange :=
  [ (0x000A, 0x000D), (0x001C, 0x001E), (0x0085, 0x0085),
    (0x2028, 0x2029) ]

/- A character that ends a line. -/
def isLineBreak
    (c : Char) : Bool :=
  CodeRange.covers c.toNat lineBreaks

------------------------------------------------------------
-- Trimming
------------------------------------------------------------

/- A text without the blanks it begins with. -/
def trimLeft
    (text : List Char) : List Char :=
  text.dropWhile isBlank

/- A text without the blanks it ends with. -/
def trimRight
    (text : List Char) : List Char :=
  (text.reverse.dropWhile isBlank).reverse

/- A text without the blanks at its two ends. -/
def trim
    (text : List Char) : List Char :=
  trimRight (trimLeft text)

end Unicode

end Diachrony
