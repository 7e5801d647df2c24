import Diachrony.Category

/-
  Patterns over the symbols of a word.

  A pattern is a sequence of elements. Elements test or
  consume symbols, refer to categories, or stand for the
  target of a rule. Optional groups and repetitions nest
  patterns to any depth.

  Key definitions include:
    * `CategoryRef`
    * `Element`
    * `Pattern`
    * `Element.text`
    * `Element.walk`
    * `Element.nullable`
    * `Element.writable`
-/

namespace Diachrony

------------------------------------------------------------
-- References to categories
------------------------------------------------------------

/-
  A reference to a category, which is missing if its name
  was not defined. The slot is the key under which the
  position of the matched member is remembered. An explicit
  slot is written as a tag in the pattern, and all
  references with the same tag agree on the position.
-/
structure CategoryRef where
  category : Option Category
  name : String := ""
  slot : Option String := none
  explicit : Bool := false
  deriving Repr, DecidableEq

namespace CategoryRef

/- The tag that is shown with a reference. -/
def tag
    (ref : CategoryRef) : String :=
  if ref.explicit then ref.slot.getD "" else ""

/- What stands between the brackets of a reference. -/
def body
    (ref : CategoryRef) : String :=
  if ref.name ≠ "" then
    ref.name
  else
    match ref.category with
    | some category =>
        ",".intercalate (category.members.map Member.text)
    | none => "?"

/- The written form of a reference. -/
def text
    (ref : CategoryRef) : String :=
  "[" ++ ref.body ++ "]" ++ ref.tag

end CategoryRef

------------------------------------------------------------
-- Elements
------------------------------------------------------------

/-
  The elements of a pattern:
    * a literal symbol;
    * one member of a category;
    * any one symbol, or any run of symbols;
    * the word edge, or nothing at all;
    * the target span, or its reverse;
    * a copy of the preceding symbol;
    * a group that may be left out;
    * an element repeated between `min` and `max` times, or
      without end if there is no `max`;
    * an element of a foreign kind, which can be carried
      but neither matched nor written.
  Lazy elements try the shorter alternative first.
-/
inductive Element where
  | literal (symbol : Symbol)
  | category (ref : CategoryRef)
  | wildcard
  | gap (lazy : Bool)
  | edge
  | null
  | target (reversed : Bool)
  | ditto
  | optional (body : List Element) (lazy : Bool)
  | repeated
      (body : Element)
      (min : Int)
      (max : Option Int)
      (lazy : Bool)
  | foreign (kind : String)
  deriving Repr

/- A sequence of elements. -/
abbrev Pattern :=
  List Element

------------------------------------------------------------
-- Written form
------------------------------------------------------------

/- The mark of a lazy element. -/
def lazyMark
    (isLazy : Bool) : String :=
  if isLazy then "?" else ""

/- The count that a repetition shows. -/
def repeatCount
    (min : Int)
    (max : Option Int) : String :=
  if max = some min then
    toString min
  else if min = 0 then
    "*"
  else
    "+"

mutual

/- The written form of an element. -/
def Element.text : Element → String
  | .literal symbol => symbol
  | .category ref => ref.text
  | .wildcard => "*"
  | .gap isLazy => "**" ++ lazyMark isLazy
  | .edge => "#"
  | .null => "[]"
  | .target reversed => if reversed then "<" else "%"
  | .ditto => "\""
  | .optional body isLazy =>
      "(" ++ Pattern.text body ++ ")" ++ lazyMark isLazy
  | .repeated body min max isLazy =>
      Element.text body ++ "\x7b" ++ repeatCount min max ++
        lazyMark isLazy ++ "\x7d"
  | .foreign kind => kind

/- The written form of a pattern. -/
def Pattern.text : Pattern → String
  | [] => ""
  | element :: rest => Element.text element ++ Pattern.text rest

end

------------------------------------------------------------
-- Traversal
------------------------------------------------------------

mutual

/- An element and all elements inside it, depth first. -/
def Element.walk : Element → List Element
  | .optional body isLazy =>
      .optional body isLazy :: Pattern.walk body
  | .repeated body min max isLazy =>
      .repeated body min max isLazy :: Element.walk body
  | element => [element]

/- All elements of a pattern, depth first. -/
def Pattern.walk : Pattern → List Element
  | [] => []
  | element :: rest => Element.walk element ++ Pattern.walk rest

end

/- The category reference that an element is, if it is one. -/
def Element.categoryRef? : Element → Option CategoryRef
  | .category ref => some ref
  | _ => none

/- The category references of a pattern, depth first. -/
def Pattern.categoryRefs
    (pattern : Pattern) : List CategoryRef :=
  pattern.walk.filterMap Element.categoryRef?

------------------------------------------------------------
-- Properties of elements
------------------------------------------------------------

/-
  Whether an element may match without consuming a symbol.
  The answer errs on the side of yes.
-/
def Element.nullable : Element → Bool
  | .gap _ => true
  | .edge => true
  | .null => true
  | .optional _ _ => true
  | .repeated body min _ _ => min = 0 || body.nullable
  | .target _ => true
  | .category ref =>
      match ref.category with
      | some known => known.members.any Member.startsAtEdge
      | none => false
  | _ => false

/- Elements that a replacement may consist of. -/
def Element.writable : Element → Bool
  | .literal _ => true
  | .category _ => true
  | .null => true
  | .target _ => true
  | .ditto => true
  | _ => false

/- How many copies of its body a repetition must match. -/
def requiredCopies
    (min : Int) : Nat :=
  min.toNat

/- How many copies a bounded repetition may add to those. -/
def furtherCopies
    (min max : Int) : Nat :=
  (max - min).toNat

mutual

/-
  Whether a matcher can be built for an element: no element
  of a foreign kind is reached. A repetition that allows no
  copies never reaches its body.
-/
def Element.matchable : Element → Bool
  | .foreign _ => false
  | .optional body _ => Pattern.matchable body
  | .repeated body min max _ =>
      (requiredCopies min = 0 &&
        max.any fun most => furtherCopies min most = 0) ||
      Element.matchable body
  | _ => true

/- Whether a matcher can be built for a pattern. -/
def Pattern.matchable : Pattern → Bool
  | [] => true
  | element :: rest =>
      Element.matchable element && Pattern.matchable rest

end

end Diachrony
