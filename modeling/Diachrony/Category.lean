import Diachrony.Word

/-
  Categories of sounds.

  A category is an ordered list of members. The position of
  a member is what correlation carries from a target to a
  replacement, so order matters. A member is a sequence of
  symbols, in which the word edge can stand as well.

  Key definitions include:
    * `Part`
    * `Member`
    * `Member.text`
    * `GivenMember`
    * `Category`
    * `GivenMembers`
    * `Category.position?`
    * `Category.symbols`
-/

namespace Diachrony

------------------------------------------------------------
-- Members
------------------------------------------------------------

/- One piece of a member: a symbol or the word edge. -/
inductive Part where
  | symbol (s : Symbol)
  | edge
  deriving Repr, DecidableEq

namespace Part

/- The written form of a part. -/
def text : Part → String
  | .symbol s => s
  | .edge => "#"

/- The symbol of a part, if it is one. -/
def symbol? : Part → Option Symbol
  | .symbol s => some s
  | .edge => none

end Part

/- A member of a category. -/
abbrev Member :=
  List Part

namespace Member

/- The member that consists of one symbol. -/
def ofSymbol
    (s : Symbol) : Member :=
  [.symbol s]

/- The member that consists of a sequence of symbols. -/
def ofSymbols
    (symbols : List Symbol) : Member :=
  symbols.map .symbol

/- The written form of a member. -/
def text
    (member : Member) : String :=
  String.join (member.map Part.text)

/- The symbols of a member, word edges left out. -/
def symbols
    (member : Member) : List Symbol :=
  member.filterMap Part.symbol?

/- A member that can be matched without consuming a symbol first. -/
def startsAtEdge : Member → Bool
  | [] => true
  | .edge :: _ => true
  | .symbol _ :: _ => false

end Member

/-
  What a member can be given as: a symbol, the word edge, or
  a sequence of these.
-/
inductive GivenMember where
  | symbol (s : Symbol)
  | edge
  | sequence (parts : List Part)
  deriving Repr, DecidableEq

/- The member that is given. -/
def GivenMember.member : GivenMember → Member
  | .symbol s => Member.ofSymbol s
  | .edge => [.edge]
  | .sequence parts => parts

------------------------------------------------------------
-- Categories
------------------------------------------------------------

/-
  An ordered set of members. The index is the place of the
  category in the table that holds it, and negative for a
  category written in line.
-/
structure Category where
  name : String
  members : List Member
  index : Int := -1
  deriving Repr, DecidableEq

/-
  What members can be given as: one after another, the
  characters of a text, or another category.
-/
inductive GivenMembers where
  | listed (given : List GivenMember)
  | characters (text : String)
  | category (source : Category)
  deriving Repr, DecidableEq

/- The members that are given. -/
def GivenMembers.members : GivenMembers → List Member
  | .listed given => given.map GivenMember.member
  | .characters text =>
      text.toList.map fun c => Member.ofSymbol (String.ofList [c])
  | .category source => source.members

namespace Category

/- The number of members. -/
def size
    (category : Category) : Nat :=
  category.members.length

/- A category written in line belongs to no table. -/
def isInline
    (category : Category) : Bool :=
  category.index < 0

/- The position of the first member equal to the given one. -/
def position?
    (category : Category)
    (member : Member) : Option Nat :=
  category.members.idxOf? member

/-
  What can be looked for in a category: a part by itself, or
  a whole member.
-/
inductive Sought where
  | part (p : Part)
  | member (m : Member)
  deriving Repr, DecidableEq

/-
  Whether something is a member. A symbol by itself stands
  for the member that consists of it. The word edge by
  itself is no member.
-/
def holds
    (category : Category) : Sought → Bool
  | .part (.symbol s) =>
      category.members.contains (Member.ofSymbol s)
  | .part .edge => false
  | .member m => category.members.contains m

/- The symbols of all members, word edges left out. -/
def symbols
    (category : Category) : List Symbol :=
  category.members.flatMap Member.symbols

/- A category as shown in a listing. -/
def describe
    (category : Category) : String :=
  let label :=
    if category.name = "" then "inline" else category.name
  "Category(" ++ label ++ ": [" ++
    ", ".intercalate (category.members.map Member.text) ++
    "])"

------------------------------------------------------------
-- Order of trial
------------------------------------------------------------

/- Insert a member before the first one that is not longer. -/
def insertByLength
    (entry : Nat × Member) :
    List (Nat × Member) → List (Nat × Member)
  | [] => [entry]
  | other :: rest =>
      if other.2.length ≤ entry.2.length then
        entry :: other :: rest
      else
        other :: insertByLength entry rest

/- Pair members with their positions. -/
def numbered
    (first : Nat) :
    List Member → List (Nat × Member)
  | [] => []
  | member :: rest => (first, member) :: numbered (first + 1) rest

/-
  The members in the order in which a match tries them:
  longer members first, and members of one length in the
  order of their positions.
-/
def trials
    (category : Category) : List (Nat × Member) :=
  (numbered 0 category.members).foldr insertByLength []

end Category

end Diachrony
