import Diachrony.Matching.Search
import Mathlib.Data.List.MinMax
import Mathlib.Data.List.Sort

/-
  The paths of a pattern.

  A path is one way in which a pattern can be matched from
  a point on. The paths are listed by recursion over the
  elements of the pattern, the preferred one first. No
  program, no stack and no budget is involved, so the list
  says what a match ought to find.

  Key definitions include:
    * `Point`
    * `Reach`
    * `Reach.copies`
    * `Reach.upTo`
    * `Reach.unbounded`
    * `Reach.further`
    * `Element.paths`
    * `Pattern.paths`
    * `MatchRequest.choose`
-/

namespace Diachrony

------------------------------------------------------------
-- Points
------------------------------------------------------------

/- How far a match has come, and the bindings made so far. -/
structure Point where
  pos : Nat
  bindings : Bindings
  deriving Repr, DecidableEq

namespace Point

/- The same bindings at a later position. -/
def forward
    (point : Point)
    (n : Nat) : Point :=
  { point with pos := point.pos + n }

/- The match that ends at a point. -/
def toMatch
    (start : Nat)
    (point : Point) : Match where
  start := start
  stop := point.pos
  bindings := point.bindings

end Point

/-
  The points that can be reached from a point, the preferred
  one first.
-/
abbrev Reach :=
  Point → List Point

namespace Reach

------------------------------------------------------------
-- Repetitions
------------------------------------------------------------

/- The greedy preference is to go through the body. -/
def prefer
    (isLazy : Bool)
    (through around : List Point) : List Point :=
  if isLazy then around ++ through else through ++ around

/- Go through a body, or leave it out. -/
def optional
    (isLazy : Bool)
    (body : Reach) : Reach :=
  fun point => prefer isLazy (body point) [point]

/- Go through a number of copies of a body. -/
def copies
    (body : Reach) : Nat → Reach
  | 0, point => [point]
  | n + 1, point => (body point).flatMap (copies body n)

/- Go through at most a number of copies of a body. -/
def upTo
    (isLazy : Bool)
    (body : Reach) : Nat → Reach
  | 0, point => [point]
  | n + 1, point =>
      prefer isLazy
        ((body point).flatMap (upTo isLazy body n)) [point]

/-
  Go through any number of copies of a body that consumes.
  There cannot be more of them than symbols before the
  limit.
-/
def unbounded
    (isLazy : Bool)
    (body : Reach)
    (limit : Nat) : Reach :=
  fun point => upTo isLazy body (limit - point.pos) point

/-
  Go through further copies of a body, at most a number of
  them if one is given. Otherwise a nullable body is gone
  through at most once, and another one any number of times.
-/
def further
    (isLazy nullable : Bool)
    (limit : Nat)
    (body : Reach) : Option Nat → Reach
  | some n => upTo isLazy body n
  | none =>
      if nullable then
        optional isLazy body
      else
        unbounded isLazy body limit

end Reach

------------------------------------------------------------
-- Symbols and members
------------------------------------------------------------

namespace Window

/- The symbols that may be consumed from a position on. -/
def ahead
    (window : Window)
    (pos : Nat) : List Symbol :=
  (window.symbols.toList.take window.limit).drop pos

/- Consume a sequence of symbols. -/
def consume
    (window : Window)
    (symbols : List Symbol) : Reach :=
  fun point =>
    if symbols <+: window.ahead point.pos then
      [point.forward symbols.length]
    else
      []

/- Consume any one symbol. -/
def consumeAny
    (window : Window) : Reach :=
  fun point =>
    if window.ahead point.pos = [] then
      []
    else
      [point.forward 1]

/- Stand at a word edge. -/
def standAtEdge
    (window : Window) : Reach :=
  fun point =>
    if window.atEdge point.pos then [point] else []

/- Consume a copy of the preceding symbol. -/
def consumeAgain
    (window : Window) : Reach :=
  fun point =>
    match point.pos with
    | 0 => []
    | before + 1 =>
        match window.symbols[before]? with
        | none => []
        | some symbol => window.consume [symbol] point

end Window

/- Match a part of a member. -/
def Part.paths
    (window : Window) : Part → Reach
  | .symbol s => window.consume [s]
  | .edge => window.standAtEdge

/- Match the parts of a member one after another. -/
def Member.paths
    (window : Window) : Member → Reach
  | [], point => [point]
  | part :: rest, point =>
      (part.paths window point).flatMap
        (Member.paths window rest)

------------------------------------------------------------
-- Categories
------------------------------------------------------------

/-
  The members with their positions, longer members first,
  and members of one length in the order of declaration.
-/
def Category.longestFirst
    (category : Category) : List (Member × Nat) :=
  category.members.zipIdx.insertionSort
    fun one other => other.1.length ≤ one.1.length

namespace CategoryRef

/-
  Whether the member at a position may be matched. A tag
  that is bound already allows only what it is bound to.
-/
def allows
    (ref : CategoryRef)
    (bindings : Bindings)
    (position : Nat) : Bool :=
  match ref.explicit, ref.slot.bind bindings.get? with
  | true, some bound => bound = position
  | _, _ => true

/- The bindings after the member at a position is matched. -/
def record
    (ref : CategoryRef)
    (position : Nat)
    (bindings : Bindings) : Bindings :=
  match ref.slot with
  | none => bindings
  | some slot => bindings.set slot position

/- Match one member and bind the slot to its position. -/
def memberPaths
    (window : Window)
    (ref : CategoryRef)
    (entry : Member × Nat) : Reach :=
  fun point =>
    if ref.allows point.bindings entry.2 then
      (Member.paths window entry.1 point).map fun reached =>
        { reached with
          bindings := ref.record entry.2 reached.bindings }
    else
      []

/- Match any member. An undefined category has no member. -/
def paths
    (window : Window)
    (ref : CategoryRef) : Reach :=
  fun point =>
    match ref.category with
    | none => []
    | some category =>
        category.longestFirst.flatMap fun entry =>
          ref.memberPaths window entry point

end CategoryRef

------------------------------------------------------------
-- Elements and patterns
------------------------------------------------------------

mutual

/- The paths of an element from a point on. -/
def Element.paths
    (window : Window) : Element → Reach
  | .literal symbol, point => window.consume [symbol] point
  | .category ref, point => ref.paths window point
  | .wildcard, point => window.consumeAny point
  | .gap isLazy, point =>
      Reach.unbounded isLazy window.consumeAny window.limit
        point
  | .edge, point => window.standAtEdge point
  | .null, point => [point]
  | .target false, point =>
      window.consume window.target point
  | .target true, point =>
      window.consume window.target.reverse point
  | .ditto, point => window.consumeAgain point
  | .optional body isLazy, point =>
      Reach.optional isLazy (Pattern.paths window body) point
  | .repeated body min max isLazy, point =>
      (Reach.copies (Element.paths window body) min.toNat
        point).flatMap
        (Reach.further isLazy body.nullable window.limit
          (Element.paths window body)
          (max.map fun most => (most - min).toNat))
  | .foreign _, _ => []

/- The paths of a pattern from a point on. -/
def Pattern.paths
    (window : Window) : Pattern → Reach
  | [], point => [point]
  | element :: rest, point =>
      (Element.paths window element point).flatMap
        (Pattern.paths window rest)

end

------------------------------------------------------------
-- Well-bounded patterns
------------------------------------------------------------

mutual

/-
  No repetition inside an element asks for a negative number
  of copies.
-/
def Element.wellBounded : Element → Bool
  | .optional body _ => Pattern.wellBounded body
  | .repeated body min _ _ => 0 ≤ min && body.wellBounded
  | _ => true

/- No repetition asks for a negative number of copies. -/
def Pattern.wellBounded : Pattern → Bool
  | [] => true
  | element :: rest =>
      element.wellBounded && Pattern.wellBounded rest

end

------------------------------------------------------------
-- Choosing a path
------------------------------------------------------------

namespace MatchRequest

/- The point that a match begins with. -/
def point
    (request : MatchRequest)
    (start : Nat) : Point where
  pos := start
  bindings := request.bindings

/- Whether a path ends where it is asked to. -/
def admits
    (request : MatchRequest)
    (point : Point) : Bool :=
  request.stop.all fun stop => (point.pos : Int) = stop

/-
  The match that a list of paths stands for: the first path
  that ends where it is asked to, or the first among the
  longest of these if the longest match is asked for.
-/
def choose
    (request : MatchRequest)
    (start : Nat)
    (paths : List Point) : Option Match :=
  let admitted := paths.filter request.admits
  let chosen :=
    if request.longest then
      admitted.argmax Point.pos
    else
      admitted.head?
  chosen.map (Point.toMatch start)

end MatchRequest

end Diachrony
