import Diachrony.Source.Bracket

/-
  Patterns as they are written.

  A pattern is read from a list of tokens up to a token that
  stops it. Groups in parentheses nest: the reader keeps the
  groups that are open, each with the elements before it.

  Key definitions include:
    * `readRepeat`
    * `OpenGroup`
    * `readUnits`
    * `readPattern`
-/

namespace Diachrony

------------------------------------------------------------
-- Repetitions
------------------------------------------------------------

/- The bounds inside braces, and what follows them. -/
def readBounds
    (context : ReadContext) :
    List Token →
    Except ReadError ((Int × Option Int) × List Token)
  | [] => context.failAt [] .expectedRepeatCount
  | token :: rest =>
      if token.kind = .text ∧ isDigits token.text then
        match context.number token with
        | .error e => .error e
        | .ok n =>
            if n < 1 then
              context.failOn token .badRepeatCount
            else
              .ok (((n : Int), some (n : Int)), rest)
      else if token.kind = .star ∨ token.kind = .doubleStar then
        .ok ((0, none), rest)
      else if token.kind = .plus then
        .ok ((1, none), rest)
      else
        context.failOn token .expectedRepeatCount

/-
  Repeat an element as the braces say. The tokens are those
  after the opening brace.
-/
def readRepeat
    (context : ReadContext)
    (element : Element)
    (tokens : List Token) :
    Except ReadError (Element × List Token) :=
  match readBounds context tokens with
  | .error e => .error e
  | .ok (bounds, afterBounds) =>
      let isLazy := readLazy afterBounds
      match
        expectToken context .rightBrace .expectedRepeatEnd
          isLazy.2
      with
      | .error e => .error e
      | .ok rest =>
          .ok
            (.repeated element bounds.1 bounds.2 isLazy.1, rest)

/- Reading bounds leaves fewer tokens. -/
theorem readBounds_length
    {context : ReadContext}
    {tokens : List Token}
    {result : (Int × Option Int) × List Token}
    (h : readBounds context tokens = .ok result) :
    result.2.length < tokens.length := by
  cases tokens with
  | nil => simp [readBounds, ReadContext.failAt] at h
  | cons token rest =>
      simp only [readBounds] at h
      repeat' split at h
      all_goals
        simp_all [ReadContext.failOn]
      all_goals
        subst h
        simp

/- Reading a repetition leaves fewer tokens. -/
theorem readRepeat_length
    {context : ReadContext}
    {element : Element}
    {tokens : List Token}
    {result : Element × List Token}
    (h : readRepeat context element tokens = .ok result) :
    result.2.length < tokens.length := by
  unfold readRepeat at h
  split at h
  · simp at h
  · next hBounds =>
      have hFirst := readBounds_length hBounds
      dsimp only at h
      split at h
      · simp at h
      · next hEnd =>
          have hLast := expectToken_length hEnd
          have hResult := Except.ok.inj h
          subst hResult
          exact Nat.lt_trans
            (Nat.lt_of_lt_of_le hLast (readLazy_length _))
            hFirst

------------------------------------------------------------
-- Units
------------------------------------------------------------

/-
  A group that is open: the parenthesis that opened it, and
  the elements before it.
-/
structure OpenGroup where
  opening : Token
  before : Pattern
  deriving Repr

/- A pattern with its last element repeated. -/
def Pattern.replaceLast
    (pattern : Pattern)
    (element : Element) : Pattern :=
  pattern.dropLast ++ [element]

/- The element that a token is by itself, if it is one. -/
def TokenKind.element? : TokenKind → Option Element
  | .hash => some .edge
  | .percent => some (.target false)
  | .less => some (.target true)
  | .ditto => some .ditto
  | _ => none

/- The elements that a run of ordinary text stands for. -/
def ReadContext.literals
    (context : ReadContext)
    (text : String) : Pattern :=
  (context.symbols text).map Element.literal

/-
  Read the units of a pattern. `groups` are the open groups,
  the innermost first, and `pattern` is what has been read
  of the innermost one. Outside all groups the pattern ends
  before a token of one of the kinds in `stops`.
-/
def readUnits
    (context : ReadContext)
    (stops : List TokenKind)
    (groups : List OpenGroup)
    (pattern : Pattern)
    (diagnostics : List Diagnostic) :
    List Token → Except ReadError (Parsed Pattern)
  | [] =>
      match groups with
      | [] => .ok ⟨pattern, diagnostics, []⟩
      | _ :: _ => context.failAt [] .expectedGroupEnd
  | token :: rest =>
      if groups.isEmpty ∧ token.kind ∈ stops then
        .ok ⟨pattern, diagnostics, token :: rest⟩
      else
        match token.kind, groups with
        | .rightParen, group :: outer =>
            if pattern.isEmpty then
              context.failOn group.opening .emptyGroup
            else
              have := readLazy_length rest
              readUnits context stops outer
                (group.before ++
                  [.optional pattern (readLazy rest).1])
                diagnostics (readLazy rest).2
        | .leftParen, _ =>
            readUnits context stops
              ({ opening := token, before := pattern } :: groups)
              [] diagnostics rest
        | .leftBrace, _ =>
            match pattern.getLast? with
            | none => context.failOn token .nothingToRepeat
            | some last =>
                match h : readRepeat context last rest with
                | .error e => .error e
                | .ok (repeated, after) =>
                    have := readRepeat_length h
                    readUnits context stops groups
                      (Pattern.replaceLast pattern repeated)
                      diagnostics after
        | .leftBracket, _ =>
            match h : readCategory context rest with
            | .error e => .error e
            | .ok read =>
                have := readCategory_length h
                readUnits context stops groups
                  (pattern ++ [read.value])
                  (diagnostics ++ read.diagnostics) read.rest
        | .text, _ =>
            readUnits context stops groups
              (pattern ++ context.literals token.text)
              diagnostics rest
        | .escape, _ =>
            readUnits context stops groups
              (pattern ++ [.literal token.text]) diagnostics
              rest
        | .star, _ =>
            have := readLazy_length rest
            readUnits context stops groups
              (pattern ++ [.wildcard]) diagnostics
              (readLazy rest).2
        | .doubleStar, _ =>
            have := readLazy_length rest
            readUnits context stops groups
              (pattern ++ [.gap (readLazy rest).1]) diagnostics
              (readLazy rest).2
        | kind, _ =>
            match kind.element? with
            | some element =>
                readUnits context stops groups
                  (pattern ++ [element]) diagnostics rest
            | none =>
                context.failOn token (.unexpected token.text)
termination_by tokens => tokens.length
decreasing_by
  all_goals
    simp_all
    try omega

/- Read a pattern up to a token of one of the given kinds. -/
def readPattern
    (context : ReadContext)
    (stops : List TokenKind)
    (tokens : List Token) : Except ReadError (Parsed Pattern) :=
  readUnits context stops [] [] [] tokens

end Diachrony
