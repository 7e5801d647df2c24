import Diachrony.Source.FlagList

/-
  Metarules: lines that say something about other rules.

  A metarule is an exclamation mark, a name, possibly an
  argument after a colon, and a rest. It stores the next
  rule under a name, runs a stored rule, or makes a block
  of the rules that follow.

  Key definitions include:
    * `MetaruleLine`
    * `MetaruleLine.read?`
    * `Metarule`
    * `Metarule.ofLine`
-/

namespace Diachrony

open Unicode

------------------------------------------------------------
-- Lines
------------------------------------------------------------

/-
  The parts of a metarule line. The offset is that of the
  rest in the line.
-/
structure MetaruleLine where
  name : String
  argument : Option (List Char)
  rest : List Char
  offset : Nat
  deriving Repr, DecidableEq

/- A character that an argument can contain. -/
def isArgumentCharacter
    (c : Char) : Bool :=
  !isBlank c && c ≠ ';'

/-
  The argument after a colon, and what follows it. A colon
  without an argument is part of the rest.
-/
def readArgument
    (text : List Char) : Option (List Char) × List Char :=
  match text with
  | ':' :: afterColon =>
      let start := trimLeft afterColon
      match start.takeWhile isArgumentCharacter with
      | [] => (none, text)
      | argument =>
          (some argument, start.dropWhile isArgumentCharacter)
  | _ => (none, text)

/- Read the parts of a metarule line. -/
def MetaruleLine.read?
    (text : List Char) : Option MetaruleLine :=
  match text with
  | '!' :: afterSign =>
      let name := afterSign.takeWhile isNameCharacter
      if name.isEmpty then
        none
      else
        let afterName :=
          trimLeft (afterSign.dropWhile isNameCharacter)
        let (argument, afterArgument) := readArgument afterName
        let rest := trimLeft afterArgument
        some
          { name := String.ofList name
            argument := argument
            rest := rest
            offset := text.length - rest.length }
  | _ => none

------------------------------------------------------------
-- Metarules
------------------------------------------------------------

/- What a metarule demands. -/
inductive Metarule where
  | store (name : String)
  | run (name : String)
  | block
      (size : Option Nat)
      (flags : Flags)
      (diagnostics : List Diagnostic)
  deriving Repr, DecidableEq

/- The one name that a metarule is given. -/
def MetaruleLine.oneName
    (line : MetaruleLine)
    (place : Place) : Except SourceError String :=
  match line.argument with
  | some name =>
      if (trim line.rest).isEmpty then
        .ok (String.ofList name)
      else
        place.error (.needsOneName line.name)
  | none => place.error (.needsOneName line.name)

/- The size of a block, if it has one. -/
def MetaruleLine.blockSize
    (limit : DigitLimit)
    (line : MetaruleLine)
    (place : Place) : Except ReadError (Option Nat) :=
  match line.argument with
  | none => .ok none
  | some argument =>
      let bad : ReadError :=
        .at (.badBlockSize (String.ofList argument))
          place.line place.column
      if !argument.all isDigit then
        .error bad
      else
        match readNumber limit argument with
        | .error e => .error e
        | .ok size =>
            if size < 1 then .error bad else .ok (some size)

/- The flags of a block. -/
def MetaruleLine.readFlags
    (limit : DigitLimit)
    (line : MetaruleLine)
    (place : Place) :
    Except ReadError (Flags × List Diagnostic) :=
  if (trim line.rest).isEmpty then
    .ok ({}, [])
  else
    Flags.read limit (trim line.rest) place.line
      (place.column + line.offset)

/- The block that a metarule line begins. -/
def MetaruleLine.block
    (limit : DigitLimit)
    (line : MetaruleLine)
    (place : Place) : Except ReadError Metarule :=
  match line.blockSize limit place with
  | .error e => .error e
  | .ok size =>
      match line.readFlags limit place with
      | .error e => .error e
      | .ok (flags, diagnostics) =>
          .ok (.block size flags diagnostics)

/- The metarule of a line that stands at a place. -/
def Metarule.ofLine
    (limit : DigitLimit)
    (line : MetaruleLine)
    (place : Place) : Except ReadError Metarule :=
  if line.name = "def" then
    match line.oneName place with
    | .error e => .error (.malformed e)
    | .ok name => .ok (.store name)
  else if line.name = "rule" then
    match line.oneName place with
    | .error e => .error (.malformed e)
    | .ok name => .ok (.run name)
  else if line.name = "block" then
    line.block limit place
  else
    .error
      (.at (.unknownMetarule line.name) place.line place.column)

/- The metarule of a line with a given text. -/
def Metarule.read
    (limit : DigitLimit)
    (place : Place)
    (text : List Char) : Except ReadError Metarule :=
  match MetaruleLine.read? text with
  | none =>
      .error
        (.at (.malformedMetarule (String.ofList text))
          place.line place.column)
  | some line => Metarule.ofLine limit line place

end Diachrony
