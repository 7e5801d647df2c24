import Diachrony.Diagnostic
import Diachrony.Flags
import Diachrony.Source.Number
import Diachrony.Unicode.Blank
import Diachrony.Unicode.NameCharacter

/-
  Flag lists as they are written on rules and blocks.

  A flag list is a sequence of items between semicolons. An
  item is the name of a flag, possibly with an argument
  after a colon, or an exclamation mark and a name. Later
  items add to the earlier ones or override them.

  Key definitions include:
    * `FlagName`
    * `FlagItem`
    * `FlagItem.apply`
    * `Flags.read`
    * `isFlagList`
-/

namespace Diachrony

open Unicode

------------------------------------------------------------
-- Names
------------------------------------------------------------

/- The flags that can be written. -/
inductive FlagName where
  | repeating
  | persistent
  | rightToLeft
  | optional
  | chance
  | ignore
  | ditto
  | stop
  | persist
  deriving Repr, DecidableEq

namespace FlagName

/- How a flag is written. -/
def text : FlagName → String
  | repeating => "repeat"
  | persistent => "persistent"
  | rightToLeft => "rtl"
  | optional => "optional"
  | chance => "chance"
  | ignore => "ignore"
  | ditto => "ditto"
  | stop => "stop"
  | persist => "persist"

/- All flags. -/
def all : List FlagName :=
  [ repeating, persistent, rightToLeft, optional, chance,
    ignore, ditto, stop, persist ]

/- The flag that is written in a given way. -/
def ofText?
    (text : String) : Option FlagName :=
  all.find? fun name => name.text = text

/- Flags that can be negated. -/
def negatable
    (name : FlagName) : Bool :=
  name = ditto || name = stop

/- Flags that take no argument. -/
def takesNoArgument
    (name : FlagName) : Bool :=
  name = rightToLeft || name = ignore || name = ditto ||
    name = stop

end FlagName

------------------------------------------------------------
-- Items
------------------------------------------------------------

/- The largest pass bound that can be written. -/
def maxPassesLimit : Nat :=
  1000

/- How long a rule persists that persists without a count. -/
def persistAll : Nat :=
  1000000

/- The parts of a text around the first colon, if any. -/
def splitColon
    (text : List Char) : List Char × Option (List Char) :=
  match text.dropWhile (· ≠ ':') with
  | [] => (text, none)
  | _ :: argument => (text.takeWhile (· ≠ ':'), some argument)

/-
  The written parts of an item: whether it is negated, its
  name, and its argument if there is a colon.
-/
structure FlagItem where
  negated : Bool
  name : String
  argument : Option (List Char)
  deriving Repr, DecidableEq

/- The parts of an item without outer blanks. -/
def FlagItem.ofText
    (text : List Char) : FlagItem :=
  let negated := text.head? = some '!'
  let body := if negated then trim (text.drop 1) else text
  let parts := splitColon body
  { negated := negated
    name := String.ofList (trim parts.1)
    argument := parts.2.map trim }

/- Where an item stands. -/
structure Place where
  line : Int
  column : Int
  deriving Repr, DecidableEq

/- An error at a place. -/
def Place.error
    {α : Type}
    (place : Place)
    (cause : Cause) : Except SourceError α :=
  .error
    { cause := cause
      line := place.line
      column := place.column }

/- An error at a place, among those that a reader reports. -/
def Place.fail
    {α : Type}
    (place : Place)
    (cause : Cause) : Except ReadError α :=
  .error (.at cause place.line place.column)

/- The number that an argument spells, inside its bounds. -/
def FlagItem.number
    (limit : DigitLimit)
    (place : Place)
    (name : String)
    (argument : List Char)
    (low high : Nat) : Except ReadError Nat :=
  if !isNumeral argument then
    place.fail (.notANumber name (String.ofList argument))
  else
    match readNumber limit argument with
    | .error e => .error e
    | .ok value =>
        if low ≤ value ∧ value ≤ high then
          .ok value
        else
          place.fail (.outOfRange name low high value)

/- The flag of an item, if the item is well formed. -/
def FlagItem.flag
    (place : Place)
    (item : FlagItem) : Except ReadError FlagName :=
  match FlagName.ofText? item.name with
  | none => place.fail (.unknownFlag item.name)
  | some name =>
      if item.negated && !name.negatable then
        place.fail (.notNegatable item.name)
      else
        match item.argument with
        | none => .ok name
        | some argument =>
            if argument.isEmpty then
              place.fail (.missingArgument item.name)
            else if name.takesNoArgument then
              place.fail (.needlessArgument item.name)
            else
              .ok name

/- The flags after a pass bound has been read, if any. -/
def FlagItem.applyRepeat
    (limit : DigitLimit)
    (place : Place)
    (item : FlagItem)
    (flags : Flags) : Except ReadError Flags :=
  match item.argument with
  | none => .ok { flags with persistent := true }
  | some argument =>
      match
        FlagItem.number limit place item.name argument 1
          maxPassesLimit
      with
      | .error e => .error e
      | .ok bound =>
          .ok { flags with
            persistent := true
            maxPasses := some (bound : Int) }

/- The flags after an optional class has been read, if any. -/
def FlagItem.applyOptional
    (place : Place)
    (item : FlagItem)
    (flags : Flags) : Except ReadError Flags :=
  match item.argument with
  | none => .ok { flags with isOptional := true }
  | some argument =>
      if isName argument then
        .ok { flags with
          isOptional := true
          optionalClass := String.ofList argument }
      else
        place.fail (.badClass (String.ofList argument))

/-
  The flags after a chance has been read. The percentage
  has no effect.
-/
def FlagItem.applyChance
    (limit : DigitLimit)
    (place : Place)
    (item : FlagItem)
    (flags : Flags) : Except ReadError Flags :=
  let flags :=
    { flags with isOptional := true, optionalClass := "chance" }
  match item.argument with
  | none => .ok flags
  | some argument =>
      match
        FlagItem.number limit place item.name argument 0 100
      with
      | .error e => .error e
      | .ok _ => .ok flags

/- The flags after a count of rules has been read, if any. -/
def FlagItem.applyPersist
    (limit : DigitLimit)
    (place : Place)
    (item : FlagItem)
    (flags : Flags) : Except ReadError Flags :=
  match item.argument with
  | none => .ok { flags with persist := (persistAll : Int) }
  | some argument =>
      match
        FlagItem.number limit place item.name argument 1
          persistAll
      with
      | .error e => .error e
      | .ok count => .ok { flags with persist := (count : Int) }

/- The value of a flag that can be negated. -/
def FlagItem.sign
    (item : FlagItem) : Int :=
  if item.negated then -1 else 1

/- The flags after one more item. -/
def FlagItem.apply
    (limit : DigitLimit)
    (place : Place)
    (item : FlagItem)
    (flags : Flags) : FlagName → Except ReadError Flags
  | .repeating => item.applyRepeat limit place flags
  | .persistent => item.applyRepeat limit place flags
  | .rightToLeft => .ok { flags with rightToLeft := true }
  | .optional => item.applyOptional place flags
  | .chance => item.applyChance limit place flags
  | .ignore => .ok { flags with ignored := true }
  | .ditto => .ok { flags with ditto := item.sign }
  | .stop => .ok { flags with stop := item.sign }
  | .persist => item.applyPersist limit place flags

/- What is reported about an item. -/
def FlagName.diagnostics
    (place : Place) : FlagName → List Diagnostic
  | .chance =>
      [ { problem := .chanceFlag
          line := some place.line
          column := some place.column } ]
  | _ => []

------------------------------------------------------------
-- Lists
------------------------------------------------------------

/- The parts of a text between semicolons. -/
def splitSemicolons
    (part : List Char) : List Char → List (List Char)
  | [] => [part.reverse]
  | c :: rest =>
      if c = ';' then
        part.reverse :: splitSemicolons [] rest
      else
        splitSemicolons (c :: part) rest

/- Read one item that stands somewhere in its part. -/
def readFlagItem
    (limit : DigitLimit)
    (place : Place)
    (text : List Char)
    (flags : Flags) :
    Except ReadError (Flags × List Diagnostic) :=
  if text.isEmpty then
    place.fail .emptyFlag
  else
    let item := FlagItem.ofText text
    match item.flag place with
    | .error e => .error e
    | .ok name =>
        match item.apply limit place flags name with
        | .error e => .error e
        | .ok next => .ok (next, name.diagnostics place)

/-
  Read the parts of a flag list. The column is that of the
  first part, and the parts are one semicolon apart.
-/
def readFlagItems
    (limit : DigitLimit)
    (line : Int)
    (column : Int)
    (flags : Flags)
    (diagnostics : List Diagnostic) :
    List (List Char) →
    Except ReadError (Flags × List Diagnostic)
  | [] => .ok (flags, diagnostics)
  | part :: rest =>
      let blanks := part.length - (trimLeft part).length
      let place : Place :=
        { line := line, column := column + blanks }
      match readFlagItem limit place (trim part) flags with
      | .error e => .error e
      | .ok (next, more) =>
          readFlagItems limit line (column + part.length + 1)
            next (diagnostics ++ more) rest

/- The flags that a flag list spells. -/
def Flags.read
    (limit : DigitLimit)
    (text : List Char)
    (line column : Int) :
    Except ReadError (Flags × List Diagnostic) :=
  readFlagItems limit line column {} [] (splitSemicolons [] text)

/-
  Whether a text is a flag list. It cannot be told of a text
  that would be one but for a number with too many digits.
-/
def isFlagList
    (limit : DigitLimit)
    (text : List Char) : Except ReadError Bool :=
  match Flags.read limit text 0 0 with
  | .ok _ => .ok true
  | .error (.malformed _) => .ok false
  | .error e => .error e

end Diachrony
