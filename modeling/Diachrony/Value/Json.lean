import Diachrony.Text.DigitLimit
import Diachrony.Value

/-
  Values as JSON text.

  The writer sets every entry of a list or a record on a
  line of its own, indented by two more blanks than the
  value that holds it. Characters beyond ASCII are written
  as they are. The reader accepts JSON texts whose numbers
  are whole, whose characters beyond the basic plane are
  written as they are, and whose records have no name twice.

  The digits of numbers can be limited. A value with a
  longer number is not written, and a text with one is not
  read.

  Key definitions include:
    * `Json.writeString`
    * `Value.json?`
    * `Json.read?`
-/

namespace Diachrony

namespace Json

------------------------------------------------------------
-- Writing
------------------------------------------------------------

/- How a character is written inside a string. -/
def escape
    (c : Char) : List Char :=
  if c = Quoted.quotationMark ∨ c = '\\' then
    ['\\', c]
  else if c = '\n' then
    ['\\', 'n']
  else if c = '\r' then
    ['\\', 'r']
  else if c = '\t' then
    ['\\', 't']
  else if c = Char.ofNat 12 then
    ['\\', 'f']
  else if c = Char.ofNat 8 then
    ['\\', 'b']
  else if c.toNat < 0x20 then
    '\\' :: 'u' :: Quoted.hexDigits 4 c.toNat
  else
    [c]

/- A string between quotation marks. -/
def writeString
    (text : String) : String :=
  String.ofList
    (Quoted.quotationMark ::
      (text.toList.flatMap escape ++ [Quoted.quotationMark]))

/- A new line with a given depth of indentation. -/
def newLine
    (depth : Nat) : String :=
  String.ofList ('\n' :: List.replicate (2 * depth) ' ')

/- Entries on lines of their own between two brackets. -/
def enclose
    (opening closing : String)
    (depth : Nat)
    (entries : List String) : String :=
  if entries.isEmpty then
    opening ++ closing
  else
    opening ++ newLine (depth + 1) ++
      ("," ++ newLine (depth + 1)).intercalate entries ++
      newLine depth ++ closing

/- A number, if it may have so many digits. -/
def writeNumber?
    (limit : DigitLimit)
    (n : Int) : Option String :=
  if limit.admitsNumber n then some (toString n) else none

mutual

/- The text of a value at a depth of indentation. -/
def write?
    (limit : DigitLimit)
    (depth : Nat) : Value → Option String
  | .absent => some "null"
  | .truth b => some (if b then "true" else "false")
  | .number n => writeNumber? limit n
  | .text s => some (writeString s)
  | .list items =>
      (writeAll? limit (depth + 1) items).map fun entries =>
        enclose "[" "]" depth entries
  | .record fields =>
      (writeFields? limit (depth + 1) fields).map fun entries =>
        enclose "\x7b" "\x7d" depth entries

/- The texts of the entries of a list. -/
def writeAll?
    (limit : DigitLimit)
    (depth : Nat) : List Value → Option (List String)
  | [] => some []
  | value :: rest =>
      match write? limit depth value with
      | none => none
      | some entry =>
          (writeAll? limit depth rest).map fun others =>
            entry :: others

/- The texts of the fields of a record. -/
def writeFields?
    (limit : DigitLimit)
    (depth : Nat) :
    List (String × Value) → Option (List String)
  | [] => some []
  | (name, value) :: rest =>
      match write? limit depth value with
      | none => none
      | some entry =>
          (writeFields? limit depth rest).map fun others =>
            (writeString name ++ ": " ++ entry) :: others

end

------------------------------------------------------------
-- Reading strings
------------------------------------------------------------

/- The value of a hexadecimal digit of either case. -/
def hexValue?
    (c : Char) : Option Nat :=
  if '0' ≤ c ∧ c ≤ '9' then
    some (c.toNat - 48)
  else if 'a' ≤ c ∧ c ≤ 'f' then
    some (c.toNat - 87)
  else if 'A' ≤ c ∧ c ≤ 'F' then
    some (c.toNat - 55)
  else
    none

/- The value of four hexadecimal digits. -/
def hexCode?
    (a b c d : Char) : Option Nat := do
  let a ← hexValue? a
  let b ← hexValue? b
  let c ← hexValue? c
  let d ← hexValue? d
  return 4096 * a + 256 * b + 16 * c + d

/- The character that a simple escape stands for. -/
def unescape?
    (c : Char) : Option Char :=
  match c with
  | '"' => some '"'
  | '\\' => some '\\'
  | '/' => some '/'
  | 'b' => some (Char.ofNat 8)
  | 'f' => some (Char.ofNat 12)
  | 'n' => some '\n'
  | 'r' => some '\r'
  | 't' => some '\t'
  | _ => none

/-
  Read a string up to its closing mark. The result is the
  string and what follows it. Control characters have to be
  escaped.
-/
def readString?
    (read : List Char) :
    List Char → Option (String × List Char)
  | [] => none
  | '"' :: rest => some (String.ofList read.reverse, rest)
  | '\\' :: 'u' :: a :: b :: c :: d :: rest =>
      match hexCode? a b c d with
      | none => none
      | some code => readString? (Char.ofNat code :: read) rest
  | '\\' :: c :: rest =>
      match unescape? c with
      | none => none
      | some c => readString? (c :: read) rest
  | c :: rest =>
      if c.toNat < 0x20 then
        none
      else
        readString? (c :: read) rest

------------------------------------------------------------
-- Reading values
------------------------------------------------------------

/- A blank between the parts of a JSON text. -/
def isJsonBlank
    (c : Char) : Bool :=
  c = ' ' || c = '\n' || c = '\r' || c = '\t'

/- A text without the blanks it begins with. -/
def skipBlanks
    (text : List Char) : List Char :=
  text.dropWhile isJsonBlank

/- The number that decimal digits spell. -/
def digitsValue
    (digits : List Char) : Nat :=
  digits.foldl (fun n c => 10 * n + (c.toNat - 48)) 0

/- The digits a number begins with. A zero has no others. -/
def leadingDigits
    (text : List Char) : List Char :=
  match text with
  | '0' :: _ => ['0']
  | _ => text.takeWhile Char.isDigit

/- Read the digits of a number, if they may be so many. -/
def readDigits?
    (limit : DigitLimit)
    (text : List Char) : Option (Nat × List Char) :=
  let digits := leadingDigits text
  if digits.isEmpty || !limit.admits digits.length then
    none
  else
    some (digitsValue digits, text.drop digits.length)

/- Read a value that has no parts. -/
def readSimple?
    (limit : DigitLimit)
    (text : List Char) : Option (Value × List Char) :=
  match text with
  | 'n' :: 'u' :: 'l' :: 'l' :: rest => some (.absent, rest)
  | 't' :: 'r' :: 'u' :: 'e' :: rest => some (.truth true, rest)
  | 'f' :: 'a' :: 'l' :: 's' :: 'e' :: rest =>
      some (.truth false, rest)
  | '"' :: rest =>
      (readString? [] rest).map fun r => (.text r.1, r.2)
  | '-' :: rest =>
      (readDigits? limit rest).map fun r =>
        (.number (-r.1), r.2)
  | _ =>
      (readDigits? limit text).map fun r => (.number r.1, r.2)

mutual

/-
  Read a value. The fuel bounds the number of parts that
  are read; the length of the text is always enough.
-/
def readValue?
    (limit : DigitLimit) :
    Nat → List Char → Option (Value × List Char)
  | 0, _ => none
  | fuel + 1, text =>
      match skipBlanks text with
      | '[' :: rest =>
          match skipBlanks rest with
          | ']' :: after => some (.list [], after)
          | _ =>
              (readItems? limit fuel rest).map fun r =>
                (.list r.1, r.2)
      | '{' :: rest =>
          match skipBlanks rest with
          | '}' :: after => some (.record [], after)
          | _ =>
              (readFields? limit fuel rest).map fun r =>
                (.record r.1, r.2)
      | simple => readSimple? limit simple

/- Read the entries of a list and its closing bracket. -/
def readItems?
    (limit : DigitLimit) :
    Nat → List Char → Option (List Value × List Char)
  | 0, _ => none
  | fuel + 1, text =>
      match readValue? limit fuel text with
      | none => none
      | some (value, rest) =>
          match skipBlanks rest with
          | ']' :: after => some ([value], after)
          | ',' :: more =>
              (readItems? limit fuel more).map fun r =>
                (value :: r.1, r.2)
          | _ => none

/- Read the fields of a record and its closing bracket. -/
def readFields?
    (limit : DigitLimit) :
    Nat →
    List Char →
    Option (List (String × Value) × List Char)
  | 0, _ => none
  | fuel + 1, text =>
      match skipBlanks text with
      | '"' :: start =>
          match readString? [] start with
          | none => none
          | some (name, afterName) =>
              match skipBlanks afterName with
              | ':' :: valueText =>
                  match readValue? limit fuel valueText with
                  | none => none
                  | some (value, rest) =>
                      match skipBlanks rest with
                      | '}' :: after =>
                          some ([(name, value)], after)
                      | ',' :: more =>
                          (readFields? limit fuel more).map fun r =>
                            ((name, value) :: r.1, r.2)
                      | _ => none
              | _ => none
      | _ => none

end

/- The value that a whole text spells. -/
def read?
    (limit : DigitLimit)
    (text : String) : Option Value :=
  match readValue? limit (text.length + 1) text.toList with
  | some (value, rest) =>
      if (skipBlanks rest).isEmpty then some value else none
  | none => none

end Json

/- The JSON text of a value, if its numbers can be written. -/
def Value.json?
    (limit : DigitLimit)
    (value : Value) : Option String :=
  Json.write? limit 0 value

end Diachrony
