import Diachrony.Text.Quoted

/-
  Untyped values, as they may be offered in the place of a
  symbol.

  Key definitions include:
    * `Value`
    * `Value.describe`
-/

namespace Diachrony

/- A value of any kind. -/
inductive Value where
  | absent
  | truth (b : Bool)
  | number (n : Int)
  | text (s : String)
  | list (items : List Value)
  | record (fields : List (String × Value))
  deriving Repr

mutual

/- How a message shows a value. -/
def Value.describe : Value → String
  | .absent => "None"
  | .truth b => if b then "True" else "False"
  | .number n => toString n
  | .text s => quote s
  | .list items =>
      "[" ++ ", ".intercalate (Value.describeAll items) ++ "]"
  | .record fields =>
      "\x7b" ++ ", ".intercalate (Value.describeFields fields) ++
        "\x7d"

/- How a message shows the entries of a list. -/
def Value.describeAll : List Value → List String
  | [] => []
  | value :: rest =>
      value.describe :: Value.describeAll rest

/- How a message shows the fields of a record. -/
def Value.describeFields :
    List (String × Value) → List String
  | [] => []
  | (name, value) :: rest =>
      (quote name ++ ": " ++ value.describe) ::
        Value.describeFields rest

end

end Diachrony
