import SpendTrace.Json.Number

/-!
# Writing JSON

Values in the one form in which they are written: without white space, the members of an object in
the order given, characters beyond ASCII as they are. Of the others a quote, a backslash and the
control characters are escaped, with a letter where there is one and with four lower-case
hexadecimal digits otherwise.
-/

namespace SpendTrace.Json

inductive Value where
  | null
  | boolean (value : Bool)
  | number (value : Number)
  | string (value : String)
  | array (items : List Value)
  | object (members : List (String × Value))

/-! ## Strings -/

/-- How a character is written inside a string. -/
def escapedChar (c : Char) : List Char :=
  if c = '"' then ['\\', '"']
  else if c = '\\' then ['\\', '\\']
  else if c = '\x08' then ['\\', 'b']
  else if c = '\x0c' then ['\\', 'f']
  else if c = '\n' then ['\\', 'n']
  else if c = '\r' then ['\\', 'r']
  else if c = '\t' then ['\\', 't']
  else if c.toNat < 0x20 then
    ['\\', 'u', '0', '0', Nat.digitChar (c.toNat / 16), Nat.digitChar (c.toNat % 16)]
  else [c]

/-- A string in its quotes. -/
def stringText (s : String) : List Char :=
  '"' :: s.toList.flatMap escapedChar ++ ['"']

/-! ## Values -/

namespace Value

mutual

/-- The written form of a value. -/
def text : Value → List Char
  | null => ['n', 'u', 'l', 'l']
  | boolean true => ['t', 'r', 'u', 'e']
  | boolean false => ['f', 'a', 'l', 's', 'e']
  | number n => n.text
  | string s => stringText s
  | array items => '[' :: itemsText items ++ [']']
  | object members => '{' :: membersText members ++ ['}']

/-- The items of an array, separated by commas. -/
def itemsText : List Value → List Char
  | [] => []
  | [v] => v.text
  | v :: w :: vs => v.text ++ ',' :: itemsText (w :: vs)

/-- The members of an object, separated by commas. -/
def membersText : List (String × Value) → List Char
  | [] => []
  | [(k, v)] => stringText k ++ ':' :: v.text
  | (k, v) :: m :: ms => stringText k ++ ':' :: (v.text ++ ',' :: membersText (m :: ms))

end

/-- A member, if there is a value for it. -/
def optional (name : String) (value : Option Value) : List (String × Value) :=
  match value with
  | some v => [(name, v)]
  | none => []

/-- The written form as a string. -/
def toText (v : Value) : String :=
  String.ofList v.text

end Value

end SpendTrace.Json
