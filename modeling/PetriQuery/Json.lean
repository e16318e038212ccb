import PetriQuery.Numeral.Layout

/-!
# JSON

JSON values and their two texts: `compact` on one line without spaces, and `pretty` with one item to
a line, indented by two spaces for each level. An object keeps the order of its members. A number
that is a NaN or an infinity has no form in JSON and is written as `null`.
-/

set_option autoImplicit false

namespace PetriQuery

open Numeral

/-- A JSON value. Its numbers are integers or fractions of the format binary32. -/
inductive Json where
  | null
  | bool (value : Bool)
  | int (value : Int)
  | fraction (value : Binary32)
  | string (value : String)
  | array (items : List Json)
  | object (members : List (String × Json))

namespace Json

/-! ## Strings -/

/-- A hexadecimal digit in lower case. -/
def hexDigit (n : Nat) : Char :=
  if n < 10 then Char.ofNat ('0'.toNat + n) else Char.ofNat ('a'.toNat + (n - 10))

/-- How a character stands in a string. The quote, the backslash and the control characters are
escaped, five of the latter by a letter and the others by their code. -/
def escape (c : Char) : List Char :=
  if c = '"' then ['\\', '"']
  else if c = '\\' then ['\\', '\\']
  else if c = '\x08' then ['\\', 'b']
  else if c = '\x0c' then ['\\', 'f']
  else if c = '\n' then ['\\', 'n']
  else if c = '\r' then ['\\', 'r']
  else if c = '\t' then ['\\', 't']
  else if c.toNat < 0x20 then
    ['\\', 'u', '0', '0', hexDigit (c.toNat / 16), hexDigit (c.toNat % 16)]
  else [c]

/-- A string between its quotes. -/
def quoted (s : String) : List Char := '"' :: s.toList.flatMap escape ++ ['"']

/-! ## Texts -/

/-- Where a text has line breaks and spaces. -/
structure Style where
  /-- What stands in front of an item, or of a closing bracket, at a level of nesting. -/
  lineBreak : Nat → List Char
  /-- What stands between a key and its value. -/
  colon : List Char

/-- Everything on one line, without spaces. -/
def Style.compact : Style where
  lineBreak _ := []
  colon := [':']

/-- An item to a line, two spaces of indentation to a level. -/
def Style.pretty : Style where
  lineBreak level := '\n' :: List.replicate (2 * level) ' '
  colon := [':', ' ']

mutual

/-- Writes the text of a value at a level of nesting in front of `rest`. -/
def onto (style : Style) (level : Nat) (rest : List Char) : Json → List Char
  | .null => "null".toList ++ rest
  | .bool value => (if value then "true" else "false").toList ++ rest
  | .int value => (toString value).toList ++ rest
  | .fraction value =>
    (if value.isFinite then (Layout.json.finite value).toList else "null".toList) ++ rest
  | .string value => quoted value ++ rest
  | .array [] => '[' :: ']' :: rest
  | .array (item :: items) =>
    '[' :: style.lineBreak (level + 1)
      ++ item.onto style (level + 1) (itemsOnto style level rest items)
  | .object [] => '\x7b' :: '\x7d' :: rest
  | .object ((key, value) :: members) =>
    '\x7b' :: style.lineBreak (level + 1) ++ quoted key ++ style.colon
      ++ value.onto style (level + 1) (membersOnto style level rest members)

/-- Writes the items after the first one of an array, and the closing bracket, in front of
`rest`. -/
def itemsOnto (style : Style) (level : Nat) (rest : List Char) : List Json → List Char
  | [] => style.lineBreak level ++ ']' :: rest
  | item :: items =>
    ',' :: style.lineBreak (level + 1)
      ++ item.onto style (level + 1) (itemsOnto style level rest items)

/-- Writes the members after the first one of an object, and the closing brace, in front of
`rest`. -/
def membersOnto (style : Style) (level : Nat) (rest : List Char) :
    List (String × Json) → List Char
  | [] => style.lineBreak level ++ '\x7d' :: rest
  | (key, value) :: members =>
    ',' :: style.lineBreak (level + 1) ++ quoted key ++ style.colon
      ++ value.onto style (level + 1) (membersOnto style level rest members)

end

/-- The text of a value on one line. -/
def compact (value : Json) : String := String.ofList (value.onto .compact 0 [])

/-- The text of a value with one item to a line. -/
def pretty (value : Json) : String := String.ofList (value.onto .pretty 0 [])

end Json

end PetriQuery
