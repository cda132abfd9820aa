import TypeConversion.Number.Integer
import TypeConversion.Json.Basic

/-!
# Compact JSON text

Values are written without any blanks, the members of an object in their order.  Inside a string
only the quote, the backslash and the controls below the space are escaped, with the short form
where JSON has one.
-/

namespace TypeConversion.Json

/-- A hexadecimal digit in lower case. -/
def hexDigit (n : Nat) : Char :=
  Nat.digitChar n

/-- A character as it stands inside a JSON string. -/
def escapedChar (c : Char) : List Char :=
  if c = '"' then ['\\', '"']
  else if c = '\\' then ['\\', '\\']
  else if c = '\x08' then ['\\', 'b']
  else if c = '\x0C' then ['\\', 'f']
  else if c = '\n' then ['\\', 'n']
  else if c = '\r' then ['\\', 'r']
  else if c = '\t' then ['\\', 't']
  else if c.toNat < 0x20 then
    ['\\', 'u', '0', '0', hexDigit (c.toNat / 16), hexDigit (c.toNat % 16)]
  else [c]

/-- A string with its quotes. -/
def printString (text : String) : List Char :=
  '"' :: (text.toList.flatMap escapedChar ++ ['"'])

mutual

/-- The text of a value. -/
def print : Json → List Char
  | null => "null".toList
  | bool true => "true".toList
  | bool false => "false".toList
  | integer n => (integerText n).toList
  | fraction literal => literal.toList
  | string text => printString text
  | brokenString => "\"\\ud800\"".toList
  | array elements => '[' :: (printElements elements ++ [']'])
  | object members => Char.ofNat 0x7B :: (printMembers members ++ [Char.ofNat 0x7D])
  | brokenObject => "\x7b\"\\ud800\":null\x7d".toList

/-- The texts of the elements of an array, with commas between them. -/
def printElements : List Json → List Char
  | [] => []
  | [element] => print element
  | element :: rest => print element ++ ',' :: printElements rest

/-- The texts of the members of an object, with commas between them. -/
def printMembers : List (String × Json) → List Char
  | [] => []
  | [(key, value)] => printString key ++ ':' :: print value
  | (key, value) :: rest => printString key ++ ':' :: (print value ++ ',' :: printMembers rest)

end

/-- The text of a value as a string. -/
def text (value : Json) : String :=
  String.ofList value.print

end TypeConversion.Json
