import TypeConversion.Number.Decimal
import TypeConversion.Text.Quoted
import TypeConversion.Node.Text
import TypeConversion.Value.Basic

/-!
# Values as text

The text of a value is what it is converted to as a string: the bare text of strings, characters and
enum constants, numbers in decimal, and elements in brackets.  The inner text of a value shows its
shape and parts as well.
-/

namespace TypeConversion

namespace Value

/-- The text of a host object: the text it holds, or else the number of its class. -/
def hostText (c : ClassId) (host : HostObject) : String :=
  match host.payload with
  | .text text => text
  | .number _ => "Object@" ++ natText c.index.toNat

mutual

/-- The text of a value. -/
def text : Value → String
  | boolean b => if b then "true" else "false"
  | byte n => integerText n.toInt
  | short n => integerText n.toInt
  | int n => integerText n.toInt
  | long n => integerText n.toInt
  | float x => x.displayText
  | double x => x.displayText
  | char c => String.singleton c
  | string text => text
  | enumConstant _ name => name
  | array _ elements => "[" ++ elementsText elements ++ "]"
  | collection _ elements => "[" ++ elementsText elements ++ "]"
  | object c host => hostText c host

/-- The texts of elements with commas between them. -/
def elementsText : List (Option Value) → String
  | [] => ""
  | [element] => elementText element
  | element :: rest => elementText element ++ ", " ++ elementsText rest

/-- The text of an element, which may be null. -/
def elementText : Option Value → String
  | none => "null"
  | some value => text value

end

mutual

/-- A value as inner texts show it. -/
def innerText : Value → String
  | boolean b => "Boolean(" ++ (if b then "true" else "false") ++ ")"
  | byte n => "Byte(" ++ integerText n.toInt ++ ")"
  | short n => "Short(" ++ integerText n.toInt ++ ")"
  | int n => "Int(" ++ integerText n.toInt ++ ")"
  | long n => "Long(" ++ integerText n.toInt ++ ")"
  | float x => "Float(" ++ x.exactText ++ ")"
  | double x => "Double(" ++ x.exactText ++ ")"
  | char c => "Char(" ++ quotedSingle c ++ ")"
  | string text => "String(" ++ quoted text ++ ")"
  | enumConstant c name =>
    "Enum \x7b class: " ++ c.innerText ++ ", constant: " ++ quoted name ++ " \x7d"
  | array component elements =>
    "Array \x7b component: " ++ component.innerText ++ ", elements: ["
      ++ elementsInnerText elements ++ "] \x7d"
  | collection c elements =>
    "Collection \x7b class: " ++ c.innerText ++ ", elements: ["
      ++ elementsInnerText elements ++ "] \x7d"
  | object c _ => "Object \x7b class: " ++ c.innerText ++ ", .. \x7d"

/-- Elements as inner texts show them. -/
def elementsInnerText : List (Option Value) → String
  | [] => ""
  | [element] => elementInnerText element
  | element :: rest => elementInnerText element ++ ", " ++ elementsInnerText rest

/-- An element as inner texts show it. -/
def elementInnerText : Option Value → String
  | none => "None"
  | some value => "Some(" ++ innerText value ++ ")"

end

end Value

end TypeConversion
