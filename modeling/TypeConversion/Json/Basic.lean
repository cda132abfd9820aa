/-!
# JSON values

The data model of a JSON text.  Objects keep their members in the order of the text, repeated keys
included, since a reader of a record has to see both.
-/

namespace TypeConversion

/-- A JSON value. -/
inductive Json where
  | null
  | bool (value : Bool)
  /-- A number written as a plain integer. -/
  | integer (value : Int)
  /-- Any other number, as it was written. -/
  | fraction (literal : String)
  | string (text : String)
  /-- A string with half a surrogate pair, which stands for no text. -/
  | brokenString
  | array (elements : List Json)
  | object (members : List (String × Json))
  /-- An object with a key that stands for no text. -/
  | brokenObject
deriving Inhabited

namespace Json

/-- The value of the last member with the key. -/
def field? (key : String) : Json → Option Json
  | object members => (members.reverse.find? (·.1 = key)).map (·.2)
  | _ => none

/-- A list of values, each written by a function. -/
def list {α : Type} (write : α → Json) (values : List α) : Json :=
  array (values.map write)

/-- A value that may be absent, which is written as `null`. -/
def optional {α : Type} (write : α → Json) : Option α → Json
  | some value => write value
  | none => null

/-- A natural number. -/
def nat (n : Nat) : Json := integer n

end Json

end TypeConversion
