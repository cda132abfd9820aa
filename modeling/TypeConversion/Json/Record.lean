import TypeConversion.Json.Basic

/-!
# Records in JSON

How typed records are read from JSON values.  A record is an object with its fields as members, of
which unknown ones are ignored and known ones stand at most once, or an array of its fields in
order.  A choice is an object whose only key names the alternative.

Reading is bounded in depth: every array and every object that is entered takes one level away.
Only what is read counts; ignored members may be as deep as they like.
-/

namespace TypeConversion

namespace Json

mutual

/-- How many arrays and objects stand inside each other. -/
def nesting : Json → Nat
  | array elements => nestingElements elements + 1
  | object members => nestingMembers members + 1
  | _ => 0

def nestingElements : List Json → Nat
  | [] => 0
  | element :: rest => max (nesting element) (nestingElements rest)

def nestingMembers : List (String × Json) → Nat
  | [] => 0
  | (_, value) :: rest => max (nesting value) (nestingMembers rest)

end

mutual

/-- The value in which every object keeps only the last member of each key. -/
def lastMembers : Json → Json
  | array elements => array (lastMembersElements elements)
  | object members => object (lastMembersMembers members)
  | value => value

def lastMembersElements : List Json → List Json
  | [] => []
  | element :: rest => lastMembers element :: lastMembersElements rest

def lastMembersMembers : List (String × Json) → List (String × Json)
  | [] => []
  | (key, value) :: rest =>
    if rest.any (·.1 = key) then lastMembersMembers rest
    else (key, lastMembers value) :: lastMembersMembers rest

end

/-- Levels of depth that are left, one level further in. -/
def enter : Nat → Option Nat
  | 0 => none
  | depth + 1 => some depth

/-- The fields of a record as they were found. -/
structure Record where
  /-- Whether the record was written as an array. -/
  positional : Bool
  fields : List (String × Json)

/-- The record of a value, given the names of its fields in order. -/
def record? (names : List String) : Json → Option Record
  | object members =>
    let known := members.filter fun (key, _) => names.contains key
    if (known.map (·.1)).eraseDups.length = known.length then some ⟨false, known⟩ else none
  | array elements =>
    if elements.length ≤ names.length then some ⟨true, names.zip elements⟩ else none
  | _ => none

namespace Record

/-- A field that has to be there. -/
def required {α : Type} (r : Record) (name : String) (read : Json → Option α) : Option α :=
  (r.fields.lookup name).bind read

/-- A field that may be left out for a default. -/
def withDefault {α : Type} (r : Record) (name : String) (default : α) (read : Json → Option α) :
    Option α :=
  match r.fields.lookup name with
  | some value => read value
  | none => some default

/-- A field that may be `null`, or left out where fields have names. -/
def nullable {α : Type} (r : Record) (name : String) (read : Json → Option α) :
    Option (Option α) :=
  match r.fields.lookup name with
  | some null => some none
  | some value => (read value).map some
  | none => if r.positional then none else some none

end Record

/-- A string that stands for a text. -/
def asString? : Json → Option String
  | string text => some text
  | _ => none

/-- A natural number below a bound. -/
def asNat? (bound : Nat) : Json → Option Nat
  | integer n => if 0 ≤ n ∧ n < bound then some n.toNat else none
  | _ => none

/-- The elements of an array, each read by a function. -/
def asList? {α : Type} (read : Nat → Json → Option α) (depth : Nat) : Json → Option (List α)
  | array elements => do
    let depth ← enter depth
    elements.mapM (read depth)
  | _ => none

/-- A record, read by a function on its fields. -/
def asRecord? {α : Type} (names : List String) (read : Nat → Record → Option α) (depth : Nat)
    (value : Json) : Option α := do
  let r ← record? names value
  let depth ← enter depth
  read depth r

/-- The key and the content of a choice. -/
def choice? : Json → Option (String × Json)
  | object [(key, content)] => some (key, content)
  | _ => none

end Json

end TypeConversion
