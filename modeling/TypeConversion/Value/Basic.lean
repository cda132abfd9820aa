import TypeConversion.Number.Binary
import TypeConversion.Registry.Basic

/-!
# Values

The values that are converted.  Null is no value: it is the absence of one, and the elements of
arrays and collections may be null.

Two values are equal when they have the same shape and equal parts.  Floating-point numbers compare
as numbers, so that a NaN equals nothing; host objects compare by identity.
-/

namespace TypeConversion

/-- What a host object holds. -/
inductive Payload where
  | text (text : String)
  | number (value : Int)
deriving DecidableEq, Repr, Inhabited

/-- An object of the host program, known by its identity. -/
structure HostObject where
  identity : Nat
  payload : Payload
deriving Repr, Inhabited

/-- A value. -/
inductive Value where
  | boolean (value : Bool)
  | byte (value : Int8)
  | short (value : Int16)
  | int (value : Int32)
  | long (value : Int64)
  | float (value : Binary32)
  | double (value : Binary64)
  | char (value : Char)
  | string (text : String)
  | enumConstant (enumClass : ClassId) (name : String)
  /-- An array with the erasure that its elements are declared with. -/
  | array (component : Erasure) (elements : List (Option Value))
  /-- A collection of a concrete class. -/
  | collection (class_ : ClassId) (elements : List (Option Value))
  | object (class_ : ClassId) (host : HostObject)

namespace Value

mutual

/-- Equality of values. -/
def equals : Value → Value → Bool
  | boolean a, boolean b => a = b
  | byte a, byte b => a = b
  | short a, short b => a = b
  | int a, int b => a = b
  | long a, long b => a = b
  | float a, float b => a.equals b
  | double a, double b => a.equals b
  | char a, char b => a = b
  | string a, string b => a = b
  | enumConstant c a, enumConstant c' b => c = c' && a = b
  | array c as, array c' bs => c = c' && equalsElements as bs
  | collection c as, collection c' bs => c = c' && equalsElements as bs
  | object c a, object c' b => c = c' && a.identity = b.identity
  | _, _ => false

/-- Equality of lists of elements. -/
def equalsElements : List (Option Value) → List (Option Value) → Bool
  | [], [] => true
  | a :: as, b :: bs => equalsOption a b && equalsElements as bs
  | _, _ => false

/-- Equality of values that may be null. -/
def equalsOption : Option Value → Option Value → Bool
  | none, none => true
  | some a, some b => equals a b
  | _, _ => false

end

/-- The run-time type of a value.  Scalars are of the classes that box them. -/
def erasure (r : Registry) : Value → Erasure
  | boolean _ => .ofClass r.wellKnown.boolean
  | byte _ => .ofClass r.wellKnown.byte
  | short _ => .ofClass r.wellKnown.short
  | int _ => .ofClass r.wellKnown.integer
  | long _ => .ofClass r.wellKnown.long
  | float _ => .ofClass r.wellKnown.float
  | double _ => .ofClass r.wellKnown.double
  | char _ => .ofClass r.wellKnown.character
  | string _ => .ofClass r.wellKnown.string
  | enumConstant c _ => .ofClass c
  | array component _ => component.array
  | collection c _ => .ofClass c
  | object c _ => .ofClass c

/-- The text of a string value. -/
def asText? : Value → Option String
  | string text => some text
  | _ => none

/-- The elements of an array or a collection. -/
def elements? : Value → Option (List (Option Value))
  | array _ elements => some elements
  | collection _ elements => some elements
  | _ => none

/-- The name of the shape of a value, which messages mention. -/
def kind : Value → String
  | boolean _ => "boolean"
  | byte _ => "byte"
  | short _ => "short"
  | int _ => "int"
  | long _ => "long"
  | float _ => "float"
  | double _ => "double"
  | char _ => "char"
  | string _ => "string"
  | enumConstant .. => "enum"
  | array .. => "array"
  | collection .. => "collection"
  | object .. => "object"

end Value

end TypeConversion
