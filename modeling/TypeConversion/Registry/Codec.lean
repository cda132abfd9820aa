import TypeConversion.Json.Printer
import TypeConversion.Json.Reader
import TypeConversion.Json.Record
import TypeConversion.Registry.Basic

/-!
# The JSON form of a registry

A registry is written as one JSON object of its classes, its type variables and its well-known
classes; the name index is left out and built anew when a registry is read.  Class kinds and the
alternatives of type expressions are tagged by their names, numbers of classes and variables are
written bare.

Reading allows what a hand-written file may leave out: lists of a class that are empty apart from
its type parameters and interfaces, absent superclasses, owners and return types.
-/

namespace TypeConversion

open Json (Record asString? asNat? asList? asRecord? enter choice?)

/-- How deep arrays and objects may stand inside each other in a registry file. -/
def registryDepth : Nat := 127

namespace ClassId

def toJson (c : ClassId) : Json := .nat c.index.toNat

def ofJson? (value : Json) : Option ClassId :=
  (asNat? UInt32.size value).map fun n => ⟨n.toUInt32⟩

end ClassId

namespace TypeVarId

def toJson (v : TypeVarId) : Json := .nat v.index.toNat

def ofJson? (value : Json) : Option TypeVarId :=
  (asNat? UInt32.size value).map fun n => ⟨n.toUInt32⟩

end TypeVarId

namespace Erasure

def toJson (e : Erasure) : Json :=
  .object [("class", e.element.toJson), ("dims", .nat e.dims.toNat)]

def ofJson? : Nat → Json → Option Erasure :=
  asRecord? ["class", "dims"] fun _ r => do
    let element ← r.required "class" ClassId.ofJson?
    let dims ← r.required "dims" (asNat? 256)
    return ⟨element, dims.toUInt8⟩

end Erasure

namespace TypeExpr

mutual

def toJson : TypeExpr → Json
  | plain e => .object [("Class", e.toJson)]
  | parameterized raw args owner =>
    .object [("Parameterized",
      .object [("raw", raw.toJson), ("args", .array (toJsonList args)),
        ("owner", toJsonOption owner)])]
  | genericArray component => .object [("GenericArray", toJson component)]
  | wildcard upper lower =>
    .object [("Wildcard",
      .object [("upper_bounds", .array (toJsonList upper)),
        ("lower_bounds", .array (toJsonList lower))])]
  | typeVar v => .object [("Variable", v.toJson)]

def toJsonList : List TypeExpr → List Json
  | [] => []
  | t :: rest => toJson t :: toJsonList rest

def toJsonOption : Option TypeExpr → Json
  | none => .null
  | some t => toJson t

end

mutual

/-- Reads a type expression; every alternative takes one level for its tag. -/
def ofJson? : Nat → Json → Option TypeExpr
  | 0, _ => none
  | depth + 1, value => do
    let (tag, content) ← choice? value
    if tag = "Class" then (Erasure.ofJson? depth content).map plain
    else if tag = "Parameterized" then parameterizedOfJson? depth content
    else if tag = "GenericArray" then (ofJson? depth content).map genericArray
    else if tag = "Wildcard" then wildcardOfJson? depth content
    else if tag = "Variable" then (TypeVarId.ofJson? content).map typeVar
    else none

/-- Reads a parameterized type without its tag. -/
def parameterizedOfJson? : Nat → Json → Option TypeExpr
  | 0, _ => none
  | depth + 1, value => do
    let r ← Json.record? ["raw", "args", "owner"] value
    let raw ← r.required "raw" ClassId.ofJson?
    let args ← r.required "args" (listOfJson? depth)
    let owner ← r.nullable "owner" (ofJson? depth)
    return parameterized raw args owner

/-- Reads a wildcard without its tag. -/
def wildcardOfJson? : Nat → Json → Option TypeExpr
  | 0, _ => none
  | depth + 1, value => do
    let r ← Json.record? ["upper_bounds", "lower_bounds"] value
    let upper ← r.required "upper_bounds" (listOfJson? depth)
    let lower ← r.required "lower_bounds" (listOfJson? depth)
    return wildcard upper lower

/-- Reads a list of type expressions. -/
def listOfJson? : Nat → Json → Option (List TypeExpr)
  | depth + 1, .array elements => elements.mapM (ofJson? depth)
  | _, _ => none

end

end TypeExpr

namespace ClassKind

def tag : ClassKind → String
  | plain => "Class"
  | interface => "Interface"
  | enumeration => "Enum"
  | primitive => "Primitive"

def ofTag? (tag : String) : Option ClassKind :=
  [plain, interface, enumeration, primitive].find? (·.tag = tag)

/-- Reads a kind: its tag as a string, or as the key of an object that holds `null`. -/
def ofJson? (depth : Nat) : Json → Option ClassKind
  | .string tag => ofTag? tag
  | .object [(tag, .null)] => (enter depth).bind fun _ => ofTag? tag
  | _ => none

end ClassKind

namespace Annotation

def toJson (a : Annotation) : Json :=
  .object [("name", .string a.name),
    ("elements", .list (fun (key, value) => .array [.string key, .string value]) a.elements)]

/-- Reads a key and a value. -/
def elementOfJson? (depth : Nat) : Json → Option (String × String)
  | .array [key, value] => do
    let _ ← enter depth
    return (← asString? key, ← asString? value)
  | _ => none

def ofJson? : Nat → Json → Option Annotation :=
  asRecord? ["name", "elements"] fun depth r => do
    let name ← r.required "name" asString?
    let elements ← r.required "elements" (asList? elementOfJson? depth)
    return ⟨name, elements⟩

end Annotation

/-- The annotations of a declaration, which may be left out. -/
def annotationsOf? (depth : Nat) (r : Record) : Option (List Annotation) :=
  r.withDefault "annotations" [] (asList? Annotation.ofJson? depth)

namespace TypeParamDef

def toJson (d : TypeParamDef) : Json :=
  .object [("name", .string d.name), ("upper_bounds", .list TypeExpr.toJson d.upperBounds)]

def ofJson? : Nat → Json → Option TypeParamDef :=
  asRecord? ["name", "upper_bounds"] fun depth r => do
    let name ← r.required "name" asString?
    let bounds ← r.required "upper_bounds" (asList? TypeExpr.ofJson? depth)
    return ⟨name, bounds⟩

end TypeParamDef

namespace FieldDef

def toJson (d : FieldDef) : Json :=
  .object [("name", .string d.name), ("ty", d.type.toJson),
    ("annotations", .list Annotation.toJson d.annotations)]

def ofJson? : Nat → Json → Option FieldDef :=
  asRecord? ["name", "ty", "annotations"] fun depth r => do
    let name ← r.required "name" asString?
    let type ← r.required "ty" (TypeExpr.ofJson? depth)
    let annotations ← annotationsOf? depth r
    return ⟨name, type, annotations⟩

end FieldDef

namespace ParamDef

def toJson (d : ParamDef) : Json :=
  .object [("name", .string d.name), ("ty", d.type.toJson),
    ("annotations", .list Annotation.toJson d.annotations)]

def ofJson? : Nat → Json → Option ParamDef :=
  asRecord? ["name", "ty", "annotations"] fun depth r => do
    let name ← r.required "name" asString?
    let type ← r.required "ty" (TypeExpr.ofJson? depth)
    let annotations ← annotationsOf? depth r
    return ⟨name, type, annotations⟩

end ParamDef

/-- A list of type variables. -/
def varsOfJson? (depth : Nat) (value : Json) : Option (List TypeVarId) :=
  asList? (fun _ => TypeVarId.ofJson?) depth value

namespace MethodDef

def toJson (d : MethodDef) : Json :=
  .object [("name", .string d.name), ("type_params", .list TypeVarId.toJson d.typeParams),
    ("params", .list ParamDef.toJson d.params),
    ("return_type", .optional TypeExpr.toJson d.returnType),
    ("annotations", .list Annotation.toJson d.annotations)]

def ofJson? : Nat → Json → Option MethodDef :=
  asRecord? ["name", "type_params", "params", "return_type", "annotations"] fun depth r => do
    let name ← r.required "name" asString?
    let typeParams ← r.withDefault "type_params" [] (varsOfJson? depth)
    let params ← r.required "params" (asList? ParamDef.ofJson? depth)
    let returnType ← r.nullable "return_type" (TypeExpr.ofJson? depth)
    let annotations ← annotationsOf? depth r
    return ⟨name, typeParams, params, returnType, annotations⟩

end MethodDef

namespace ClassDef

def toJson (d : ClassDef) : Json :=
  .object [("name", .string d.name), ("kind", .string d.kind.tag),
    ("type_params", .list TypeVarId.toJson d.typeParams),
    ("super_class", .optional TypeExpr.toJson d.superClass),
    ("interfaces", .list TypeExpr.toJson d.interfaces),
    ("fields", .list FieldDef.toJson d.fields),
    ("methods", .list MethodDef.toJson d.methods),
    ("annotations", .list Annotation.toJson d.annotations),
    ("enum_constants", .list .string d.enumConstants)]

def ofJson? : Nat → Json → Option ClassDef :=
  asRecord? ["name", "kind", "type_params", "super_class", "interfaces", "fields", "methods",
      "annotations", "enum_constants"] fun depth r => do
    let name ← r.required "name" asString?
    let kind ← r.required "kind" (ClassKind.ofJson? depth)
    let typeParams ← r.required "type_params" (varsOfJson? depth)
    let superClass ← r.nullable "super_class" (TypeExpr.ofJson? depth)
    let interfaces ← r.required "interfaces" (asList? TypeExpr.ofJson? depth)
    let fields ← r.withDefault "fields" [] (asList? FieldDef.ofJson? depth)
    let methods ← r.withDefault "methods" [] (asList? MethodDef.ofJson? depth)
    let annotations ← annotationsOf? depth r
    let enumConstants ← r.withDefault "enum_constants" [] (asList? (fun _ => asString?) depth)
    return {
      name, kind, typeParams, superClass, interfaces, fields, methods, annotations, enumConstants }

end ClassDef

/-- The well-known classes from a list in the order in which they are written. -/
def wellKnownOfList? : List ClassId → Option WellKnown
  | object :: string :: charSequence :: comparable :: number :: boolean :: byte :: short
      :: integer :: long :: float :: double :: character :: enumClass :: cloneable
      :: serializable :: iterable :: collection :: list :: set :: arrayList :: hashSet
      :: linkedHashSet :: map :: hashMap :: primBoolean :: primByte :: primShort :: primInt
      :: primLong :: primFloat :: primDouble :: primChar :: [] =>
    some {
      object, string, charSequence, comparable, number, boolean, byte, short, integer, long, float,
      double, character, enumClass, cloneable, serializable, iterable, collection, list, set,
      arrayList, hashSet, linkedHashSet, map, hashMap, primBoolean, primByte, primShort, primInt,
      primLong, primFloat, primDouble, primChar }
  | _ => none

namespace WellKnown

/-- The names of the well-known classes, in the order in which they are written. -/
def names : List String :=
  ["object", "string", "char_sequence", "comparable", "number", "boolean", "byte", "short",
   "integer", "long", "float", "double", "character", "enum_", "cloneable", "serializable",
   "iterable", "collection", "list", "set", "array_list", "hash_set", "linked_hash_set", "map",
   "hash_map", "prim_boolean", "prim_byte", "prim_short", "prim_int", "prim_long", "prim_float",
   "prim_double", "prim_char"]

/-- The well-known classes, in the order in which they are written. -/
def toList (wk : WellKnown) : List ClassId :=
  [wk.object, wk.string, wk.charSequence, wk.comparable, wk.number, wk.boolean, wk.byte, wk.short,
   wk.integer, wk.long, wk.float, wk.double, wk.character, wk.enumClass, wk.cloneable,
   wk.serializable, wk.iterable, wk.collection, wk.list, wk.set, wk.arrayList, wk.hashSet,
   wk.linkedHashSet, wk.map, wk.hashMap, wk.primBoolean, wk.primByte, wk.primShort, wk.primInt,
   wk.primLong, wk.primFloat, wk.primDouble, wk.primChar]

theorem wellKnownOfList?_toList (wk : WellKnown) : wellKnownOfList? wk.toList = some wk := rfl

def toJson (wk : WellKnown) : Json :=
  .object (names.zip (wk.toList.map ClassId.toJson))

def ofJson? : Nat → Json → Option WellKnown :=
  asRecord? names fun _ r => do
    let ids ← names.mapM fun name => r.required name ClassId.ofJson?
    wellKnownOfList? ids

end WellKnown

namespace Registry

def toJson (r : Registry) : Json :=
  .object [("classes", .list ClassDef.toJson r.classes.toList),
    ("type_params", .list TypeParamDef.toJson r.typeParams.toList),
    ("well_known", r.wellKnown.toJson)]

/-- The text of a registry. -/
def toText (r : Registry) : String := r.toJson.text

def ofJson? : Nat → Json → Option Registry :=
  asRecord? ["classes", "type_params", "well_known"] fun depth r => do
    let classes ← r.required "classes" (asList? ClassDef.ofJson? depth)
    let typeParams ← r.required "type_params" (asList? TypeParamDef.ofJson? depth)
    let wellKnown ← r.required "well_known" (WellKnown.ofJson? depth)
    return reindex ⟨classes.toArray, typeParams.toArray, .empty, wellKnown⟩

/-- Reads the text of a registry. -/
def ofText? (text : String) : Option Registry :=
  (Json.parse text).bind (ofJson? registryDepth)

end Registry

end TypeConversion
