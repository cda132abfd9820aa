import TypeConversion.Registry.Basic

/-!
# The bootstrap registry

The classes that every ordinary registry starts with: the primitives and their boxes, strings, the
top class, enums, and the core collections.  Their numbers are fixed, so that other modules can
speak of them.
-/

namespace TypeConversion

namespace Bootstrap

/-- The well-known classes, by their numbers in the bootstrap registry. -/
def wellKnown : WellKnown where
  primBoolean := ⟨0⟩
  primByte := ⟨1⟩
  primShort := ⟨2⟩
  primInt := ⟨3⟩
  primLong := ⟨4⟩
  primFloat := ⟨5⟩
  primDouble := ⟨6⟩
  primChar := ⟨7⟩
  object := ⟨8⟩
  serializable := ⟨9⟩
  cloneable := ⟨10⟩
  comparable := ⟨11⟩
  charSequence := ⟨12⟩
  string := ⟨13⟩
  number := ⟨14⟩
  boolean := ⟨15⟩
  byte := ⟨16⟩
  short := ⟨17⟩
  integer := ⟨18⟩
  long := ⟨19⟩
  float := ⟨20⟩
  double := ⟨21⟩
  character := ⟨22⟩
  enumClass := ⟨23⟩
  iterable := ⟨24⟩
  collection := ⟨25⟩
  list := ⟨26⟩
  set := ⟨27⟩
  arrayList := ⟨30⟩
  hashSet := ⟨32⟩
  linkedHashSet := ⟨33⟩
  map := ⟨34⟩
  hashMap := ⟨36⟩

/-- The abstract collection classes between the interfaces and the concrete classes. -/
def abstractCollection : ClassId := ⟨28⟩
def abstractList : ClassId := ⟨29⟩
def abstractSet : ClassId := ⟨31⟩
def abstractMap : ClassId := ⟨35⟩

/-- A class applied to type variables. -/
private def applied (c : ClassId) (vars : List TypeVarId) : TypeExpr :=
  .parameterized c (vars.map .typeVar) none

/-- A class applied to a class. -/
private def of (c arg : ClassId) : TypeExpr :=
  .parameterized c [.ofClass arg] none

private def primitive (name : String) : ClassDef :=
  { name := name, kind := .primitive }

private def interface (name : String) (params : List TypeVarId) (interfaces : List TypeExpr) :
    ClassDef :=
  { name := name, kind := .interface, typeParams := params, interfaces := interfaces }

private def concrete (name : String) (params : List TypeVarId) (superClass : Option TypeExpr)
    (interfaces : List TypeExpr) : ClassDef :=
  { name := name, typeParams := params, superClass := superClass, interfaces := interfaces }

/-- The box of a number: it extends the class of numbers and compares with itself. -/
private def numberBox (name : String) (self : ClassId) : ClassDef :=
  concrete name [] (some (.ofClass wellKnown.number)) [of wellKnown.comparable self]

private def serializable : TypeExpr := .ofClass wellKnown.serializable
private def cloneable : TypeExpr := .ofClass wellKnown.cloneable

/-- The declarations of all bootstrap classes, each at the place of its number. -/
def classes : List ClassDef :=
  let wk := wellKnown
  [primitive "boolean", primitive "byte", primitive "short", primitive "int", primitive "long",
   primitive "float", primitive "double", primitive "char",
   concrete "java.lang.Object" [] none [],
   interface "java.io.Serializable" [] [],
   interface "java.lang.Cloneable" [] [],
   interface "java.lang.Comparable" [⟨0⟩] [],
   interface "java.lang.CharSequence" [] [],
   concrete "java.lang.String" [] none
    [serializable, of wk.comparable wk.string, .ofClass wk.charSequence],
   concrete "java.lang.Number" [] none [serializable],
   concrete "java.lang.Boolean" [] none [serializable, of wk.comparable wk.boolean],
   numberBox "java.lang.Byte" wk.byte,
   numberBox "java.lang.Short" wk.short,
   numberBox "java.lang.Integer" wk.integer,
   numberBox "java.lang.Long" wk.long,
   numberBox "java.lang.Float" wk.float,
   numberBox "java.lang.Double" wk.double,
   concrete "java.lang.Character" [] none [serializable, of wk.comparable wk.character],
   concrete "java.lang.Enum" [⟨1⟩] none [applied wk.comparable [⟨1⟩], serializable],
   interface "java.lang.Iterable" [⟨2⟩] [],
   interface "java.util.Collection" [⟨3⟩] [applied wk.iterable [⟨3⟩]],
   interface "java.util.List" [⟨4⟩] [applied wk.collection [⟨4⟩]],
   interface "java.util.Set" [⟨5⟩] [applied wk.collection [⟨5⟩]],
   concrete "java.util.AbstractCollection" [⟨6⟩] none [applied wk.collection [⟨6⟩]],
   concrete "java.util.AbstractList" [⟨7⟩] (some (applied abstractCollection [⟨7⟩]))
    [applied wk.list [⟨7⟩]],
   concrete "java.util.ArrayList" [⟨8⟩] (some (applied abstractList [⟨8⟩]))
    [applied wk.list [⟨8⟩], cloneable, serializable],
   concrete "java.util.AbstractSet" [⟨9⟩] (some (applied abstractCollection [⟨9⟩]))
    [applied wk.set [⟨9⟩]],
   concrete "java.util.HashSet" [⟨10⟩] (some (applied abstractSet [⟨10⟩]))
    [applied wk.set [⟨10⟩], cloneable, serializable],
   concrete "java.util.LinkedHashSet" [⟨11⟩] (some (applied wk.hashSet [⟨11⟩]))
    [applied wk.set [⟨11⟩]],
   interface "java.util.Map" [⟨12⟩, ⟨13⟩] [],
   concrete "java.util.AbstractMap" [⟨14⟩, ⟨15⟩] none [applied wk.map [⟨14⟩, ⟨15⟩]],
   concrete "java.util.HashMap" [⟨16⟩, ⟨17⟩] (some (applied abstractMap [⟨16⟩, ⟨17⟩]))
    [applied wk.map [⟨16⟩, ⟨17⟩], cloneable, serializable]]

/-- The type variables of the bootstrap classes.  That of enums is bounded by enums of itself. -/
def typeParams : List TypeParamDef :=
  [⟨"T", []⟩, ⟨"E", [applied wellKnown.enumClass [⟨1⟩]]⟩, ⟨"T", []⟩, ⟨"E", []⟩, ⟨"E", []⟩,
   ⟨"E", []⟩, ⟨"E", []⟩, ⟨"E", []⟩, ⟨"E", []⟩, ⟨"E", []⟩, ⟨"E", []⟩, ⟨"E", []⟩,
   ⟨"K", []⟩, ⟨"V", []⟩, ⟨"K", []⟩, ⟨"V", []⟩, ⟨"K", []⟩, ⟨"V", []⟩]

end Bootstrap

/-- The registry of the bootstrap classes. -/
def Registry.bootstrap : Registry :=
  Registry.reindex
    { classes := Bootstrap.classes.toArray
      typeParams := Bootstrap.typeParams.toArray
      index := .empty
      wellKnown := Bootstrap.wellKnown }

end TypeConversion
