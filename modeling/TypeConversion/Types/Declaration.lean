import TypeConversion.Types.Expr

/-!
# Declarations

What a registry knows of a class: its kind, type parameters, supertypes, fields, methods and
annotations, each type written as a type expression.
-/

namespace TypeConversion

inductive ClassKind where
  | plain
  | interface
  | enumeration
  | primitive
deriving DecidableEq, Repr, Inhabited

/-- An annotation with the values of its elements. -/
structure Annotation where
  name : String
  elements : List (String × String)
deriving DecidableEq, Repr, Inhabited

namespace Annotation

/-- An annotation without elements. -/
def marker (name : String) : Annotation := ⟨name, []⟩

/-- The value of the first element with the name. -/
def element? (a : Annotation) (name : String) : Option String :=
  a.elements.lookup name

end Annotation

/-- A type variable with its declared bounds; without any it is bounded by the top class. -/
structure TypeParamDef where
  name : String
  upperBounds : List TypeExpr
deriving DecidableEq, Inhabited

structure FieldDef where
  name : String
  type : TypeExpr
  annotations : List Annotation
deriving DecidableEq, Inhabited

structure ParamDef where
  name : String
  type : TypeExpr
  annotations : List Annotation
deriving DecidableEq, Inhabited

/-- A method.  One without a return type returns nothing. -/
structure MethodDef where
  name : String
  typeParams : List TypeVarId
  params : List ParamDef
  returnType : Option TypeExpr
  annotations : List Annotation
deriving DecidableEq, Inhabited

/-- A class.  One of a kind that has superclasses and names none extends the top class. -/
structure ClassDef where
  name : String
  kind : ClassKind := .plain
  typeParams : List TypeVarId := []
  superClass : Option TypeExpr := none
  interfaces : List TypeExpr := []
  fields : List FieldDef := []
  methods : List MethodDef := []
  annotations : List Annotation := []
  enumConstants : List String := []
deriving DecidableEq, Inhabited

namespace ClassDef

/-- The part of the name after the last dot. -/
def simpleName (d : ClassDef) : String :=
  String.ofList (d.name.toList.reverse.takeWhile (· ≠ '.')).reverse

/-- The first field with the name. -/
def field? (d : ClassDef) (name : String) : Option FieldDef :=
  d.fields.find? (·.name = name)

/-- The first method with the name. -/
def method? (d : ClassDef) (name : String) : Option MethodDef :=
  d.methods.find? (·.name = name)

end ClassDef

/-- The classes that the rules of typing and conversion refer to by themselves. -/
structure WellKnown where
  object : ClassId := default
  string : ClassId := default
  charSequence : ClassId := default
  comparable : ClassId := default
  number : ClassId := default
  boolean : ClassId := default
  byte : ClassId := default
  short : ClassId := default
  integer : ClassId := default
  long : ClassId := default
  float : ClassId := default
  double : ClassId := default
  character : ClassId := default
  enumClass : ClassId := default
  cloneable : ClassId := default
  serializable : ClassId := default
  iterable : ClassId := default
  collection : ClassId := default
  list : ClassId := default
  set : ClassId := default
  arrayList : ClassId := default
  hashSet : ClassId := default
  linkedHashSet : ClassId := default
  map : ClassId := default
  hashMap : ClassId := default
  primBoolean : ClassId := default
  primByte : ClassId := default
  primShort : ClassId := default
  primInt : ClassId := default
  primLong : ClassId := default
  primFloat : ClassId := default
  primDouble : ClassId := default
  primChar : ClassId := default
deriving DecidableEq, Repr, Inhabited

namespace WellKnown

/-- Every primitive class with the class that boxes it. -/
def boxes (wk : WellKnown) : List (ClassId × ClassId) :=
  [(wk.primBoolean, wk.boolean), (wk.primByte, wk.byte), (wk.primShort, wk.short),
   (wk.primInt, wk.integer), (wk.primLong, wk.long), (wk.primFloat, wk.float),
   (wk.primDouble, wk.double), (wk.primChar, wk.character)]

end WellKnown

end TypeConversion
