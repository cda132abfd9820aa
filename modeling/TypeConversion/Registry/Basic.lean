import TypeConversion.Number.Integer
import TypeConversion.Types.Declaration
import TypeConversion.Registry.NameIndex

/-!
# The registry of classes

A registry holds every class and type variable that types can mention, numbered in the order in
which they were entered, and an index from names to classes.

A name may be entered before its class is declared, so that declarations can refer to each other;
until then the name stands for an empty class.  A registry is a value: changing it gives a new one,
and whoever holds the old one keeps it as it was.
-/

namespace TypeConversion

/-- The classes and type variables that types refer to. -/
structure Registry where
  classes : Array ClassDef
  typeParams : Array TypeParamDef
  index : NameIndex
  wellKnown : WellKnown
deriving Inhabited

/-- The number of a class as inner texts show it. -/
def ClassId.innerText (c : ClassId) : String := "ClassId(" ++ natText c.index.toNat ++ ")"

/-- The package that a name without dots belongs to when there is no class of just that name. -/
def implicitPackage : String := "java.lang."

namespace Registry

/-- A registry without classes, in which all well-known classes have the number zero. -/
def empty : Registry := ⟨#[], #[], .empty, {}⟩

/-- The declaration of a class. -/
def class? (r : Registry) (c : ClassId) : Option ClassDef :=
  r.classes[c.index.toNat]?

/-- The declaration of a type variable. -/
def typeParam? (r : Registry) (v : TypeVarId) : Option TypeParamDef :=
  r.typeParams[v.index.toNat]?

/-- The class of a name, which may leave out the implicit package. -/
def lookup? (r : Registry) (name : String) : Option ClassId :=
  match r.index.find? name with
  | some c => some c
  | none =>
    if name.toList.contains '.' then none else r.index.find? (implicitPackage ++ name)

/-- The type parameters of a class; an unknown class has none. -/
def typeParameters (r : Registry) (c : ClassId) : List TypeVarId :=
  (r.class? c).elim [] (·.typeParams)

def field? (r : Registry) (c : ClassId) (name : String) : Option FieldDef :=
  (r.class? c).bind (·.field? name)

def method? (r : Registry) (c : ClassId) (name : String) : Option MethodDef :=
  (r.class? c).bind (·.method? name)

/-- The number the next new class gets. -/
def nextClass (r : Registry) : ClassId := ⟨r.classes.size.toUInt32⟩

/-- The number the next new type variable gets. -/
def nextTypeVar (r : Registry) : TypeVarId := ⟨r.typeParams.size.toUInt32⟩

/-- Enters a new class under its name. -/
def push (r : Registry) (d : ClassDef) : Registry :=
  { r with classes := r.classes.push d, index := r.index.insert d.name r.nextClass }

/-- The class of exactly this name, entered as an empty class if it is new. -/
def intern (r : Registry) (name : String) : Registry × ClassId :=
  match r.index.find? name with
  | some c => (r, c)
  | none => (r.push { name := name }, r.nextClass)

/-- Replaces the declaration of a class, and its name in the index; an unknown number is ignored. -/
def define (r : Registry) (c : ClassId) (d : ClassDef) : Registry :=
  match r.class? c with
  | none => r
  | some old =>
    { r with
      classes := r.classes.setIfInBounds c.index.toNat d
      index := if old.name = d.name then r.index else (r.index.erase old.name).insert d.name c }

/-- Declares a class under its name: anew, or in place of the class that has the name. -/
def add (r : Registry) (d : ClassDef) : Registry × ClassId :=
  match r.index.find? d.name with
  | some c => (r.define c d, c)
  | none => (r.push d, r.nextClass)

/-- Enters a new type variable. -/
def addTypeParam (r : Registry) (d : TypeParamDef) : Registry × TypeVarId :=
  ({ r with typeParams := r.typeParams.push d }, r.nextTypeVar)

/-- Replaces a type variable; an unknown number is ignored. -/
def defineTypeParam (r : Registry) (v : TypeVarId) (d : TypeParamDef) : Registry :=
  { r with typeParams := r.typeParams.setIfInBounds v.index.toNat d }

/-- Gives a class its type parameters before the rest of its declaration is known. -/
def setTypeParameters (r : Registry) (c : ClassId) (params : List TypeVarId) : Registry :=
  { r with classes := r.classes.modify c.index.toNat fun d => { d with typeParams := params } }

/-- All classes with their numbers. -/
def numbered (r : Registry) : List (ClassId × ClassDef) :=
  r.classes.toList.zipIdx.map fun (d, i) => (⟨i.toUInt32⟩, d)

/-- Builds the index anew from the names of the classes; of equal names the last class counts. -/
def reindex (r : Registry) : Registry :=
  { r with index := r.numbered.foldl (fun index (c, d) => index.insert d.name c) .empty }

/-- The name of a class as messages about members show it; one without a class shows its number. -/
def memberOwnerName (r : Registry) (c : ClassId) : String :=
  (r.class? c).elim c.innerText (·.name)

/-- The name of an erasure: that of its class with a pair of brackets for each dimension. -/
def erasureName (r : Registry) (e : Erasure) : String :=
  (r.class? e.element).elim "<unknown>" (·.name) ++ String.join (List.replicate e.dims.toNat "[]")

/-- Takes the pairs of brackets off the front of a reversed name and counts them. -/
def countDims : Nat → List Char → Nat × List Char
  | count, ']' :: '[' :: rest => countDims (count + 1) rest
  | count, rest => (count, rest)

/-- The erasure with a name: that of a class, and a pair of brackets for each dimension. -/
def erasureNamed? (r : Registry) (name : String) : Option Erasure := do
  let (dims, rest) := countDims 0 name.toList.reverse
  let c ← r.lookup? (String.ofList rest.reverse)
  if dims < 256 then some ⟨c, dims.toUInt8⟩ else none

/-- Whether an erasure is a class of the kind, and no array. -/
def hasKind (r : Registry) (kind : ClassKind) (e : Erasure) : Bool :=
  !e.isArray && (r.class? e.element).any (·.kind = kind)

def isPrimitive (r : Registry) (e : Erasure) : Bool := r.hasKind .primitive e

def isInterface (r : Registry) (e : Erasure) : Bool := r.hasKind .interface e

def isEnum (r : Registry) (e : Erasure) : Bool := r.hasKind .enumeration e

/-- The class that boxes a primitive one; anything else is its own box. -/
def boxed (r : Registry) (e : Erasure) : Erasure :=
  match e.asClass?.bind fun c => r.wellKnown.boxes.lookup c with
  | some box => .ofClass box
  | none => e

/-- The primitive class that a class boxes. -/
def unboxed? (r : Registry) (e : Erasure) : Option Erasure := do
  let c ← e.asClass?
  let (primitive, _) ← r.wellKnown.boxes.find? (·.2 = c)
  return .ofClass primitive

/-- The top class. -/
def object (r : Registry) : Erasure := .ofClass r.wellKnown.object

end Registry

end TypeConversion
