import TypeConversion.Node.Text
import TypeConversion.Node.Assignable
import TypeConversion.Node.Site
import TypeConversion.Value.Basic

/-!
# Type descriptors

A descriptor is what a conversion knows of a type: a node, the erasure taken for it, and the
annotations of the place where it was declared.  It belongs to the registry it was made with.

Descriptors of elements and of nested types keep the annotations of the outer type.
-/

namespace TypeConversion

/-- A type as the source or the target of a conversion. -/
structure TypeDescriptor where
  registry : Registry
  node : Option Node
  erasure : Erasure
  annotations : List Annotation

namespace TypeDescriptor

/-- A descriptor of a node.  Without an erasure it takes that of the node, or else the top class. -/
def make (limit : Nat) (r : Registry) (node : Option Node) (erasure : Option Erasure)
    (annotations : List Annotation) : Walk TypeDescriptor :=
  match erasure with
  | some e => some ⟨r, node, e, annotations⟩
  | none => do
    let e := (← Node.resolveOption r limit node).getD r.object
    return ⟨r, node, e, annotations⟩

/-- The descriptor of a node without annotations. -/
def ofNode (limit : Nat) (r : Registry) (node : Option Node) : Walk TypeDescriptor :=
  make limit r node none []

/-- The descriptor of an erasure, with the annotations of its class unless it is an array. -/
def ofErasure (r : Registry) (e : Erasure) : TypeDescriptor :=
  ⟨r, some (.ofErasure e), e, ((e.asClass?.bind r.class?).elim [] (·.annotations))⟩

/-- The descriptor of the run-time type of a value. -/
def ofValue (r : Registry) (value : Value) : TypeDescriptor :=
  ofErasure r (value.erasure r)

/-- A descriptor of a declared type: a node without an erasure takes that of its declaration. -/
def ofDeclared (limit : Nat) (r : Registry) (node : Option Node) (declared : Option TypeExpr)
    (annotations : List Annotation) : Walk TypeDescriptor := do
  let e ← Node.resolveOption r limit node
  make limit r node (e.or (declared.bind r.rawErasure)) annotations

/-- The descriptor of a field. -/
def ofField (limit : Nat) (r : Registry) (c : ClassId) (name : String) :
    Walk (Except TypeError TypeDescriptor) :=
  match r.fieldDeclaration c name with
  | .error e => some (.error e)
  | .ok d => do
    return .ok (← ofDeclared limit r (some (.ofExpr d.type)) (some d.type) d.annotations)

/-- The descriptor of a field as it is seen from a subclass of the class that declares it. -/
def ofFieldIn (limit : Nat) (r : Registry) (declaring : ClassId) (name : String)
    (implementation : ClassId) : Walk (Except TypeError TypeDescriptor) :=
  match r.fieldDeclaration declaring name with
  | .error e => some (.error e)
  | .ok d => do
    let node ← Node.seenFrom r limit declaring implementation d.type
    return .ok (← ofDeclared limit r (some node) (some d.type) d.annotations)

/-- The descriptor of a method parameter; only at the top level does its declared type count. -/
def ofMethodParameter (limit : Nat) (r : Registry) (p : MethodParameter) :
    Walk (Except TypeError TypeDescriptor) := do
  match ← Node.ofMethodParameter r limit p with
  | .error e => return .error e
  | .ok node =>
    match p.annotations r, p.declaredType r with
    | .error e, _ => return .error e
    | _, .error e => return .error e
    | .ok annotations, .ok declared =>
      let declared := if p.level = 1 then declared else none
      return .ok (← ofDeclared limit r node declared annotations)

/-- The erasure with primitives boxed. -/
def objectErasure (d : TypeDescriptor) : Erasure := d.registry.boxed d.erasure

/-- The first annotation with the name. -/
def annotationNamed? (d : TypeDescriptor) (name : String) : Option Annotation :=
  d.annotations.find? (·.name = name)

def isAnnotated (d : TypeDescriptor) (name : String) : Bool := (d.annotationNamed? name).isSome

def isArray (d : TypeDescriptor) : Bool := d.erasure.isArray

def isPrimitive (d : TypeDescriptor) : Bool := d.registry.isPrimitive d.erasure

def isCollection (d : TypeDescriptor) : Bool :=
  d.registry.isSubclass (.ofClass d.registry.wellKnown.collection) d.erasure

def isMap (d : TypeDescriptor) : Bool :=
  d.registry.isSubclass (.ofClass d.registry.wellKnown.map) d.erasure

/-- Whether the type of the descriptor stands for something definite. -/
def isDefinite (limit : Nat) (d : TypeDescriptor) : Walk Bool := do
  return (← Node.resolveOption d.registry limit d.node).isSome

/-- The array component of an optional node. -/
def componentNode (limit : Nat) (r : Registry) : Option Node → Walk (Option Node)
  | none => some none
  | some n => Node.componentType r limit n

/-- The descriptor of the elements of an array or a collection; nothing else has elements. -/
def element? (limit : Nat) (d : TypeDescriptor) : Walk (Option TypeDescriptor) := do
  let r := d.registry
  if d.isArray then
    let component ← componentNode limit r d.node
    let e ← Node.resolveOption r limit component
    return some (← make limit r component (e.or d.erasure.component?) d.annotations)
  else if d.isCollection then
    let view ← Node.asClass r limit d.node r.wellKnown.collection
    let argument ← Node.getGeneric r limit [] view
    return some (← make limit r argument none d.annotations)
  else return none

/-- A node a number of levels down; the top class stays what it is. -/
def nestedNode (limit : Nat) (r : Registry) : Nat → Option Node → Walk (Option Node)
  | 0, n => some n
  | levels + 1, n => do
    if (← Node.resolveOption r limit n) = some r.object then nestedNode limit r levels n
    else nestedNode limit r levels (← Node.nested r limit 2 (fun _ => none) n)

/-- The descriptor a number of levels down, unless nothing definite is there. -/
def nested? (limit : Nat) (levels : Nat) (d : TypeDescriptor) : Walk (Option TypeDescriptor) := do
  let n ← nestedNode limit d.registry levels d.node
  match ← Node.resolveOption d.registry limit n with
  | none => return none
  | some _ => return some (← make limit d.registry n none d.annotations)

/-- Whether a value is there and of the type. -/
def isInstance (limit : Nat) (d : TypeDescriptor) : Option Value → Walk Bool
  | none => some false
  | some value => Node.isAssignableFromErasure limit d.registry d.node (value.erasure d.registry)

/--
Whether a value of the type may be used where the target is expected.  A target that stands for
nothing definite takes anything; elements have to be assignable as well, unless they stand for
nothing definite.
-/
def isAssignableTo (limit : Nat) : Nat → TypeDescriptor → TypeDescriptor → Walk Bool
  | 0, _, _ => none
  | depth + 1, d, target => do
    if !(← target.isDefinite limit) then return true
    else if !d.registry.isAssignable target.objectErasure d.objectErasure then return false
    else if (d.isArray && target.isArray) || (d.isCollection && target.isCollection) then
      match ← d.element? limit, ← target.element? limit with
      | some ours, some theirs =>
        if ← ours.isDefinite limit then isAssignableTo limit depth ours theirs else return true
      | _, _ => return true
    else return true

/-- Whether two descriptors speak of the same type with the same annotations. -/
def equals (d e : TypeDescriptor) : Bool :=
  d.erasure = e.erasure && d.node = e.node && d.annotations = e.annotations

/-- The annotations, and the text of the node or else the name of the erasure. -/
def display (limit : Nat) (d : TypeDescriptor) : Walk String := do
  let marks := String.join (d.annotations.map fun a => "@" ++ a.name ++ " ")
  if ← d.isDefinite limit then return marks ++ (← Node.display d.registry limit d.node)
  else return marks ++ d.registry.erasureName d.erasure

/-- A descriptor as inner texts show it. -/
def innerText (limit : Nat) (d : TypeDescriptor) : Walk String := do
  return "TypeDescriptor(" ++ (← d.display limit) ++ ")"

end TypeDescriptor

namespace Registry

/-- The classes whose descriptors are needed most: strings, the top class, primitives and boxes. -/
def commonErasures (r : Registry) : List Erasure :=
  .ofClass r.wellKnown.string :: r.object
    :: r.wellKnown.boxes.flatMap fun (primitive, box) => [.ofClass primitive, .ofClass box]

/-- The descriptor of a common class. -/
def commonDescriptor? (r : Registry) (e : Erasure) : Option TypeDescriptor :=
  if r.commonErasures.contains e then some (.ofErasure r e) else none

end Registry

end TypeConversion
