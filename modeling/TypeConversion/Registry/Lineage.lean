import TypeConversion.Registry.Basic

/-!
# Lineage of erasures

The declared supertypes of classes, seen as erasures, and the relations that follow from them:
subclassing, and assignability with boxing of primitives.

A type expression may lead through bounds of type variables in circles, so its erasure is sought
through a limited number of steps.  The inheritance graph may have circles too; the search for an
ancestor keeps the erasures it has visited, and its number of steps is bounded by the size of the
registry.
-/

namespace TypeConversion

namespace Registry

/-- How many arrays and bounds a type expression is followed through. -/
def erasureSteps : Nat := 33

/-- The erasure of a type expression within a number of steps. -/
def rawErasureWithin (r : Registry) : Nat → TypeExpr → Option Erasure
  | 0, _ => none
  | _ + 1, .plain e => some e
  | _ + 1, .parameterized raw _ _ => some (.ofClass raw)
  | steps + 1, .genericArray component =>
    (r.rawErasureWithin steps component).bind (·.array?)
  | steps + 1, .wildcard upper _ =>
    match upper with
    | [] => some r.object
    | bound :: _ => r.rawErasureWithin steps bound
  | steps + 1, .typeVar v =>
    match r.typeParam? v with
    | none => none
    | some d =>
      match d.upperBounds with
      | [] => some r.object
      | bound :: _ => r.rawErasureWithin steps bound

/-- The erasure of a type expression whose variables stand for their first bounds. -/
def rawErasure (r : Registry) (t : TypeExpr) : Option Erasure :=
  r.rawErasureWithin erasureSteps t

/--
The declared superclass.  Arrays extend the top class, and so do classes that name no superclass;
interfaces, primitives and the top class itself have none.
-/
def genericSuperclass (r : Registry) (e : Erasure) : Option TypeExpr :=
  if e.isArray then some (.ofClass r.wellKnown.object)
  else
    match r.class? e.element with
    | none => none
    | some d =>
      if d.kind = .interface ∨ d.kind = .primitive ∨ e.element = r.wellKnown.object then none
      else some (d.superClass.getD (.ofClass r.wellKnown.object))

/-- The declared interfaces, in order.  Arrays implement two. -/
def genericInterfaces (r : Registry) (e : Erasure) : List TypeExpr :=
  if e.isArray then [.ofClass r.wellKnown.cloneable, .ofClass r.wellKnown.serializable]
  else (r.class? e.element).elim [] (·.interfaces)

/-- The erasure of the superclass. -/
def superclass? (r : Registry) (e : Erasure) : Option Erasure :=
  (r.genericSuperclass e).bind r.rawErasure

/-- The erasures of the interfaces. -/
def interfaces (r : Registry) (e : Erasure) : List Erasure :=
  (r.genericInterfaces e).filterMap r.rawErasure

/-- The direct supertypes: the superclass, then the interfaces. -/
def supertypes (r : Registry) (e : Erasure) : List Erasure :=
  (r.superclass? e).toList ++ r.interfaces e

/-- A bound on how many supertypes all classes have together. -/
def supertypeCount (r : Registry) : Nat :=
  r.classes.foldl (fun count d => count + d.interfaces.length + 1) 0

/--
More steps than a search through the lineage can take: every visited erasure is queued once for
each erasure that it is a supertype of, and only classes and arrays that occur as supertypes are
visited.
-/
def searchSteps (r : Registry) : Nat := 4 * r.supertypeCount + 16

/--
Searches for an erasure breadth first from the queue on.  The visited erasures are skipped.
-/
def reaches (r : Registry) (target : Erasure) : Nat → List Erasure → List Erasure → Bool
  | 0, _, _ => false
  | _ + 1, [], _ => false
  | steps + 1, e :: queue, visited =>
    if visited.contains e then r.reaches target steps queue visited
    else if e = target then true
    else r.reaches target steps (queue ++ r.supertypes e) (e :: visited)

/-- Subclassing between classes that are no arrays: primitives are related to none. -/
def isSubclassPlain (r : Registry) (target source : Erasure) : Bool :=
  if r.isPrimitive target || r.isPrimitive source then false
  else if target.element = r.wellKnown.object then true
  else r.reaches target r.searchSteps [source] []

/-- Subclassing of arrays through at most a number of dimensions. -/
def isSubclassWithin (r : Registry) : Nat → Erasure → Erasure → Bool
  | dims, target, source =>
    if target = source then true
    else
      match target.component?, source.component? with
      | none, none => r.isSubclassPlain target source
      | none, some _ =>
        target.element = r.wellKnown.object || target.element = r.wellKnown.cloneable
          || target.element = r.wellKnown.serializable
      | some _, none => false
      | some t, some s =>
        if r.isPrimitive t || r.isPrimitive s then t = s
        else
          match dims with
          | 0 => false
          | dims + 1 => r.isSubclassWithin dims t s

/--
Whether everything of the erasure `source` is one of `target`: identity, inheritance, and
covariance of arrays.  Nothing is boxed.
-/
def isSubclass (r : Registry) (target source : Erasure) : Bool :=
  r.isSubclassWithin target.dims.toNat target source

/-- Subclassing, or boxing of a primitive in either direction. -/
def isAssignable (r : Registry) (target source : Erasure) : Bool :=
  if r.isSubclass target source then true
  else if r.isPrimitive target then r.unboxed? source = some target
  else if r.isPrimitive source then r.isSubclass target (r.boxed source)
  else false

end Registry

end TypeConversion
