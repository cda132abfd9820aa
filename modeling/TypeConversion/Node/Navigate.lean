import TypeConversion.Node.Resolve
import TypeConversion.Types.Error

/-!
# Ways from node to node

From a node one can go to its supertypes, which are read in its context; to its type arguments; to a
view of it as one of its supertypes; and down through arrays and arguments, level by level.
-/

namespace TypeConversion

namespace Node

variable (r : Registry)

/-- The erasure of an optional node. -/
def resolveOption (limit : Nat) : Option Node → Walk (Option Erasure)
  | none => some none
  | some n => resolve r limit n

/-- The erasure of a node, or another one if it has none. -/
def resolveOr (limit : Nat) (n : Node) (fallback : Erasure) : Walk Erasure := do
  return (← resolve r limit n).getD fallback

/-- The type arguments of an optional node. -/
def genericsOption (limit : Nat) : Option Node → Walk (List (Option Node))
  | none => some []
  | some n => generics r limit n

/-- The superclass of a node, whose variables are looked up in the node. -/
def superType (limit : Nat) (n : Node) : Walk (Option Node) := do
  match ← resolve r limit n with
  | some e => return (r.genericSuperclass e).map (within (some n))
  | none => return none

/-- The interfaces of a node in the order of their declaration. -/
def interfaces (limit : Nat) (n : Node) : Walk (List Node) := do
  match ← resolve r limit n with
  | some e => return (r.genericInterfaces e).map (within (some n))
  | none => return []

/-- The argument at a path of positions, each one level deeper than the one before. -/
def genericAt (limit : Nat) : List Nat → Option Node → Walk (Option Node)
  | [], n => some n
  | i :: path, n => do
    let args ← genericsOption r limit n
    match args[i]? with
    | some arg => genericAt limit path arg
    | none => return none

/-- The argument at a path of positions; the first argument if the path is empty. -/
def getGeneric (limit : Nat) (path : List Nat) (n : Option Node) : Walk (Option Node) :=
  match path with
  | [] => do return (← genericsOption r limit n).head?.join
  | path => genericAt r limit path n

/-- The erasures of the type arguments. -/
def resolveGenerics (limit : Nat) (n : Option Node) : Walk (List (Option Erasure)) := do
  let args ← genericsOption r limit n
  args.mapM (resolveOption r limit)

/-- The first of a node and its superclasses that has type arguments. -/
def climb : Nat → Option Node → Walk (Option Node)
  | _, none => some none
  | 0, some _ => none
  | limit + 1, some n => do
    if (← generics r limit n).isEmpty then climb limit (← superType r limit n)
    else return some n

/--
One level down: the component of an array; otherwise the chosen type argument, or the last one, of
the first superclass that has any.
-/
def descend (limit : Nat) (n : Option Node) (choice : Option Nat) : Walk (Option Node) :=
  match n with
  | none => some none
  | some n => do
    if ← isArray r limit n then componentType r limit n
    else
      let owner ← climb r limit (some n)
      let args ← genericsOption r limit owner
      let position := match choice with
        | some i => some i
        | none => if args.isEmpty then none else some (args.length - 1)
      match position with
      | some i => getGeneric r limit [i] owner
      | none => return none

/-- A number of levels down from a level, with the choices made at some of the levels. -/
def descendFrom (limit : Nat) (choices : Nat → Option Nat) :
    Nat → Nat → Option Node → Walk (Option Node)
  | _, 0, n => some n
  | level, count + 1, n => do
    let next ← descend r limit n (choices (level + 1))
    descendFrom limit choices (level + 1) count next

/-- The node at a level, counted from 1 for the node itself. -/
def nested (limit : Nat) (level : Nat) (choices : Nat → Option Nat) (n : Option Node) :
    Walk (Option Node) :=
  descendFrom r limit choices 1 (level - 1) n

mutual

/--
The view of a node as the type of an erasure: the node itself if it has this erasure or none, else
the view of the first interface that has one, else that of the superclass.
-/
def asErasure : Nat → Option Node → Erasure → Walk (Option Node)
  | _, none, _ => some none
  | 0, some _, _ => none
  | limit + 1, some n, target => do
    match ← resolve r limit n with
    | none => return some n
    | some e =>
      if e = target then return some n
      else
        match ← firstView limit (← interfaces r limit n) target with
        | some view => return some view
        | none => asErasure limit (← superType r limit n) target

/-- The first view among the nodes of a list. -/
def firstView : Nat → List Node → Erasure → Walk (Option Node)
  | _, [], _ => some none
  | 0, _ :: _, _ => none
  | limit + 1, n :: rest, target => do
    match ← asErasure limit (some n) target with
    | some view => return some view
    | none => firstView limit rest target

end

/-- The view of a node as a class. -/
def asClass (limit : Nat) (n : Option Node) (c : ClassId) : Walk (Option Node) :=
  asErasure r limit n (.ofClass c)

/-- A class with a node for each of its type parameters. -/
def ofClassWith (c : ClassId) (given : List (Option Node)) : Except TypeError Node :=
  let params := r.typeParameters c
  if params.length ≠ given.length then
    .error (.genericArity ((r.class? c).elim "" (·.name)) params.length given.length)
  else if given.isEmpty then .ok (ofClass c)
  else .ok (applied c params given)

end Node

end TypeConversion
