import TypeConversion.Registry.Lineage
import TypeConversion.Node.Basic

/-!
# Resolving nodes

What a node stands for.  Resolving goes in single steps: from a parameterized type to its class,
from a wildcard to its first bound, from a variable to what its context binds it to or else to its
first declared bound.  A bound that is just the top class counts as none.  The erasure of a node, its
array component and its type arguments are found by taking such steps until there is a class or an
array.

Declarations may be circular, so every walk has a limit on how deep it may go.  It ends in `none`
when the limit is too small, and a larger limit never changes what a walk found.
-/

namespace TypeConversion

/-- What a bounded walk found; `none` when it was cut off at its limit. -/
abbrev Walk (α : Type) : Type := Option α

namespace Registry

/-- The first bound, unless it is just the top class. -/
def firstBound? (r : Registry) : List TypeExpr → Option TypeExpr
  | [] => none
  | bound :: _ => if bound = .ofClass r.wellKnown.object then none else some bound

/-- The first declared bound of a type variable. -/
def declaredBound? (r : Registry) (v : TypeVarId) : Option TypeExpr :=
  (r.typeParam? v).bind fun d => r.firstBound? d.upperBounds

/-- The bound that stands for a wildcard: an upper one before a lower one. -/
def wildcardBound? (r : Registry) (upper lower : List TypeExpr) : Option TypeExpr :=
  (r.firstBound? upper).or (r.firstBound? lower)

end Registry

namespace Node

variable (r : Registry)

mutual

/-- One step towards what a node stands for; classes and arrays stand for themselves. -/
def resolveType : Nat → Node → Walk (Option Node)
  | 0, _ => none
  | limit + 1, n =>
    match n.expr with
    | .parameterized raw _ _ => some (some (n.sibling (.ofClass raw)))
    | .wildcard upper lower => some ((r.wildcardBound? upper lower).map n.sibling)
    | .typeVar v => do
      match ← resolveInContext limit n.context v with
      | some bound => return some bound
      | none => return (r.declaredBound? v).map n.sibling
    | .plain _ | .genericArray _ => some none

/-- What an optional context binds a variable to. -/
def resolveInContext : Nat → Option Node → TypeVarId → Walk (Option Node)
  | _, none, _ => some none
  | 0, some _, _ => none
  | limit + 1, some n, v => resolveVariable limit n v

/--
What a node binds a variable to: a type argument, else what an enclosing type binds it to, else what
the context of the node does.
-/
def resolveVariable : Nat → Node → TypeVarId → Walk (Option Node)
  | 0, _, _ => none
  | limit + 1, n, v =>
    match n with
    | applied _ params given => some ((params.idxOf? v).bind fun i => given[i]?.join)
    | arrayOf _ => some none
    | written e context =>
      match e with
      | .typeVar _ => do
        match ← resolveType limit n with
        | some t => resolveVariable limit t v
        | none => return none
      | .parameterized raw args owner =>
        match (r.typeParameters raw).idxOf? v with
        | some i => some (args[i]?.map n.sibling)
        | none =>
          match owner with
          | none => resolveInContext limit context v
          | some o => do
            match ← resolveVariable limit (n.sibling o) v with
            | some bound => return some bound
            | none => resolveInContext limit context v
      | .wildcard .. => do
        let bound ← match ← resolveType limit n with
          | some t => resolveVariable limit t v
          | none => pure none
        match bound with
        | some bound => return some bound
        | none => resolveInContext limit context v
      | .plain _ | .genericArray _ => resolveInContext limit context v

end

/-- Whether a node is an array. -/
def isArray : Nat → Node → Walk Bool
  | 0, _ => none
  | limit + 1, n =>
    match n.expr with
    | .plain e => some e.isArray
    | .genericArray _ => some true
    | _ => do
      match ← resolveType r limit n with
      | some t => isArray limit t
      | none => return false

/-- What an array consists of. -/
def componentType : Nat → Node → Walk (Option Node)
  | 0, _ => none
  | _ + 1, arrayOf component => some (some component)
  | limit + 1, n =>
    match n.expr with
    | .plain e => some (e.component?.map fun c => n.sibling (.plain c))
    | .genericArray c => some (some (n.sibling c))
    | _ => do
      match ← resolveType r limit n with
      | some t => componentType limit t
      | none => return none

/-- The erasure of a node, unless it stands for nothing definite. -/
def resolve : Nat → Node → Walk (Option Erasure)
  | 0, _ => none
  | limit + 1, n =>
    match n.expr with
    | .plain e => some (some e)
    | .genericArray _ => do
      match ← componentType r limit n with
      | some c => return (← resolve limit c).bind (·.array?)
      | none => return none
    | _ => do
      match ← resolveType r limit n with
      | some t => resolve limit t
      | none => return none

/--
The type arguments of a node.  A class without arguments has an open variable for each of its type
parameters, read in the context of the node.
-/
def generics : Nat → Node → Walk (List (Option Node))
  | 0, _ => none
  | _ + 1, applied _ _ given => some given
  | limit + 1, n =>
    match n.expr with
    | .plain e =>
      let params := e.asClass?.elim [] r.typeParameters
      some (params.map fun v => some (written (.typeVar v) (some n)))
    | .parameterized _ args _ => some (args.map fun a => some (n.sibling a))
    | _ => do
      match ← resolveType r limit n with
      | some t => generics limit t
      | none => return []

end Node

end TypeConversion
