import TypeConversion.Node.Navigate

/-!
# Assignability of nodes

Whether a value of one type may be treated as another.  At the top this is subtyping with boxing;
inside type arguments it is invariant, unless a wildcard widens it: a wildcard accepts what lies on
the right side of its bounds, and a wildcard of the same kind whose bounds do.

While the arguments of two types are compared, a guard remembers with which expression each of our
expressions was compared last; the same pair met again is taken to hold.  This cuts the circles of
bounds that mention the type they bound.  Arrays and wildcards start over with an empty guard.

The two types may belong to two registries, of which each knows the classes of its own side.
-/

namespace TypeConversion

/-- The direction of the bounds of a wildcard. -/
inductive WildcardKind where
  | upper
  | lower
deriving DecidableEq, Repr

/-- A wildcard with the nodes of its bounds. -/
structure WildcardBounds where
  kind : WildcardKind
  bounds : List Node

/-- The expressions that were compared, ours with theirs, the latest first. -/
abbrev Guard : Type := List (TypeExpr × TypeExpr)

namespace Node

/--
The bounds of the wildcard that a node is or resolves to.  They are read in the context of the node
itself; a wildcard without bounds is bounded above by the top class.
-/
def wildcardBoundsFrom (r : Registry) (origin : Node) : Nat → Node → Walk (Option WildcardBounds)
  | 0, _ => none
  | limit + 1, n =>
    match n.expr with
    | .wildcard upper lower =>
      let read (bounds : List TypeExpr) : List Node := bounds.map origin.sibling
      match lower, upper with
      | [], [] => some (some ⟨.upper, read [.ofClass r.wellKnown.object]⟩)
      | [], upper => some (some ⟨.upper, read upper⟩)
      | lower, _ => some (some ⟨.lower, read lower⟩)
    | _ => do
      match ← resolveType r limit n with
      | some t => wildcardBoundsFrom r origin limit t
      | none => return none

/-- The bounds of the wildcard that a node is or resolves to. -/
def wildcardBounds (r : Registry) (limit : Nat) (n : Node) : Walk (Option WildcardBounds) :=
  wildcardBoundsFrom r n limit n

/-- The kind of wildcard that a node is or resolves to. -/
def wildcardKind (r : Registry) (limit : Nat) (n : Node) : Walk (Option WildcardKind) := do
  return (← wildcardBounds r limit n).map (·.kind)

/-- How our side of a comparison is taken when it comes to erasures. -/
structure OurSide where
  erasure : Erasure
  /-- Whether the erasures have to be the same. -/
  exact : Bool
  /-- Whether the type arguments are compared too. -/
  withArguments : Bool

/--
Our side of a comparison.  A variable stands for what our context binds it to; failing that, for
what their context does, and then its arguments are not looked at; failing both, for its bound, and
then the erasures need not be the same.
-/
def ourSide (ours theirs : Registry) (limit : Nat) (n other : Node) (inside : Bool) :
    Walk OurSide :=
  match n.expr with
  | .typeVar v => do
    let bound ← resolveInContext ours limit n.context v
    match ← resolveOption ours limit bound with
    | some e => return ⟨e, inside, true⟩
    | none =>
      match ← resolveInContext theirs limit other.context v with
      | some bound =>
        match ← resolve theirs limit bound with
        | some e => return ⟨e, inside, false⟩
        | none => return ⟨← resolveOr ours limit n ours.object, false, false⟩
      | none => return ⟨← resolveOr ours limit n ours.object, false, true⟩
  | _ => do return ⟨← resolveOr ours limit n ours.object, inside, true⟩

mutual

/--
Whether our node is assignable from theirs, given the pairs compared so far; without a guard the
comparison is at the top.  The guard is returned with what was added to it.
-/
def assignableFrom : Nat → Registry → Registry → Option Node → Option Node → Option Guard →
    Walk (Bool × Option Guard)
  | 0, _, _, _, _, _ => none
  | _ + 1, _, _, none, _, guard => some (false, guard)
  | _ + 1, _, _, some _, none, guard => some (false, guard)
  | limit + 1, ours, theirs, some n, some other, guard => do
    if ← isArray ours limit n then
      if ← isArray theirs limit other then
        let component ← componentType ours limit n
        let otherComponent ← componentType theirs limit other
        let (holds, _) ← assignableFrom limit ours theirs component otherComponent none
        return (holds, guard)
      else return (false, guard)
    else if (guard.getD []).lookup n.expr = some other.expr then return (true, guard)
    else
      let bounds ← wildcardBounds ours limit n
      match ← wildcardBounds theirs limit other with
      | some theirBounds =>
        match bounds with
        | some ourBounds =>
          if ourBounds.kind = theirBounds.kind then
            let holds ← acceptsAll limit ours theirs ourBounds.kind ourBounds.bounds
              theirBounds.bounds
            return (holds, guard)
          else return (false, guard)
        | none => return (false, guard)
      | none =>
        match bounds with
        | some ourBounds =>
          let holds ← acceptsAll limit ours theirs ourBounds.kind ourBounds.bounds [other]
          return (holds, guard)
        | none =>
          let side ← ourSide ours theirs limit n other guard.isSome
          let otherErasure ← resolveOr theirs limit other ours.object
          let compatible := if side.exact then side.erasure = otherErasure
            else ours.isAssignable side.erasure otherErasure
          if !compatible then return (false, guard)
          else if !side.withArguments then return (true, guard)
          else
            let args ← generics ours limit n
            let view ← asErasure theirs limit (some other) side.erasure
            let otherArgs ← genericsOption theirs limit view
            if args.length ≠ otherArgs.length then return (false, guard)
            else
              assignableArgs limit ours theirs (args.zip otherArgs)
                (some ((n.expr, other.expr) :: guard.getD []))

/-- Whether all pairs of type arguments are assignable, one after the other. -/
def assignableArgs : Nat → Registry → Registry → List (Option Node × Option Node) →
    Option Guard → Walk (Bool × Option Guard)
  | _, _, _, [], guard => some (true, guard)
  | 0, _, _, _ :: _, _ => none
  | limit + 1, ours, theirs, (n, other) :: rest, guard => do
    let (holds, guard) ← assignableFrom limit ours theirs n other guard
    if holds then assignableArgs limit ours theirs rest guard else return (false, guard)

/-- Whether every bound of a wildcard of a kind accepts every one of the types. -/
def acceptsAll : Nat → Registry → Registry → WildcardKind → List Node → List Node → Walk Bool
  | _, _, _, _, [], _ => some true
  | 0, _, _, _, _ :: _, _ => none
  | limit + 1, ours, theirs, kind, bound :: rest, types => do
    if ← acceptsEach limit ours theirs kind bound types then
      acceptsAll limit ours theirs kind rest types
    else return false

/-- Whether a bound accepts every one of the types. -/
def acceptsEach : Nat → Registry → Registry → WildcardKind → Node → List Node → Walk Bool
  | _, _, _, _, _, [] => some true
  | 0, _, _, _, _, _ :: _ => none
  | limit + 1, ours, theirs, kind, bound, type :: rest => do
    let (holds, _) ← match kind with
      | .upper => assignableFrom limit ours theirs (some bound) (some type) none
      | .lower => assignableFrom limit theirs ours (some type) (some bound) none
    if holds then acceptsEach limit ours theirs kind bound rest else return false

end

/-- Whether a value of the other type may be treated as one of ours. -/
def isAssignableFrom (limit : Nat) (ours theirs : Registry) (n other : Option Node) :
    Walk Bool := do
  return (← assignableFrom limit ours theirs n other none).1

/-- Whether a value of an erasure may be treated as one of a type. -/
def isAssignableFromErasure (limit : Nat) (r : Registry) (n : Option Node) (e : Erasure) :
    Walk Bool :=
  isAssignableFrom limit r r n (some (ofErasure e))

end Node

end TypeConversion
