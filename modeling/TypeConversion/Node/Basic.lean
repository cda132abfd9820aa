import TypeConversion.Types.Expr

/-!
# Nodes

A node is a type seen from somewhere.  Mostly it is a type expression read in the context of another
node, which gives meaning to the type variables in it: the field of a class is read in the context
of that class with its arguments.  Contexts may have contexts in turn.

Two more nodes are put together from nodes and not from expressions: the array of a node, and a
class applied to nodes, of which some may be left open.

Nodes are plain data.  Two nodes are equal when they are built alike, contexts included.  Where a
type may be missing, functions speak of optional nodes.
-/

namespace TypeConversion

/-- A type seen from somewhere. -/
inductive Node where
  /-- A type expression whose variables are looked up in a context. -/
  | written (expr : TypeExpr) (context : Option Node)
  /-- The array of a node. -/
  | arrayOf (component : Node)
  /-- A class with a node for each of its type parameters; one that is missing leaves it open. -/
  | applied (raw : ClassId) (params : List TypeVarId) (given : List (Option Node))
deriving Inhabited

namespace Node

mutual

/-- The type expression of a node, in which open parameters stand for themselves. -/
def expr : Node → TypeExpr
  | written e _ => e
  | arrayOf component => (expr component).arrayOf
  | applied raw params given => .parameterized raw (givenExprs params given) none

/-- The type expressions of given arguments. -/
def givenExprs : List TypeVarId → List (Option Node) → List TypeExpr
  | v :: params, given :: rest => givenExpr v given :: givenExprs params rest
  | _, _ => []

/-- The type expression of a given argument, or else of the parameter. -/
def givenExpr (v : TypeVarId) : Option Node → TypeExpr
  | some n => expr n
  | none => .typeVar v

end

/-- Where the variables of a node are looked up. -/
def context : Node → Option Node
  | written _ context => context
  | arrayOf _ => none
  | applied .. => none

/-- Another type expression in the same context. -/
def sibling (n : Node) (e : TypeExpr) : Node := written e n.context

/-- A type expression by itself. -/
def ofExpr (e : TypeExpr) : Node := written e none

/-- A type expression read in the context of a node, which may be missing. -/
def within (context : Option Node) (e : TypeExpr) : Node := written e context

/-- A class without arguments; its type parameters stay open. -/
def ofClass (c : ClassId) : Node := ofExpr (.ofClass c)

/-- An erasure. -/
def ofErasure (e : Erasure) : Node := ofExpr (.plain e)

@[simp] theorem expr_written (e : TypeExpr) (context : Option Node) :
    (written e context).expr = e := by simp [expr]

@[simp] theorem context_written (e : TypeExpr) (c : Option Node) :
    (written e c).context = c := rfl

mutual

/-- Nodes are compared part by part, contexts included. -/
def decEq : (a b : Node) → Decidable (a = b)
  | written e c, b =>
    match b with
    | written e' c' =>
      if h : e = e' then
        match decEqOption c c' with
        | isTrue hc => isTrue (by rw [h, hc])
        | isFalse hc => isFalse (by simp [hc])
      else isFalse (by simp [h])
    | arrayOf _ | applied .. => isFalse (by simp)
  | arrayOf n, b =>
    match b with
    | arrayOf n' =>
      match decEq n n' with
      | isTrue h => isTrue (by rw [h])
      | isFalse h => isFalse (by simp [h])
    | written .. | applied .. => isFalse (by simp)
  | applied raw params given, b =>
    match b with
    | applied raw' params' given' =>
      if h : raw = raw' ∧ params = params' then
        match decEqGiven given given' with
        | isTrue hg => isTrue (by rw [h.1, h.2, hg])
        | isFalse hg => isFalse (by simp [hg])
      else isFalse (by simp; intro h1 h2; exact absurd ⟨h1, h2⟩ h)
    | written .. | arrayOf _ => isFalse (by simp)

/-- Optional nodes are compared by what they hold. -/
def decEqOption : (a b : Option Node) → Decidable (a = b)
  | none, none => isTrue rfl
  | none, some _ => isFalse (by simp)
  | some _, none => isFalse (by simp)
  | some a, some b =>
    match decEq a b with
    | isTrue h => isTrue (by rw [h])
    | isFalse h => isFalse (by simp [h])

/-- Given arguments are compared one by one. -/
def decEqGiven : (as bs : List (Option Node)) → Decidable (as = bs)
  | [], [] => isTrue rfl
  | [], _ :: _ => isFalse (by simp)
  | _ :: _, [] => isFalse (by simp)
  | a :: as, b :: bs =>
    match decEqOption a b, decEqGiven as bs with
    | isTrue h, isTrue hs => isTrue (by rw [h, hs])
    | isFalse h, _ => isFalse (by simp [h])
    | _, isFalse hs => isFalse (by simp [hs])

end

instance : DecidableEq Node := decEq

end Node

end TypeConversion
