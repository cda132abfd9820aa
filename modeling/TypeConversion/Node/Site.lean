import TypeConversion.Node.Navigate

/-!
# Declaration sites

Fields, method parameters and return values as sources of nodes.  A site may be seen through a
subclass of the class that declares it, which binds the type parameters of that class, and a method
parameter also at a level below its declared type.
-/

namespace TypeConversion

/-- A place in the declaration of a method. -/
inductive ParameterIndex where
  | returned
  | param (position : Nat)
deriving DecidableEq, Repr

/-- A method parameter or return value, seen through a class and at a nesting level. -/
structure MethodParameter where
  declaring : ClassId
  method : String
  index : ParameterIndex
  /-- The class through which the parameter is seen, if it is not the declaring one. -/
  containing : Option ClassId := none
  /-- The level, counted from 1 for the declared type. -/
  level : Nat := 1
  /-- The type arguments chosen at some levels, the latest choice first. -/
  choices : List (Nat × Nat) := []
deriving DecidableEq

namespace MethodParameter

/-- One level deeper. -/
def nested (p : MethodParameter) : MethodParameter := { p with level := p.level + 1 }

/-- The type argument to take at the current level. -/
def withTypeIndex (p : MethodParameter) (position : Nat) : MethodParameter :=
  { p with choices := (p.level, position) :: p.choices.filter (·.1 ≠ p.level) }

/-- The type argument chosen at a level. -/
def typeIndex? (p : MethodParameter) (level : Nat) : Option Nat :=
  p.choices.lookup level

def containingClass (p : MethodParameter) : ClassId := p.containing.getD p.declaring

/-- The declaration of the method. -/
def declaration (r : Registry) (p : MethodParameter) : Except TypeError MethodDef :=
  match r.method? p.declaring p.method with
  | some m => .ok m
  | none => .error (.unknownMember (r.memberOwnerName p.declaring) p.method)

/-- The declaration of a parameter of the method. -/
def paramAt (r : Registry) (p : MethodParameter) (m : MethodDef) (position : Nat) :
    Except TypeError ParamDef :=
  match m.params[position]? with
  | some d => .ok d
  | none => .error (.unknownParameter (r.memberOwnerName p.declaring) p.method position)

/-- The declared type; a method that returns nothing has none. -/
def declaredType (r : Registry) (p : MethodParameter) : Except TypeError (Option TypeExpr) := do
  let m ← p.declaration r
  match p.index with
  | .returned => return m.returnType
  | .param position => return some (← p.paramAt r m position).type

/-- The annotations of the parameter, or of the method for its return value. -/
def annotations (r : Registry) (p : MethodParameter) : Except TypeError (List Annotation) := do
  let m ← p.declaration r
  match p.index with
  | .returned => return m.annotations
  | .param position => return (← p.paramAt r m position).annotations

end MethodParameter

/-- The declaration of a field. -/
def Registry.fieldDeclaration (r : Registry) (c : ClassId) (name : String) :
    Except TypeError FieldDef :=
  match r.field? c name with
  | some d => .ok d
  | none => .error (.unknownMember (r.memberOwnerName c) name)

namespace Node

variable (r : Registry)

/-- The declared type of a field, whose variables stand for their bounds. -/
def ofField (c : ClassId) (name : String) : Except TypeError Node := do
  return ofExpr (← r.fieldDeclaration c name).type

/-- A type declared by a class as it is seen from a subclass of it. -/
def seenFrom (limit : Nat) (declaring implementation : ClassId) (t : TypeExpr) : Walk Node := do
  let owner ← asClass r limit (some (ofClass implementation)) declaring
  return within owner t

/-- The type of a field as it is seen from a subclass of the class that declares it. -/
def ofFieldIn (limit : Nat) (declaring : ClassId) (name : String) (implementation : ClassId) :
    Walk (Except TypeError Node) :=
  match r.fieldDeclaration declaring name with
  | .error e => some (.error e)
  | .ok d => do return .ok (← seenFrom r limit declaring implementation d.type)

/-- The declared type of a field, a number of levels down. -/
def ofFieldNested (limit : Nat) (c : ClassId) (name : String) (level : Nat) :
    Walk (Except TypeError (Option Node)) :=
  match ofField r c name with
  | .error e => some (.error e)
  | .ok n => do return .ok (← nested r limit level (fun _ => none) (some n))

/-- The type of a method parameter, seen from its containing class and at its level. -/
def ofMethodParameter (limit : Nat) (p : MethodParameter) :
    Walk (Except TypeError (Option Node)) :=
  match p.declaredType r with
  | .error e => some (.error e)
  | .ok none => some (.ok none)
  | .ok (some t) => do
    let n ← seenFrom r limit p.declaring p.containingClass t
    return .ok (← nested r limit p.level p.typeIndex? (some n))

/-- The return type of a method. -/
def ofMethodReturn (limit : Nat) (c : ClassId) (method : String) :
    Walk (Except TypeError (Option Node)) :=
  ofMethodParameter r limit { declaring := c, method := method, index := .returned }

end Node

end TypeConversion
