import TypeConversion.Registry.TypeText

/-!
# Declaring classes step by step

A draft collects the declaration of a class, with all types given as texts.  Types are read in the
scope of the type parameters declared so far, and against the registry as it is at that point, so
that a class may mention itself.  The first error is kept and reported at the end; until then the
registry gains the name of the class and the type variables of the draft.
-/

namespace TypeConversion

/-- One step of a class declaration. -/
inductive DraftStep where
  | kind (kind : ClassKind)
  /-- The class is an enumeration with these constants. -/
  | enumeration (constants : List String)
  /-- A type parameter, whose bounds may mention it. -/
  | typeParam (name : String) (bounds : List String)
  | superClass (type : String)
  | interface (type : String)
  | annotate (a : Annotation)
  | field (name type : String) (annotations : List Annotation)
  /-- A method with its parameters as names and types, and its own type parameters. -/
  | method (name : String) (typeParams : List String) (params : List (String × String))
      (returns : Option String)
  /-- An annotation on the last method. -/
  | annotateMethod (a : Annotation)
  /-- An annotation on a parameter of the last method. -/
  | annotateParam (position : Nat) (a : Annotation)
deriving DecidableEq, Inhabited

/-- A class under declaration. -/
structure ClassDraft where
  registry : Registry
  id : ClassId
  declaration : ClassDef
  error : Option TypeError

/-- A list with its last element changed. -/
def modifyLast {α : Type} (f : α → α) : List α → List α
  | [] => []
  | [x] => [f x]
  | x :: rest => x :: modifyLast f rest

namespace ClassDraft

/-- Starts the declaration of the class of a name. -/
def start (r : Registry) (name : String) : ClassDraft :=
  let (r, id) := r.intern name
  ⟨r, id, { name := name }, none⟩

/-- Reads a type in a scope, unless there has been an error already. -/
def readIn (d : ClassDraft) (scope : List TypeVarId) (text : String) :
    ClassDraft × Option TypeExpr :=
  match d.error with
  | some _ => (d, none)
  | none =>
    match d.registry.parseTypeIn scope text with
    | .ok t => (d, some t)
    | .error e => ({ d with error := some e }, none)

/-- Reads a type in the scope of the type parameters declared so far. -/
def read (d : ClassDraft) (text : String) : ClassDraft × Option TypeExpr :=
  d.readIn d.declaration.typeParams text

/-- Reads several types, leaving out those that cannot be read. -/
def readAll (d : ClassDraft) : List String → ClassDraft × List TypeExpr
  | [] => (d, [])
  | text :: rest =>
    let (d, t) := d.read text
    let (d, types) := d.readAll rest
    (d, t.toList ++ types)

/-- Enters new type variables without bounds. -/
def addVars (d : ClassDraft) : List String → ClassDraft × List TypeVarId
  | [] => (d, [])
  | name :: rest =>
    let (r, v) := d.registry.addTypeParam ⟨name, []⟩
    let (d, vars) := { d with registry := r }.addVars rest
    (d, v :: vars)

/-- Reads the parameters of a method, as long as all of them can be read. -/
def readParams (d : ClassDraft) (scope : List TypeVarId) :
    List (String × String) → ClassDraft × Option (List ParamDef)
  | [] => (d, some [])
  | (name, text) :: rest =>
    match d.readIn scope text with
    | (d, none) => (d, none)
    | (d, some t) =>
      let (d, params) := d.readParams scope rest
      (d, params.map (⟨name, t, []⟩ :: ·))

/-- Changes the declaration and nothing else. -/
def update (d : ClassDraft) (f : ClassDef → ClassDef) : ClassDraft :=
  { d with declaration := f d.declaration }

/-- Changes the method declared last, if there is one. -/
def updateLastMethod (d : ClassDraft) (f : MethodDef → MethodDef) : ClassDraft :=
  d.update fun c => { c with methods := modifyLast f c.methods }

/-- Adds a type parameter.  The class has it in the registry before its bounds are read. -/
def addTypeParam (d : ClassDraft) (name : String) (bounds : List String) : ClassDraft :=
  let (r, v) := d.registry.addTypeParam ⟨name, []⟩
  let params := d.declaration.typeParams ++ [v]
  let d := { d with registry := r.setTypeParameters d.id params }
  let (d, upper) := (d.update ({ · with typeParams := params })).readAll bounds
  { d with registry := d.registry.defineTypeParam v ⟨name, upper⟩ }

/-- Adds a method.  Its own type parameters are in scope after those of the class. -/
def addMethod (d : ClassDraft) (name : String) (typeParams : List String)
    (params : List (String × String)) (returns : Option String) : ClassDraft :=
  let (d, vars) := d.addVars typeParams
  let scope := d.declaration.typeParams ++ vars
  match d.readParams scope params with
  | (d, none) => d
  | (d, some params) =>
    let add (d : ClassDraft) (returns : Option TypeExpr) : ClassDraft :=
      d.update fun c => { c with methods := c.methods ++ [⟨name, vars, params, returns, []⟩] }
    match returns with
    | none => add d none
    | some text =>
      match d.readIn scope text with
      | (d, none) => d
      | (d, some t) => add d (some t)

/-- Takes one step of the declaration. -/
def step (d : ClassDraft) : DraftStep → ClassDraft
  | .kind kind => d.update ({ · with kind := kind })
  | .enumeration constants =>
    d.update ({ · with kind := .enumeration, enumConstants := constants })
  | .typeParam name bounds => d.addTypeParam name bounds
  | .superClass text =>
    match d.read text with
    | (d, some t) => d.update ({ · with superClass := some t })
    | (d, none) => d
  | .interface text =>
    match d.read text with
    | (d, some t) => d.update fun c => { c with interfaces := c.interfaces ++ [t] }
    | (d, none) => d
  | .annotate a => d.update fun c => { c with annotations := c.annotations ++ [a] }
  | .field name text annotations =>
    match d.read text with
    | (d, some t) => d.update fun c => { c with fields := c.fields ++ [⟨name, t, annotations⟩] }
    | (d, none) => d
  | .method name typeParams params returns => d.addMethod name typeParams params returns
  | .annotateMethod a =>
    d.updateLastMethod fun m => { m with annotations := m.annotations ++ [a] }
  | .annotateParam position a =>
    let annotate (p : ParamDef) : ParamDef := { p with annotations := p.annotations ++ [a] }
    d.updateLastMethod fun m => { m with params := m.params.modify position annotate }

/-- The superclass of an enumeration that names none: enums of itself. -/
def withEnumParent (d : ClassDraft) : ClassDef :=
  if d.declaration.kind = .enumeration && d.declaration.superClass.isNone then
    { d.declaration with
      superClass := some
        (.parameterized d.registry.wellKnown.enumClass [.ofClass d.id] none) }
  else d.declaration

/-- Ends the declaration: enters the class into the registry, or reports the first error. -/
def finish (d : ClassDraft) : Registry × Except TypeError ClassId :=
  match d.error with
  | some e => (d.registry, .error e)
  | none => (d.registry.define d.id d.withEnumParent, .ok d.id)

end ClassDraft

namespace Registry

/-- Declares the class of a name in steps. -/
def declare (r : Registry) (name : String) (steps : List DraftStep) :
    Registry × Except TypeError ClassId :=
  (steps.foldl ClassDraft.step (ClassDraft.start r name)).finish

end Registry

end TypeConversion
