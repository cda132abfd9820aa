/-!
# Type expressions

A type expression is the declared shape of a field, a parameter or a return value: a class or an
array of one, a parameterized class, an array of something else, a wildcard or a type variable.
Classes and type variables are named by their numbers in a registry.

The erasure of a type is what is left of it at run time: a class and a number of array dimensions,
of which there are at most 255.  `TypeExpr.arrayOf` keeps one form for arrays of plain classes: they
are erasures with one dimension more, as long as the limit allows.
-/

namespace TypeConversion

/-- The number of a class in a registry. -/
structure ClassId where
  index : UInt32
deriving DecidableEq, Repr, Inhabited

/-- The number of a type variable in a registry. -/
structure TypeVarId where
  index : UInt32
deriving DecidableEq, Repr, Inhabited

/-- A class with a number of array dimensions. -/
structure Erasure where
  element : ClassId
  dims : UInt8
deriving DecidableEq, Repr, Inhabited

namespace Erasure

/-- A class that is no array. -/
def ofClass (c : ClassId) : Erasure := ⟨c, 0⟩

def isArray (e : Erasure) : Bool := e.dims ≠ 0

/-- The class itself, unless this is an array. -/
def asClass? (e : Erasure) : Option ClassId :=
  if e.isArray then none else some e.element

/-- One dimension more, unless there are 255 already. -/
def array? (e : Erasure) : Option Erasure :=
  if e.dims = 255 then none else some ⟨e.element, e.dims + 1⟩

/-- One dimension more, where 255 dimensions stay as they are. -/
def array (e : Erasure) : Erasure := e.array?.getD e

/-- What an array consists of. -/
def component? (e : Erasure) : Option Erasure :=
  if e.isArray then some ⟨e.element, e.dims - 1⟩ else none

@[simp] theorem ofClass_element (c : ClassId) : (ofClass c).element = c := rfl

@[simp] theorem ofClass_dims (c : ClassId) : (ofClass c).dims = 0 := rfl

@[simp] theorem isArray_ofClass (c : ClassId) : (ofClass c).isArray = false := rfl

@[simp] theorem asClass?_ofClass (c : ClassId) : (ofClass c).asClass? = some c := rfl

@[simp] theorem component?_ofClass (c : ClassId) : (ofClass c).component? = none := rfl

theorem eq_ofClass_of_asClass? {e : Erasure} {c : ClassId} (h : e.asClass? = some c) :
    e = ofClass c := by
  obtain ⟨element, dims⟩ := e
  rw [asClass?] at h
  split at h
  · simp at h
  · rename_i harray
    have hdims : dims = 0 := by simpa [isArray] using harray
    obtain rfl : element = c := by simpa using h
    rw [hdims, ofClass]

end Erasure

/-- A type expression. -/
inductive TypeExpr where
  /-- A plain class or an array of one. -/
  | plain (erasure : Erasure)
  /-- A class with type arguments, and the parameterized type that encloses an inner class. -/
  | parameterized (raw : ClassId) (args : List TypeExpr) (owner : Option TypeExpr)
  /-- An array whose component is no plain class. -/
  | genericArray (component : TypeExpr)
  /-- An unknown type within bounds.  Without upper bounds every type is below. -/
  | wildcard (upper lower : List TypeExpr)
  | typeVar (var : TypeVarId)
deriving Repr, Inhabited

namespace TypeExpr

/-- A class without dimensions and arguments. -/
def ofClass (c : ClassId) : TypeExpr := plain (.ofClass c)

/-- The array of a type, folded into an erasure where its component is one. -/
def arrayOf : TypeExpr → TypeExpr
  | plain e =>
    match e.array? with
    | some array => plain array
    | none => genericArray (plain e)
  | component => genericArray component

/-- The wildcard without bounds. -/
def unbounded : TypeExpr := wildcard [] []

/-- The wildcard below a bound. -/
def extending (bound : TypeExpr) : TypeExpr := wildcard [bound] []

/-- The wildcard above a bound. -/
def superOf (bound : TypeExpr) : TypeExpr := wildcard [] [bound]

def isWildcard : TypeExpr → Bool
  | wildcard _ _ => true
  | _ => false

mutual

/-- Type expressions are compared part by part. -/
def decEq : (a b : TypeExpr) → Decidable (a = b)
  | plain e, b =>
    match b with
    | plain e' => if h : e = e' then isTrue (by rw [h]) else isFalse (by simp [h])
    | parameterized .. | genericArray _ | wildcard .. | typeVar _ => isFalse (by simp)
  | parameterized raw args owner, b =>
    match b with
    | parameterized raw' args' owner' =>
      if h : raw = raw' then
        match decEqList args args', decEqOption owner owner' with
        | isTrue ha, isTrue ho => isTrue (by rw [h, ha, ho])
        | isFalse ha, _ => isFalse (by simp [ha])
        | _, isFalse ho => isFalse (by simp [ho])
      else isFalse (by simp [h])
    | plain _ | genericArray _ | wildcard .. | typeVar _ => isFalse (by simp)
  | genericArray component, b =>
    match b with
    | genericArray component' =>
      match decEq component component' with
      | isTrue h => isTrue (by rw [h])
      | isFalse h => isFalse (by simp [h])
    | plain _ | parameterized .. | wildcard .. | typeVar _ => isFalse (by simp)
  | wildcard upper lower, b =>
    match b with
    | wildcard upper' lower' =>
      match decEqList upper upper', decEqList lower lower' with
      | isTrue hu, isTrue hl => isTrue (by rw [hu, hl])
      | isFalse hu, _ => isFalse (by simp [hu])
      | _, isFalse hl => isFalse (by simp [hl])
    | plain _ | parameterized .. | genericArray _ | typeVar _ => isFalse (by simp)
  | typeVar v, b =>
    match b with
    | typeVar v' => if h : v = v' then isTrue (by rw [h]) else isFalse (by simp [h])
    | plain _ | parameterized .. | genericArray _ | wildcard .. => isFalse (by simp)

/-- Lists of type expressions are compared element by element. -/
def decEqList : (as bs : List TypeExpr) → Decidable (as = bs)
  | [], [] => isTrue rfl
  | [], _ :: _ => isFalse (by simp)
  | _ :: _, [] => isFalse (by simp)
  | a :: as, b :: bs =>
    match decEq a b, decEqList as bs with
    | isTrue h, isTrue hs => isTrue (by rw [h, hs])
    | isFalse h, _ => isFalse (by simp [h])
    | _, isFalse hs => isFalse (by simp [hs])

/-- Optional type expressions are compared by what they hold. -/
def decEqOption : (a b : Option TypeExpr) → Decidable (a = b)
  | none, none => isTrue rfl
  | none, some _ => isFalse (by simp)
  | some _, none => isFalse (by simp)
  | some a, some b =>
    match decEq a b with
    | isTrue h => isTrue (by rw [h])
    | isFalse h => isFalse (by simp [h])

end

instance : DecidableEq TypeExpr := decEq

end TypeExpr

end TypeConversion
