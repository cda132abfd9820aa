import TypeConversion.Proofs.Registry.Ordered
import TypeConversion.Proofs.Node.Resolution

/-!
# Type expressions by substitution

What type expressions stand for when type arguments are put in place of type parameters in the text,
and not looked up in contexts: the erasure of an expression, its arguments along a path, and the
search for a supertype that instantiates each declared supertype before it goes on.

Expressions are closed if they are built from classes, parameterized types and arrays.  They are
proper for some variables if they mention no others and give every class all its arguments.
-/

namespace TypeConversion

namespace TypeExpr

/-- Type expressions that are put in place of type variables. -/
abbrev Bindings : Type := TypeVarId → Option TypeExpr

mutual

/-- A type expression with its variables replaced. -/
def instantiate (σ : Bindings) : TypeExpr → TypeExpr
  | plain e => plain e
  | parameterized raw args owner =>
    parameterized raw (instantiateAll σ args) (instantiateOption σ owner)
  | genericArray component => genericArray (instantiate σ component)
  | wildcard upper lower => wildcard (instantiateAll σ upper) (instantiateAll σ lower)
  | typeVar v => (σ v).getD (typeVar v)

/-- All type expressions of a list with their variables replaced. -/
def instantiateAll (σ : Bindings) : List TypeExpr → List TypeExpr
  | [] => []
  | t :: rest => instantiate σ t :: instantiateAll σ rest

/-- An optional type expression with its variables replaced. -/
def instantiateOption (σ : Bindings) : Option TypeExpr → Option TypeExpr
  | none => none
  | some t => some (instantiate σ t)

end

@[simp] theorem instantiateAll_eq_map (σ : Bindings) (ts : List TypeExpr) :
    instantiateAll σ ts = ts.map (instantiate σ) := by
  induction ts with
  | nil => rfl
  | cons t rest ih => rw [instantiateAll, ih, List.map_cons]

/-- The erasure of a type expression by itself, in which variables and wildcards have none. -/
def erasure? : TypeExpr → Option Erasure
  | plain e => some e
  | parameterized raw _ _ => some (.ofClass raw)
  | genericArray component => component.erasure?.bind (·.array?)
  | wildcard .. | typeVar _ => none

/-- The type arguments that are written in a type expression. -/
def arguments : TypeExpr → List TypeExpr
  | parameterized _ args _ => args
  | plain _ | genericArray _ | wildcard .. | typeVar _ => []

/-- The argument at a path of positions, each one level deeper than the one before. -/
def argumentAt? : List Nat → TypeExpr → Option TypeExpr
  | [], t => some t
  | i :: path, t => t.arguments[i]?.bind (argumentAt? path)

mutual

/-- A type expression built from classes, parameterized types and arrays. -/
def IsClosed : TypeExpr → Prop
  | plain _ => True
  | parameterized _ args owner => AllClosed args ∧ OptionClosed owner
  | genericArray component => IsClosed component
  | wildcard .. | typeVar _ => False

def AllClosed : List TypeExpr → Prop
  | [] => True
  | t :: rest => IsClosed t ∧ AllClosed rest

def OptionClosed : Option TypeExpr → Prop
  | none => True
  | some t => IsClosed t

end

mutual

/-- A type expression that mentions only some variables and no generic class without arguments. -/
def Proper (r : Registry) (vars : List TypeVarId) : TypeExpr → Prop
  | plain e => e.isArray = true ∨ r.typeParameters e.element = []
  | parameterized raw args owner =>
    args.length = (r.typeParameters raw).length ∧ AllProper r vars args ∧
      OptionProper r vars owner
  | genericArray component => Proper r vars component
  | wildcard .. => False
  | typeVar v => v ∈ vars

def AllProper (r : Registry) (vars : List TypeVarId) : List TypeExpr → Prop
  | [] => True
  | t :: rest => Proper r vars t ∧ AllProper r vars rest

def OptionProper (r : Registry) (vars : List TypeVarId) : Option TypeExpr → Prop
  | none => True
  | some t => Proper r vars t

end

/-- The variables that a type expression, as a context, gives meaning to. -/
def scope (r : Registry) : TypeExpr → List TypeVarId
  | parameterized raw _ _ => r.typeParameters raw
  | plain _ | genericArray _ | wildcard .. | typeVar _ => []

/-- A class with all its arguments, or an array. -/
def IsContext (r : Registry) : TypeExpr → Prop
  | plain e => e.isArray = true ∨ r.typeParameters e.element = []
  | parameterized raw args _ => args.length = (r.typeParameters raw).length
  | genericArray _ => True
  | wildcard .. | typeVar _ => False

/-- A generic class without its arguments. -/
def IsRaw (r : Registry) : TypeExpr → Prop
  | plain e => ¬e.isArray ∧ r.typeParameters e.element ≠ []
  | parameterized .. | genericArray _ | wildcard .. | typeVar _ => False

mutual

/-- A type expression in which no generic class stands without its arguments. -/
def IsComplete (r : Registry) : TypeExpr → Prop
  | plain e => ¬IsRaw r (plain e)
  | parameterized _ args _ => AllComplete r args
  | genericArray component => IsComplete r component
  | wildcard .. | typeVar _ => True

def AllComplete (r : Registry) : List TypeExpr → Prop
  | [] => True
  | t :: rest => IsComplete r t ∧ AllComplete r rest

end

mutual

/-- Whether a type expression is proper can be checked part by part. -/
def decProper (r : Registry) (vars : List TypeVarId) :
    (t : TypeExpr) → Decidable (t.Proper r vars)
  | plain e => inferInstanceAs (Decidable (e.isArray = true ∨ r.typeParameters e.element = []))
  | parameterized raw args owner =>
    have := decAllProper r vars args
    have := decOptionProper r vars owner
    inferInstanceAs (Decidable (args.length = (r.typeParameters raw).length ∧ _ ∧ _))
  | genericArray component => decProper r vars component
  | wildcard .. => isFalse id
  | typeVar v => inferInstanceAs (Decidable (v ∈ vars))

def decAllProper (r : Registry) (vars : List TypeVarId) :
    (ts : List TypeExpr) → Decidable (AllProper r vars ts)
  | [] => isTrue trivial
  | t :: rest =>
    have := decProper r vars t
    have := decAllProper r vars rest
    inferInstanceAs (Decidable (_ ∧ _))

def decOptionProper (r : Registry) (vars : List TypeVarId) :
    (t : Option TypeExpr) → Decidable (OptionProper r vars t)
  | none => isTrue trivial
  | some t => decProper r vars t

end

instance (r : Registry) (vars : List TypeVarId) (t : TypeExpr) : Decidable (t.Proper r vars) :=
  decProper r vars t

theorem allClosed_iff (ts : List TypeExpr) : AllClosed ts ↔ ∀ t ∈ ts, t.IsClosed := by
  induction ts with
  | nil => simp [AllClosed]
  | cons t rest ih => simp [AllClosed, ih]

theorem allProper_iff (r : Registry) (vars : List TypeVarId) (ts : List TypeExpr) :
    AllProper r vars ts ↔ ∀ t ∈ ts, t.Proper r vars := by
  induction ts with
  | nil => simp [AllProper]
  | cons t rest ih => simp [AllProper, ih]

theorem allComplete_iff (r : Registry) (ts : List TypeExpr) :
    AllComplete r ts ↔ ∀ t ∈ ts, t.IsComplete r := by
  induction ts with
  | nil => simp [AllComplete]
  | cons t rest ih => simp [AllComplete, ih]

/-- What closed bindings make of a proper type expression is closed. -/
theorem Proper.isClosed_instantiate {r : Registry} {vars : List TypeVarId} {σ : Bindings}
    (hσ : ∀ v ∈ vars, ∃ u, σ v = some u ∧ u.IsClosed) {t : TypeExpr} (h : t.Proper r vars) :
    (t.instantiate σ).IsClosed := by
  induction hw : t.weight using Nat.strong_induction_on generalizing t with
  | _ w ih =>
  subst hw
  cases t with
  | plain e => simp [instantiate, IsClosed]
  | typeVar v =>
    rcases hσ v h with ⟨u, hu, hclosed⟩
    simpa [instantiate, hu] using hclosed
  | wildcard upper lower => exact h.elim
  | genericArray component =>
    exact ih _ (by simp [weight]) (t := component) h rfl
  | parameterized raw args owner =>
    rcases h with ⟨-, hargs, howner⟩
    rw [instantiate, IsClosed, allClosed_iff, instantiateAll_eq_map]
    constructor
    · intro u hu
      rcases List.mem_map.mp hu with ⟨t, ht, rfl⟩
      have hlt := weight_le_weightAll ht
      exact ih _ (by rw [weight]; omega) ((allProper_iff ..).mp hargs t ht) rfl
    · cases owner with
      | none => trivial
      | some o => exact ih _ (by rw [weight, weightOption]; omega) (t := o) howner rfl

theorem IsComplete.not_isRaw {r : Registry} {t : TypeExpr} (h : t.IsComplete r) : ¬t.IsRaw r := by
  cases t with
  | plain e => exact h
  | parameterized _ _ _ | genericArray _ | wildcard _ _ | typeVar _ => exact id

/-- What complete bindings make of a proper type expression is complete. -/
theorem Proper.isComplete_instantiate {r : Registry} {vars : List TypeVarId} {σ : Bindings}
    (hσ : ∀ v ∈ vars, ∃ u, σ v = some u ∧ u.IsComplete r) {t : TypeExpr} (h : t.Proper r vars) :
    (t.instantiate σ).IsComplete r := by
  induction hw : t.weight using Nat.strong_induction_on generalizing t with
  | _ w ih =>
  subst hw
  cases t with
  | plain e => exact fun hraw => h.elim hraw.1 hraw.2
  | typeVar v =>
    rcases hσ v h with ⟨u, hu, hcomplete⟩
    simpa [instantiate, hu] using hcomplete
  | wildcard upper lower => exact h.elim
  | genericArray component =>
    exact ih _ (by simp [weight]) (t := component) h rfl
  | parameterized raw args owner =>
    rw [instantiate, IsComplete, allComplete_iff, instantiateAll_eq_map]
    intro u hu
    rcases List.mem_map.mp hu with ⟨t, ht, rfl⟩
    have hlt := weight_le_weightAll ht
    exact ih _ (by rw [weight]; omega) ((allProper_iff ..).mp h.2.1 t ht) rfl

theorem Proper.isContext {r : Registry} {vars : List TypeVarId} {t : TypeExpr}
    (h : t.Proper r vars) (hvar : ∀ v, t ≠ typeVar v) : t.IsContext r := by
  cases t with
  | plain e => exact h
  | parameterized raw args owner => exact h.1
  | genericArray component => trivial
  | wildcard _ _ => exact h.elim
  | typeVar v => exact (hvar v rfl).elim

theorem IsContext.instantiate {r : Registry} {t : TypeExpr} (h : t.IsContext r) (σ : Bindings) :
    (t.instantiate σ).IsContext r := by
  cases t with
  | parameterized raw args owner => simpa [TypeExpr.instantiate, IsContext] using h
  | typeVar v => exact h.elim
  | plain _ | genericArray _ | wildcard _ _ => exact h

theorem IsContext.scope_instantiate {r : Registry} {t : TypeExpr} (h : t.IsContext r)
    (σ : Bindings) : (t.instantiate σ).scope r = t.scope r := by
  cases t with
  | typeVar v => exact h.elim
  | plain _ | parameterized _ _ _ | genericArray _ | wildcard _ _ => rfl

end TypeExpr

/-- A class applied to type arguments. -/
def ClassId.applyTo (c : ClassId) (args : List TypeExpr) : TypeExpr :=
  if args = [] then .ofClass c else .parameterized c args none

namespace Registry

/-- What a type expression puts in place of the parameters of its class. -/
def bindings (r : Registry) : TypeExpr → TypeExpr.Bindings
  | .parameterized raw args _ => fun v => ((r.typeParameters raw).idxOf? v).bind (args[·]?)
  | .plain _ | .genericArray _ | .wildcard .. | .typeVar _ => fun _ => none

/-- The type parameters that the supertypes of an erasure may mention. -/
def parametersOf (r : Registry) (e : Erasure) : List TypeVarId :=
  if e.isArray then [] else r.typeParameters e.element

/-- The scope of a context consists of the parameters of its class. -/
theorem scope_eq_parametersOf {r : Registry} {t : TypeExpr} (h : t.IsContext r) {e : Erasure}
    (he : t.erasure? = some e) : t.scope r = r.parametersOf e := by
  cases t with
  | plain a =>
    obtain rfl : a = e := by simpa [TypeExpr.erasure?] using he
    rcases h with ha | ha
    · simp [TypeExpr.scope, parametersOf, ha]
    · simp [TypeExpr.scope, parametersOf, ha]
  | parameterized raw args owner =>
    obtain rfl : Erasure.ofClass raw = e := by simpa [TypeExpr.erasure?] using he
    simp [TypeExpr.scope, parametersOf]
  | genericArray component =>
    rcases Option.bind_eq_some_iff.mp he with ⟨c, -, hc⟩
    simp [TypeExpr.scope, parametersOf, Erasure.isArray_of_array? hc]
  | wildcard _ _ | typeVar _ => exact h.elim

/-- Where inheritance has no circles no declared supertype is a variable. -/
theorem isSupertype_ne_typeVar {r : Registry} (hi : r.AcyclicInheritance) {e : Erasure}
    {t : TypeExpr} (ht : r.IsSupertype e t) (v : TypeVarId) : t ≠ .typeVar v := by
  rintro rfl
  exact hi e (.single ⟨_, ht, .typeVar v e⟩)

/-- What a context puts in place of a variable of its scope is one of its arguments. -/
theorem exists_bindings_eq {r : Registry} {s : TypeExpr} (h : s.IsContext r) {v : TypeVarId}
    (hv : v ∈ s.scope r) : ∃ u ∈ s.arguments, r.bindings s v = some u := by
  cases s with
  | parameterized raw args owner =>
    obtain ⟨i, hi⟩ : ∃ i, (r.typeParameters raw).idxOf? v = some i :=
      Option.isSome_iff_exists.mp (List.isSome_idxOf?.mpr hv)
    rcases List.idxOf?_eq_some_iff.mp hi with ⟨hlt, -⟩
    have hlength : args.length = (r.typeParameters raw).length := h
    have hlt : i < args.length := by omega
    exact ⟨args[i], List.getElem_mem hlt, by simp [bindings, hi, hlt]⟩
  | plain _ | genericArray _ | wildcard _ _ | typeVar _ => simp [TypeExpr.scope] at hv

/--
Declared types mention only the type parameters of the declaring class, and give every class all its
arguments.
-/
structure FullyParameterized (r : Registry) : Prop where
  supertypes : ∀ e t, r.IsSupertype e t → t.Proper r (r.parametersOf e)
  fields : ∀ c name d, r.field? c name = some d → d.type.Proper r (r.typeParameters c)
  params : ∀ c name m, r.method? c name = some m → ∀ p ∈ m.params,
    p.type.Proper r (r.typeParameters c)
  returns : ∀ c name m, r.method? c name = some m → ∀ t, m.returnType = some t →
    t.Proper r (r.typeParameters c)

/-- All types that a class declares are proper for its parameters. -/
def declaresProper (r : Registry) (c : ClassId) (d : ClassDef) : Bool :=
  (r.supertypeExprs (.ofClass c)).all (·.Proper r d.typeParams) &&
    d.fields.all (·.type.Proper r d.typeParams) &&
    d.methods.all fun m =>
      m.params.all (·.type.Proper r d.typeParams) && m.returnType.all (·.Proper r d.typeParams)

/-- All classes declare proper types, and what arrays extend and implement has no parameters. -/
def isFullyParameterized (r : Registry) : Bool :=
  (r.numbered.all fun (c, d) => r.declaresProper c d) &&
    [r.wellKnown.object, r.wellKnown.cloneable, r.wellKnown.serializable].all
      fun c => r.typeParameters c = []

/-- What holds of the supertypes that classes declare, and of those of arrays, holds of all. -/
theorem supertype_of_checks {r : Registry} {P : List TypeVarId → TypeExpr → Prop}
    (hclasses : ∀ c d, r.class? c = some d →
      ∀ t ∈ r.supertypeExprs (.ofClass c), P d.typeParams t)
    (harrays : ∀ c ∈ [r.wellKnown.object, r.wellKnown.cloneable, r.wellKnown.serializable],
      P [] (.ofClass c))
    {e : Erasure} {t : TypeExpr} (ht : r.IsSupertype e t) : P (r.parametersOf e) t := by
  cases harray : e.isArray with
  | true =>
    rcases exists_of_isSupertype_of_isArray harray ht with ⟨c, hc, rfl⟩
    simpa [parametersOf, harray] using harrays c hc
  | false =>
    rcases exists_eq_ofClass harray with ⟨c, rfl⟩
    rcases exists_class?_of_isSupertype ht with ⟨d, hd⟩
    have hscope : r.parametersOf (.ofClass c) = d.typeParams := by
      simp [parametersOf, typeParameters, hd]
    rw [hscope]
    exact hclasses c d hd t ((isSupertype_iff_mem ..).mp ht)

theorem fullyParameterized_of_check {r : Registry} (h : r.isFullyParameterized = true) :
    r.FullyParameterized := by
  rw [isFullyParameterized, Bool.and_eq_true, List.all_eq_true, List.all_eq_true] at h
  rcases h with ⟨hclasses, harrays⟩
  have hdeclares : ∀ c d, r.class? c = some d → r.declaresProper c d = true :=
    fun c d hd => hclasses (c, d) (mem_numbered hd)
  have hparams : ∀ c d, r.class? c = some d → r.typeParameters c = d.typeParams :=
    fun c d hd => by simp [typeParameters, hd]
  have hmethod : ∀ c name m, r.method? c name = some m → ∃ d, r.class? c = some d ∧
      (∀ p ∈ m.params, p.type.Proper r d.typeParams) ∧
      ∀ t, m.returnType = some t → t.Proper r d.typeParams := by
    intro c name m hm
    rcases Option.bind_eq_some_iff.mp hm with ⟨d, hd, hm⟩
    have hmem : m ∈ d.methods := List.mem_of_find?_eq_some hm
    have := hdeclares c d hd
    simp only [declaresProper, Bool.and_eq_true, List.all_eq_true, decide_eq_true_eq] at this
    rcases this with ⟨-, hmethods⟩
    rcases hmethods m hmem with ⟨hp, hr⟩
    refine ⟨d, hd, hp, ?_⟩
    intro t ht
    simpa [ht] using hr
  constructor
  · intro e t ht
    refine supertype_of_checks (fun c d hd t ht => ?_) (fun c hc => ?_) ht
    · have := hdeclares c d hd
      simp only [declaresProper, Bool.and_eq_true, List.all_eq_true, decide_eq_true_eq] at this
      exact this.1.1 t ht
    · exact .inr (by simpa using harrays c hc)
  · intro c name d hd
    rcases Option.bind_eq_some_iff.mp hd with ⟨cd, hcd, hfind⟩
    have := hdeclares c cd hcd
    simp only [declaresProper, Bool.and_eq_true, List.all_eq_true, decide_eq_true_eq] at this
    rw [hparams c cd hcd]
    exact this.1.2 d (List.mem_of_find?_eq_some hfind)
  · intro c name m hm p hp
    rcases hmethod c name m hm with ⟨d, hd, hps, -⟩
    rw [hparams c d hd]
    exact hps p hp
  · intro c name m hm t ht
    rcases hmethod c name m hm with ⟨d, hd, -, hr⟩
    rw [hparams c d hd]
    exact hr t ht

/-- A type expression and one of its declared supertypes, with the variables replaced. -/
def HasSupertype (r : Registry) (s t : TypeExpr) : Prop :=
  ∃ e u, s.erasure? = some e ∧ r.IsSupertype e u ∧ t = u.instantiate (r.bindings s)

/-- A type expression and one of its ancestors, or itself. -/
def Descends (r : Registry) : TypeExpr → TypeExpr → Prop := Relation.ReflTransGen r.HasSupertype

mutual

/--
The supertype of a type expression that has an erasure, found by substitution: the expression itself
if it has this erasure or none, else the first one found among its interfaces, else the one found
from its superclass.
-/
def eagerView (r : Registry) : Nat → TypeExpr → Erasure → Walk (Option TypeExpr)
  | 0, _, _ => none
  | limit + 1, t, target =>
    match t.erasure? with
    | none => some (some t)
    | some e =>
      if e = target then some (some t)
      else do
        let interfaces := (r.genericInterfaces e).map (·.instantiate (r.bindings t))
        match ← firstEagerView r limit interfaces target with
        | some view => return some view
        | none =>
          match r.genericSuperclass e with
          | some s => eagerView r limit (s.instantiate (r.bindings t)) target
          | none => return none

/-- The first supertype found among type expressions. -/
def firstEagerView (r : Registry) : Nat → List TypeExpr → Erasure → Walk (Option TypeExpr)
  | _, [], _ => some none
  | 0, _ :: _, _ => none
  | limit + 1, t :: rest, target => do
    match ← eagerView r limit t target with
    | some view => return some view
    | none => firstEagerView r limit rest target

end

end Registry

end TypeConversion
