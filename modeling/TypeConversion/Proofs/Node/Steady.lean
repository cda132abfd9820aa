import TypeConversion.Proofs.Walk
import TypeConversion.Node.Navigate

/-!
# The walks over nodes are steady

A larger limit never changes what a walk over nodes found.  Walks that call each other are treated
together, by induction on the limit; the others follow from those they are put together from.
-/

namespace TypeConversion

namespace Node

open Walk

variable (r : Registry)

/-- What an optional node binds a variable to. -/
def variableIn (limit : Nat) (n : Option Node) (v : TypeVarId) : Walk (Option Node) :=
  match n with
  | none => some none
  | some n => resolveVariable r limit n v

theorem variableIn_some (limit : Nat) (n : Node) (v : TypeVarId) :
    variableIn r limit (some n) v = resolveVariable r limit n v := rfl

theorem resolveVariable_typeVar (limit : Nat) (w v : TypeVarId) (context : Option Node) :
    resolveVariable r (limit + 1) (written (.typeVar w) context) v = (do
      variableIn r limit (← resolveType r limit (written (.typeVar w) context)) v) := by
  rw [resolveVariable]
  refine congrArg _ (funext fun t => ?_)
  cases t <;> rfl

theorem resolveVariable_parameterized (limit : Nat) (raw : ClassId) (args : List TypeExpr)
    (owner : Option TypeExpr) (context : Option Node) (v : TypeVarId) :
    resolveVariable r (limit + 1) (written (.parameterized raw args owner) context) v =
      (match (r.typeParameters raw).idxOf? v with
      | some i => some (args[i]?.map fun a => written a context)
      | none => do
        match ← variableIn r limit (owner.map fun o => written o context) v with
        | some bound => return some bound
        | none => resolveInContext r limit context v) := by
  cases h : (r.typeParameters raw).idxOf? v with
  | some i => simp only [resolveVariable, h]; rfl
  | none =>
    cases owner with
    | none => simp only [resolveVariable, h]; rfl
    | some o => simp only [resolveVariable, h]; rfl

theorem resolveVariable_wildcard (limit : Nat) (upper lower : List TypeExpr)
    (context : Option Node) (v : TypeVarId) :
    resolveVariable r (limit + 1) (written (.wildcard upper lower) context) v = (do
      let t ← resolveType r limit (written (.wildcard upper lower) context)
      match ← variableIn r limit t v with
      | some bound => return some bound
      | none => resolveInContext r limit context v) := by
  rw [resolveVariable]
  refine congrArg _ (funext fun t => ?_)
  cases t <;> rfl

/-- One step, and the two ways of looking up a variable. -/
theorem resolving_extends (limit : Nat) : ∀ more, limit ≤ more →
    (∀ n, Extends (resolveType r limit n) (resolveType r more n)) ∧
    (∀ c v, Extends (resolveInContext r limit c v) (resolveInContext r more c v)) ∧
    (∀ n v, Extends (resolveVariable r limit n v) (resolveVariable r more n v)) := by
  induction limit with
  | zero =>
    intro more _
    refine ⟨fun n => .of_none _, ?_, fun n v => .of_none _⟩
    intro c v
    cases c with
    | none => simp [resolveInContext]
    | some n => exact .of_none _
  | succ limit ih =>
    intro more hle
    obtain ⟨more, rfl⟩ : ∃ k, more = k + 1 := ⟨more - 1, by omega⟩
    obtain ⟨htype, hcontext, hvariable⟩ := ih more (by omega)
    refine ⟨?_, ?_, ?_⟩
    · intro n
      rw [resolveType, resolveType]
      cases n.expr with
      | typeVar v =>
        refine (hcontext n.context v).bind ?_
        intro bound
        exact .refl _
      | plain _ | parameterized _ _ _ | genericArray _ | wildcard _ _ => exact .refl _
    · intro c v
      cases c with
      | none => simp [resolveInContext]
      | some n =>
        rw [resolveInContext, resolveInContext]
        exact hvariable n v
    · have hin : ∀ n v, Extends (variableIn r limit n v) (variableIn r more n v) := by
        intro n v
        cases n with
        | none => exact .refl _
        | some n => exact hvariable n v
      have helse : ∀ c v (bound : Option Node), Extends
          (match bound with
            | some bound => pure (some bound)
            | none => resolveInContext r limit c v)
          (match bound with
            | some bound => pure (some bound)
            | none => resolveInContext r more c v) := by
        intro c v bound
        cases bound with
        | none => exact hcontext c v
        | some bound => exact .refl _
      intro n v
      cases n with
      | applied _ _ _ => simp [resolveVariable]
      | arrayOf _ => simp [resolveVariable]
      | written e context =>
        cases e with
        | typeVar w =>
          rw [resolveVariable_typeVar, resolveVariable_typeVar]
          exact (htype _).bind fun t => hin t v
        | parameterized raw args owner =>
          rw [resolveVariable_parameterized, resolveVariable_parameterized]
          cases (r.typeParameters raw).idxOf? v with
          | some i => exact .refl _
          | none => exact (hin _ v).bind (helse context v)
        | wildcard upper lower =>
          rw [resolveVariable_wildcard, resolveVariable_wildcard]
          exact (htype _).bind fun t => (hin t v).bind (helse context v)
        | plain _ | genericArray _ =>
          rw [resolveVariable, resolveVariable]
          exact hcontext context v

theorem resolveType_steady (n : Node) : Steady fun limit => resolveType r limit n :=
  fun limit more hle => (resolving_extends r limit more hle).1 n

theorem resolveInContext_steady (c : Option Node) (v : TypeVarId) :
    Steady fun limit => resolveInContext r limit c v :=
  fun limit more hle => (resolving_extends r limit more hle).2.1 c v

theorem resolveVariable_steady (n : Node) (v : TypeVarId) :
    Steady fun limit => resolveVariable r limit n v :=
  fun limit more hle => (resolving_extends r limit more hle).2.2 n v

/-- A walk that takes single steps until it may stop is steady if it is at each place. -/
theorem steady_of_steps {α : Type} (w : Nat → Node → Walk α) (hzero : ∀ n, w 0 n = none)
    (hstep : ∀ limit more, limit ≤ more → (∀ n, Extends (w limit n) (w more n)) →
      ∀ n, Extends (w (limit + 1) n) (w (more + 1) n)) (n : Node) :
    Steady fun limit => w limit n := by
  intro limit
  induction limit generalizing n with
  | zero =>
    intro more _
    simp only [hzero]
    exact .of_none _
  | succ limit ih =>
    intro more hle
    obtain ⟨more, rfl⟩ : ∃ k, more = k + 1 := ⟨more - 1, by omega⟩
    exact hstep limit more (by omega) (fun n => ih n more (by omega)) n

theorem isArray_steady (n : Node) : Steady fun limit => isArray r limit n := by
  refine steady_of_steps (isArray r) (fun _ => rfl) ?_ n
  intro limit more hle ih n
  rw [isArray, isArray]
  cases n.expr with
  | plain _ | genericArray _ => exact .refl _
  | parameterized _ _ _ | wildcard _ _ | typeVar _ =>
    refine (resolveType_steady r n limit more hle).bind ?_
    intro t
    cases t with
    | none => exact .refl _
    | some t => exact ih t

theorem componentType_steady (n : Node) : Steady fun limit => componentType r limit n := by
  refine steady_of_steps (componentType r) (fun n => by cases n <;> rfl) ?_ n
  intro limit more hle ih n
  cases n with
  | arrayOf component => simp [componentType]
  | written _ _ | applied _ _ _ =>
    rw [componentType, componentType]
    · cases expr _ with
      | plain _ | genericArray _ => exact .refl _
      | parameterized _ _ _ | wildcard _ _ | typeVar _ =>
        refine (resolveType_steady r _ limit more hle).bind ?_
        intro t
        cases t with
        | none => exact .refl _
        | some t => exact ih t
    all_goals simp

theorem resolve_steady (n : Node) : Steady fun limit => resolve r limit n := by
  refine steady_of_steps (resolve r) (fun _ => rfl) ?_ n
  intro limit more hle ih n
  rw [resolve, resolve]
  cases n.expr with
  | plain _ => exact .refl _
  | genericArray _ =>
    refine (componentType_steady r n limit more hle).bind ?_
    intro c
    cases c with
    | none => exact .refl _
    | some c => exact (ih c).bind fun _ => .refl _
  | parameterized _ _ _ | wildcard _ _ | typeVar _ =>
    refine (resolveType_steady r n limit more hle).bind ?_
    intro t
    cases t with
    | none => exact .refl _
    | some t => exact ih t

theorem generics_steady (n : Node) : Steady fun limit => generics r limit n := by
  refine steady_of_steps (generics r) (fun n => by cases n <;> rfl) ?_ n
  intro limit more hle ih n
  cases n with
  | applied _ _ _ => simp [generics]
  | written _ _ | arrayOf _ =>
    rw [generics, generics]
    · cases expr _ with
      | plain _ | parameterized _ _ _ => exact .refl _
      | genericArray _ | wildcard _ _ | typeVar _ =>
        refine (resolveType_steady r _ limit more hle).bind ?_
        intro t
        cases t with
        | none => exact .refl _
        | some t => exact ih t
    all_goals simp

/-! ## Walks over optional nodes -/

theorem resolveOption_steady (n : Option Node) : Steady fun limit => resolveOption r limit n := by
  cases n with
  | none => exact .const _
  | some n => exact resolve_steady r n

theorem genericsOption_steady (n : Option Node) :
    Steady fun limit => genericsOption r limit n := by
  cases n with
  | none => exact .const _
  | some n => exact generics_steady r n

theorem superType_steady (n : Node) : Steady fun limit => superType r limit n := by
  refine (resolve_steady r n).bind ?_
  intro e
  cases e <;> exact .const _

theorem interfaces_steady (n : Node) : Steady fun limit => interfaces r limit n := by
  refine (resolve_steady r n).bind ?_
  intro e
  cases e <;> exact .const _

theorem genericAt_steady (path : List Nat) (n : Option Node) :
    Steady fun limit => genericAt r limit path n := by
  induction path generalizing n with
  | nil => exact .const _
  | cons i path ih =>
    refine (genericsOption_steady r n).bind ?_
    intro args
    cases args[i]? with
    | none => exact .const _
    | some arg => exact ih arg

theorem getGeneric_steady (path : List Nat) (n : Option Node) :
    Steady fun limit => getGeneric r limit path n := by
  cases path with
  | nil => exact (genericsOption_steady r n).bind fun _ => .const _
  | cons i path => exact genericAt_steady r (i :: path) n

/-- The view of a node and the first view among nodes. -/
theorem viewing_extends (limit : Nat) : ∀ more, limit ≤ more →
    (∀ n target, Extends (asErasure r limit n target) (asErasure r more n target)) ∧
    (∀ ns target, Extends (firstView r limit ns target) (firstView r more ns target)) := by
  induction limit with
  | zero =>
    intro more _
    constructor
    · intro n target
      cases n with
      | none => simp [asErasure]
      | some n => exact .of_none _
    · intro ns target
      cases ns with
      | nil => simp [firstView]
      | cons n rest => exact .of_none _
  | succ limit ih =>
    intro more hle
    obtain ⟨more, rfl⟩ : ∃ k, more = k + 1 := ⟨more - 1, by omega⟩
    obtain ⟨hview, hfirst⟩ := ih more (by omega)
    have hle : limit ≤ more := by omega
    constructor
    · intro n target
      cases n with
      | none => simp [asErasure]
      | some n =>
        rw [asErasure, asErasure]
        refine (resolve_steady r n limit more hle).bind ?_
        intro e
        cases e with
        | none => exact .refl _
        | some e =>
          dsimp only
          split
          · exact .refl _
          · refine (interfaces_steady r n limit more hle).bind ?_
            intro ns
            refine (hfirst ns target).bind ?_
            intro view
            cases view with
            | some view => exact .refl _
            | none =>
              refine (superType_steady r n limit more hle).bind ?_
              intro s
              exact hview s target
    · intro ns target
      cases ns with
      | nil => simp [firstView]
      | cons n rest =>
        rw [firstView, firstView]
        refine (hview (some n) target).bind ?_
        intro view
        cases view with
        | some view => exact .refl _
        | none => exact hfirst rest target

theorem asErasure_steady (n : Option Node) (target : Erasure) :
    Steady fun limit => asErasure r limit n target :=
  fun limit more hle => (viewing_extends r limit more hle).1 n target

theorem firstView_steady (ns : List Node) (target : Erasure) :
    Steady fun limit => firstView r limit ns target :=
  fun limit more hle => (viewing_extends r limit more hle).2 ns target

end Node

end TypeConversion
