import TypeConversion.Proofs.Node.Steady

/-!
# What nodes resolve to

The walks over nodes as relations between nodes and what is found, without limits, and for each of
them the rules by which it is found.
-/

namespace TypeConversion

namespace TypeExpr

/-- Whether a type expression is a class without arguments or an array. -/
def isFinal : TypeExpr → Bool
  | plain _ | genericArray _ => true
  | parameterized .. | wildcard .. | typeVar _ => false

/-- Whether a type expression is a class, with arguments or without, or an array of a class. -/
def isClass : TypeExpr → Bool
  | plain _ | parameterized .. => true
  | genericArray _ | wildcard .. | typeVar _ => false

/-- An array is written as one. -/
theorem arrayOf_cases (t : TypeExpr) :
    (∃ e a, t = plain e ∧ e.array? = some a ∧ t.arrayOf = plain a) ∨
      t.arrayOf = genericArray t := by
  cases t with
  | plain e =>
    cases h : e.array? with
    | some a => exact .inl ⟨e, a, rfl, h, by simp [arrayOf, h]⟩
    | none => exact .inr (by simp [arrayOf, h])
  | parameterized _ _ _ | genericArray _ | wildcard _ _ | typeVar _ => exact .inr rfl

theorem isFinal_arrayOf (t : TypeExpr) : t.arrayOf.isFinal = true := by
  rcases t.arrayOf_cases with ⟨e, a, -, -, h⟩ | h <;> rw [h] <;> rfl

end TypeExpr

namespace Erasure

/-- The array of an erasure has one dimension more, within bounds. -/
theorem array?_eq_some_iff (e a : Erasure) :
    e.array? = some a ↔ e.dims.toNat + 1 < 256 ∧ a = ⟨e.element, e.dims + 1⟩ := by
  rw [array?]
  have hdims : e.dims = 255 ↔ e.dims.toNat = 255 := by
    rw [← UInt8.toNat_inj]
    rfl
  have hbound := e.dims.toNat_lt
  by_cases h : e.dims = 255
  · simp [h]
  · have h' : e.dims.toNat ≠ 255 := fun heq => h (hdims.mpr heq)
    have hlt : e.dims.toNat + 1 < 256 := by omega
    simp [h, hlt, eq_comm]

theorem toNat_dims_of_array? {e a : Erasure} (h : e.array? = some a) :
    a.dims.toNat = e.dims.toNat + 1 := by
  rcases (array?_eq_some_iff e a).mp h with ⟨hlt, rfl⟩
  simp [UInt8.toNat_add]
  omega

theorem isArray_iff (e : Erasure) : e.isArray = true ↔ 0 < e.dims.toNat := by
  have h : e.dims = 0 ↔ e.dims.toNat = 0 := by
    rw [← UInt8.toNat_inj]
    rfl
  simp [isArray, h, Nat.pos_iff_ne_zero]

theorem toNat_dims_of_component? {e c : Erasure} (h : e.component? = some c) :
    c.dims.toNat + 1 = e.dims.toNat := by
  rw [component?] at h
  cases harray : e.isArray with
  | false => simp [harray] at h
  | true =>
    have hpos := (isArray_iff e).mp harray
    have hbound := e.dims.toNat_lt
    obtain rfl : ⟨e.element, e.dims - 1⟩ = c := by simpa [harray] using h
    have hone : (1 : UInt8) ≤ e.dims := by
      rw [UInt8.le_iff_toNat_le]
      exact hpos
    rw [UInt8.toNat_sub_of_le _ _ hone]
    change e.dims.toNat - 1 + 1 = _
    omega

theorem isArray_of_array? {e a : Erasure} (h : e.array? = some a) : a.isArray = true := by
  rw [isArray_iff, toNat_dims_of_array? h]
  omega

theorem component?_of_array? {e a : Erasure} (h : e.array? = some a) :
    a.component? = some e := by
  have harray := isArray_of_array? h
  obtain ⟨-, rfl⟩ := (array?_eq_some_iff e a).mp h
  simp [component?, harray]

/-- The array of what an array consists of is the array. -/
theorem array?_of_component? {e c : Erasure} (h : e.component? = some c) : c.array? = some e := by
  have hdims := toNat_dims_of_component? h
  have hbound := e.dims.toNat_lt
  rw [array?_eq_some_iff]
  refine ⟨by omega, ?_⟩
  have helement : c.element = e.element := by
    rw [component?] at h
    split at h
    · obtain rfl := Option.some.inj h
      rfl
    · simp at h
  have hsum : (c.dims + 1).toNat = e.dims.toNat := by
    rw [UInt8.toNat_add]
    change (c.dims.toNat + 1) % 256 = _
    omega
  have heq : c.dims + 1 = e.dims := UInt8.toNat_inj.mp hsum
  rw [helement, heq]

theorem array_eq_of_array? {e a : Erasure} (h : e.array? = some a) : e.array = a := by
  rw [array, h, Option.getD_some]

end Erasure

namespace Node

open Walk

variable (r : Registry)

/-- A single step from a node leads to another, or there is none to take. -/
def StepsTo (n : Node) (t : Option Node) : Prop := Finds (fun limit => resolveType r limit n) t

/-- What an optional context binds a variable to. -/
def Binds (c : Option Node) (v : TypeVarId) (bound : Option Node) : Prop :=
  Finds (fun limit => resolveInContext r limit c v) bound

/-- What an optional node binds a variable to. -/
def VariableIs (n : Option Node) (v : TypeVarId) (bound : Option Node) : Prop :=
  Finds (fun limit => variableIn r limit n v) bound

/-- Whether a node is found to be an array. -/
def ArrayIs (n : Node) (b : Bool) : Prop := Finds (fun limit => isArray r limit n) b

/-- The array component of a node. -/
def ComponentIs (n : Node) (c : Option Node) : Prop :=
  Finds (fun limit => componentType r limit n) c

/-- The erasure of a node. -/
def ResolvesTo (n : Node) (e : Option Erasure) : Prop := Finds (fun limit => resolve r limit n) e

/-- The type arguments of a node. -/
def GenericsAre (n : Node) (args : List (Option Node)) : Prop :=
  Finds (fun limit => generics r limit n) args

/-- The view of an optional node as an erasure. -/
def ViewIs (n : Option Node) (target : Erasure) (view : Option Node) : Prop :=
  Finds (fun limit => asErasure r limit n target) view

/-- The first view among nodes. -/
def FirstViewIs (ns : List Node) (target : Erasure) (view : Option Node) : Prop :=
  Finds (fun limit => firstView r limit ns target) view

variable {r}

/-! ## Single steps -/

theorem StepsTo.unique {n : Node} {t u : Option Node} (ht : StepsTo r n t) (hu : StepsTo r n u) :
    t = u :=
  Finds.unique (resolveType_steady r n) ht hu

theorem variableIn_steady (n : Option Node) (v : TypeVarId) :
    Steady fun limit => variableIn r limit n v := by
  cases n with
  | none => exact .const _
  | some n => exact resolveVariable_steady r n v

/-- A walk that answers at once under every limit but zero. -/
theorem finds_of_eq {α : Type} {w : Nat → Walk α} (hw : w 0 = none) {a b : α}
    (h : ∀ limit, w (limit + 1) = some a) : Finds w b ↔ b = a := by
  rw [finds_succ_iff hw]
  simp only [h, finds_const_iff, Option.some.injEq]
  exact eq_comm

theorem stepsTo_of_plain {n : Node} {e : Erasure} (h : n.expr = .plain e) (t : Option Node) :
    StepsTo r n t ↔ t = none :=
  finds_of_eq rfl fun limit => by rw [resolveType, h]

theorem stepsTo_of_genericArray {n : Node} {c : TypeExpr} (h : n.expr = .genericArray c)
    (t : Option Node) : StepsTo r n t ↔ t = none :=
  finds_of_eq rfl fun limit => by rw [resolveType, h]

theorem stepsTo_of_parameterized {n : Node} {raw : ClassId} {args : List TypeExpr}
    {owner : Option TypeExpr} (h : n.expr = .parameterized raw args owner) (t : Option Node) :
    StepsTo r n t ↔ t = some (n.sibling (.ofClass raw)) :=
  finds_of_eq rfl fun limit => by rw [resolveType, h]

theorem stepsTo_of_wildcard {n : Node} {upper lower : List TypeExpr}
    (h : n.expr = .wildcard upper lower) (t : Option Node) :
    StepsTo r n t ↔ t = (r.wildcardBound? upper lower).map n.sibling :=
  finds_of_eq rfl fun limit => by rw [resolveType, h]

theorem stepsTo_of_typeVar {n : Node} {v : TypeVarId} (h : n.expr = .typeVar v)
    (t : Option Node) :
    StepsTo r n t ↔ ∃ bound, Binds r n.context v bound ∧
      t = bound.or ((r.declaredBound? v).map n.sibling) := by
  have hstep : ∀ limit, resolveType r (limit + 1) n =
      resolveInContext r limit n.context v >>= fun bound =>
        some (bound.or ((r.declaredBound? v).map n.sibling)) := by
    intro limit
    rw [resolveType]
    simp only [h]
    refine congrArg _ (funext fun bound => ?_)
    cases bound <;> rfl
  rw [StepsTo, finds_succ_iff rfl]
  simp only [hstep]
  rw [finds_bind_iff (resolveInContext_steady r n.context v) fun _ => .const _]
  simp only [finds_const_iff, Option.some.injEq, eq_comm, Binds]

/-! ## Variables -/

theorem binds_none_iff (v : TypeVarId) (bound : Option Node) :
    Binds r none v bound ↔ bound = none := by
  simp only [Binds, resolveInContext, finds_const_iff, Option.some.injEq]
  exact eq_comm

theorem binds_some_iff (n : Node) (v : TypeVarId) (bound : Option Node) :
    Binds r (some n) v bound ↔ VariableIs r (some n) v bound := by
  rw [Binds, finds_succ_iff rfl]
  rfl

theorem variableIs_none_iff (v : TypeVarId) (bound : Option Node) :
    VariableIs r none v bound ↔ bound = none := by
  simp only [VariableIs, variableIn, finds_const_iff, Option.some.injEq]
  exact eq_comm

theorem binds_iff (c : Option Node) (v : TypeVarId) (bound : Option Node) :
    Binds r c v bound ↔ VariableIs r c v bound := by
  cases c with
  | none => rw [binds_none_iff, variableIs_none_iff]
  | some n => exact binds_some_iff n v bound

theorem variableIs_applied_iff (raw : ClassId) (params : List TypeVarId)
    (given : List (Option Node)) (v : TypeVarId) (bound : Option Node) :
    VariableIs r (some (applied raw params given)) v bound ↔
      bound = (params.idxOf? v).bind fun i => given[i]?.join :=
  finds_of_eq rfl fun limit => by rw [variableIn, resolveVariable]

/-- What is bound by a class with given arguments is one of them. -/
theorem mem_given_of_variableIs {raw : ClassId} {params : List TypeVarId}
    {given : List (Option Node)} {v : TypeVarId} {b : Node}
    (h : VariableIs r (some (applied raw params given)) v (some b)) : some b ∈ given := by
  rcases Option.bind_eq_some_iff.mp ((variableIs_applied_iff ..).mp h).symm with ⟨i, -, hi⟩
  obtain ⟨o, ho, rfl⟩ : ∃ o, given[i]? = some o ∧ o = some b := by
    simpa [Option.join_eq_some_iff] using hi
  exact List.mem_of_getElem? ho

theorem variableIs_arrayOf_iff (n : Node) (v : TypeVarId) (bound : Option Node) :
    VariableIs r (some (arrayOf n)) v bound ↔ bound = none :=
  finds_of_eq rfl fun limit => by rw [variableIn, resolveVariable]

theorem variableIs_plain_iff (e : Erasure) (c : Option Node) (v : TypeVarId)
    (bound : Option Node) :
    VariableIs r (some (written (.plain e) c)) v bound ↔ VariableIs r c v bound := by
  rw [← binds_iff c v bound, VariableIs, finds_succ_iff rfl]
  simp only [variableIn, resolveVariable]
  rfl

theorem variableIs_genericArray_iff (t : TypeExpr) (c : Option Node) (v : TypeVarId)
    (bound : Option Node) :
    VariableIs r (some (written (.genericArray t) c)) v bound ↔ VariableIs r c v bound := by
  rw [← binds_iff c v bound, VariableIs, finds_succ_iff rfl]
  simp only [variableIn, resolveVariable]
  rfl

theorem variableIs_typeVar_iff (w : TypeVarId) (c : Option Node) (v : TypeVarId)
    (bound : Option Node) :
    VariableIs r (some (written (.typeVar w) c)) v bound ↔
      ∃ t, StepsTo r (written (.typeVar w) c) t ∧ VariableIs r t v bound := by
  rw [VariableIs, finds_succ_iff rfl]
  simp only [variableIn_some, resolveVariable_typeVar]
  exact finds_bind_iff (resolveType_steady r _) fun t => variableIn_steady t v

/-- A lookup that falls back to a context. -/
def OrElse (c : Option Node) (v : TypeVarId) (first bound : Option Node) : Prop :=
  match first with
  | some found => bound = some found
  | none => VariableIs r c v bound

private theorem finds_orElse_iff {w : Nat → Walk (Option Node)} (hw : Steady w) (c : Option Node)
    (v : TypeVarId) (bound : Option Node) :
    Finds (fun limit => w limit >>= fun first =>
        match first with
        | some found => pure (some found)
        | none => resolveInContext r limit c v) bound ↔
      ∃ first, Finds w first ∧ OrElse (r := r) c v first bound := by
  have hsteady : ∀ first : Option Node, Steady fun limit =>
      (match first with
        | some found => pure (some found)
        | none => resolveInContext r limit c v : Walk (Option Node)) := by
    intro first
    cases first with
    | none => exact resolveInContext_steady r c v
    | some found => exact .const _
  rw [finds_bind_iff hw hsteady]
  refine exists_congr fun first => and_congr_right fun _ => ?_
  cases first with
  | none => exact binds_iff c v bound
  | some found =>
    simp only [finds_const_iff, OrElse, Option.pure_def, Option.some.injEq]
    exact eq_comm

theorem variableIs_parameterized_iff (raw : ClassId) (args : List TypeExpr)
    (owner : Option TypeExpr) (c : Option Node) (v : TypeVarId) (bound : Option Node) :
    VariableIs r (some (written (.parameterized raw args owner) c)) v bound ↔
      match (r.typeParameters raw).idxOf? v with
      | some i => bound = args[i]?.map fun a => written a c
      | none => ∃ first, VariableIs r (owner.map fun o => written o c) v first ∧
          OrElse (r := r) c v first bound := by
  rw [VariableIs, finds_succ_iff rfl]
  simp only [variableIn_some, resolveVariable_parameterized]
  cases (r.typeParameters raw).idxOf? v with
  | some i =>
    simp only [finds_const_iff, Option.some.injEq]
    exact eq_comm
  | none => exact finds_orElse_iff (variableIn_steady _ v) c v bound

theorem variableIs_wildcard_iff (upper lower : List TypeExpr) (c : Option Node) (v : TypeVarId)
    (bound : Option Node) :
    VariableIs r (some (written (.wildcard upper lower) c)) v bound ↔
      ∃ first, VariableIs r ((r.wildcardBound? upper lower).map fun b => written b c) v first ∧
        OrElse (r := r) c v first bound := by
  rw [VariableIs, finds_succ_iff rfl]
  simp only [variableIn_some, resolveVariable_wildcard]
  have hsteady : ∀ t : Option Node, Steady fun limit =>
      variableIn r limit t v >>= fun first =>
        match first with
        | some found => pure (some found)
        | none => resolveInContext r limit c v := by
    intro t
    refine (variableIn_steady t v).bind ?_
    intro first
    cases first with
    | none => exact resolveInContext_steady r c v
    | some found => exact .const _
  refine (finds_bind_iff (resolveType_steady r _) hsteady).trans ?_
  constructor
  · rintro ⟨t, ht, hfound⟩
    obtain rfl := (stepsTo_of_wildcard (expr_written ..) t).mp ht
    exact (finds_orElse_iff (variableIn_steady _ v) c v bound).mp hfound
  · intro h
    exact ⟨_, (stepsTo_of_wildcard (expr_written ..) _).mpr rfl,
      (finds_orElse_iff (variableIn_steady _ v) c v bound).mpr h⟩

/-! ## Walks by single steps -/

/-- A walk that goes on where a step leads, and answers by default where there is none. -/
theorem finds_step_iff {α : Type} {w : Nat → Node → Walk α}
    (hw : ∀ n, Steady fun limit => w limit n)
    {n : Node} {d : α} (hzero : w 0 n = none)
    (hstep : ∀ limit, w (limit + 1) n = resolveType r limit n >>= fun t =>
      match t with
      | some t => w limit t
      | none => some d) (a : α) :
    Finds (fun limit => w limit n) a ↔
      ∃ t, StepsTo r n t ∧
        match t with
        | some t => Finds (fun limit => w limit t) a
        | none => a = d := by
  rw [finds_succ_iff hzero]
  simp only [hstep]
  have hsteady : ∀ t : Option Node, Steady fun limit =>
      (match t with
        | some t => w limit t
        | none => some d : Walk α) := by
    intro t
    cases t with
    | none => exact .const _
    | some t => exact hw t
  refine (finds_bind_iff (resolveType_steady r n) hsteady).trans ?_
  refine exists_congr fun t => and_congr_right fun _ => ?_
  cases t with
  | none =>
    simp only [finds_const_iff, Option.some.injEq]
    exact eq_comm
  | some t => rfl

theorem arrayIs_of_plain {n : Node} {e : Erasure} (h : n.expr = .plain e) (b : Bool) :
    ArrayIs r n b ↔ b = e.isArray :=
  finds_of_eq rfl fun limit => by rw [isArray, h]

theorem arrayIs_of_genericArray {n : Node} {c : TypeExpr} (h : n.expr = .genericArray c)
    (b : Bool) : ArrayIs r n b ↔ b = true :=
  finds_of_eq rfl fun limit => by rw [isArray, h]

theorem isArray_of_step {n : Node} (h : n.expr.isFinal = false) (limit : Nat) :
    isArray r (limit + 1) n =
      resolveType r limit n >>= fun t =>
        match t with
        | some t => isArray r limit t
        | none => some false := by
  rw [isArray]
  cases he : n.expr <;> first | rfl | simp [he, TypeExpr.isFinal] at h

theorem arrayIs_of_step {n : Node} (h : n.expr.isFinal = false) (b : Bool) :
    ArrayIs r n b ↔
      ∃ t, StepsTo r n t ∧
        match t with
        | some t => ArrayIs r t b
        | none => b = false :=
  finds_step_iff (isArray_steady r) rfl (isArray_of_step h) b

theorem componentIs_arrayOf_iff (n : Node) (c : Option Node) :
    ComponentIs r (arrayOf n) c ↔ c = some n :=
  finds_of_eq rfl fun limit => by rw [componentType]

theorem componentIs_plain_iff (e : Erasure) (context c : Option Node) :
    ComponentIs r (written (.plain e) context) c ↔
      c = e.component?.map fun e => written (.plain e) context :=
  finds_of_eq rfl fun limit => by rw [componentType] <;> simp [sibling]

theorem componentIs_genericArray_iff (t : TypeExpr) (context c : Option Node) :
    ComponentIs r (written (.genericArray t) context) c ↔ c = some (written t context) :=
  finds_of_eq rfl fun limit => by rw [componentType] <;> simp [sibling]

theorem componentType_of_step {n : Node} (h : n.expr.isFinal = false) (limit : Nat) :
    componentType r (limit + 1) n =
      resolveType r limit n >>= fun t =>
        match t with
        | some t => componentType r limit t
        | none => some none := by
  cases n with
  | arrayOf n =>
    rw [expr, TypeExpr.isFinal_arrayOf] at h
    simp at h
  | written _ _ | applied _ _ _ =>
    rw [componentType]
    · cases he : expr _ <;> first | rfl | simp [he, TypeExpr.isFinal] at h
    · simp

theorem componentIs_of_step {n : Node} (h : n.expr.isFinal = false) (c : Option Node) :
    ComponentIs r n c ↔
      ∃ t, StepsTo r n t ∧
        match t with
        | some t => ComponentIs r t c
        | none => c = none :=
  finds_step_iff (componentType_steady r) (by cases n <;> rfl) (componentType_of_step h) c

theorem resolvesTo_of_plain {n : Node} {e : Erasure} (h : n.expr = .plain e)
    (found : Option Erasure) : ResolvesTo r n found ↔ found = some e :=
  finds_of_eq rfl fun limit => by rw [resolve, h]

theorem resolvesTo_of_step {n : Node} (h : n.expr.isFinal = false) (found : Option Erasure) :
    ResolvesTo r n found ↔
      ∃ t, StepsTo r n t ∧
        match t with
        | some t => ResolvesTo r t found
        | none => found = none := by
  refine finds_step_iff (resolve_steady r) rfl ?_ found
  intro limit
  rw [resolve]
  cases he : n.expr <;> first | rfl | simp [he, TypeExpr.isFinal] at h

/-- Where a step is taken, the walk goes on under the next smaller limit. -/
theorem exists_step_of_resolve {n : Node} (h : n.expr.isFinal = false) {limit : Nat}
    {e : Option Erasure} (he : resolve r (limit + 1) n = some e) :
    ∃ t, StepsTo r n t ∧
      match t with
      | some t => resolve r limit t = some e
      | none => e = none := by
  rw [resolve] at he
  cases hexpr : n.expr with
  | plain _ | genericArray _ => simp [hexpr, TypeExpr.isFinal] at h
  | parameterized _ _ _ | wildcard _ _ | typeVar _ =>
    simp only [hexpr] at he
    obtain ⟨t, ht, he⟩ := Option.bind_eq_some_iff.mp he
    refine ⟨t, .intro limit ht, ?_⟩
    cases t with
    | none => exact (Option.some.inj he).symm
    | some t => exact he

theorem resolvesTo_of_genericArray {n : Node} {t : TypeExpr} (h : n.expr = .genericArray t)
    (found : Option Erasure) :
    ResolvesTo r n found ↔
      ∃ c, ComponentIs r n c ∧
        match c with
        | some c => ∃ e, ResolvesTo r c e ∧ found = e.bind (·.array?)
        | none => found = none := by
  have hstep : ∀ limit, resolve r (limit + 1) n =
      componentType r limit n >>= fun c =>
        match c with
        | some c => resolve r limit c >>= fun e => some (e.bind (·.array?))
        | none => some none := by
    intro limit
    rw [resolve]
    simp only [h]
    rfl
  have hsteady : ∀ c : Option Node, Steady fun limit =>
      (match c with
        | some c => resolve r limit c >>= fun e => some (e.bind (·.array?))
        | none => some none : Walk (Option Erasure)) := by
    intro c
    cases c with
    | none => exact .const _
    | some c => exact (resolve_steady r c).bind fun _ => .const _
  rw [ResolvesTo, finds_succ_iff rfl]
  simp only [hstep]
  refine (finds_bind_iff (componentType_steady r n) hsteady).trans ?_
  refine exists_congr fun c => and_congr_right fun _ => ?_
  cases c with
  | none =>
    simp only [finds_const_iff, Option.some.injEq]
    exact eq_comm
  | some c =>
    refine (finds_bind_iff (resolve_steady r c) fun _ => .const _).trans ?_
    simp only [finds_const_iff, Option.some.injEq, eq_comm, ResolvesTo]

theorem genericsAre_applied_iff (raw : ClassId) (params : List TypeVarId)
    (given args : List (Option Node)) :
    GenericsAre r (applied raw params given) args ↔ args = given :=
  finds_of_eq rfl fun limit => by rw [generics]

theorem genericsAre_plain_iff (e : Erasure) (context : Option Node) (args : List (Option Node)) :
    GenericsAre r (written (.plain e) context) args ↔
      args = (e.asClass?.elim [] r.typeParameters).map fun v =>
        some (written (.typeVar v) (some (written (.plain e) context))) :=
  finds_of_eq rfl fun limit => by rw [generics] <;> simp

theorem genericsAre_parameterized_iff (raw : ClassId) (ts : List TypeExpr)
    (owner : Option TypeExpr) (context : Option Node) (args : List (Option Node)) :
    GenericsAre r (written (.parameterized raw ts owner) context) args ↔
      args = ts.map fun t => some (written t context) :=
  finds_of_eq rfl fun limit => by rw [generics] <;> simp [sibling]

theorem genericsAre_of_step {e : TypeExpr} {context : Option Node} (h : e.isClass = false)
    (args : List (Option Node)) :
    GenericsAre r (written e context) args ↔
      ∃ t, StepsTo r (written e context) t ∧
        match t with
        | some t => GenericsAre r t args
        | none => args = [] := by
  refine finds_step_iff (generics_steady r) rfl ?_ args
  intro limit
  rw [generics]
  · cases e <;> first | rfl | simp [TypeExpr.isClass] at h
  · simp

theorem genericsAre_arrayOf_iff (n : Node) (args : List (Option Node)) :
    GenericsAre r (arrayOf n) args ↔ args = [] := by
  rcases n.expr.arrayOf_cases with ⟨e, a, -, ha, h⟩ | h
  · refine finds_of_eq rfl fun limit => ?_
    rw [generics] <;> simp [expr, h, Erasure.asClass?, Erasure.isArray_of_array? ha]
  · rw [GenericsAre, finds_step_iff (d := []) (generics_steady r) rfl]
    · simp [stepsTo_of_genericArray (n := arrayOf n) (by rw [expr, h])]
    · intro limit
      rw [generics]
      · simp only [expr, h]
        rfl
      · simp

/-! ## Views -/

theorem viewIs_none_iff (target : Erasure) (view : Option Node) :
    ViewIs r none target view ↔ view = none := by
  simp only [ViewIs, asErasure, finds_const_iff, Option.some.injEq]
  exact eq_comm

theorem firstViewIs_nil_iff (target : Erasure) (view : Option Node) :
    FirstViewIs r [] target view ↔ view = none := by
  simp only [FirstViewIs, firstView, finds_const_iff, Option.some.injEq]
  exact eq_comm

theorem firstViewIs_cons_iff (n : Node) (rest : List Node) (target : Erasure)
    (view : Option Node) :
    FirstViewIs r (n :: rest) target view ↔
      ∃ first, ViewIs r (some n) target first ∧
        match first with
        | some found => view = some found
        | none => FirstViewIs r rest target view := by
  rw [FirstViewIs, finds_succ_iff rfl]
  simp only [firstView]
  have hsteady : ∀ first : Option Node, Steady fun limit =>
      (match first with
        | some found => pure (some found)
        | none => firstView r limit rest target : Walk (Option Node)) := by
    intro first
    cases first with
    | none => exact firstView_steady r rest target
    | some found => exact .const _
  refine (finds_bind_iff (asErasure_steady r _ target) hsteady).trans ?_
  refine exists_congr fun first => and_congr_right fun _ => ?_
  cases first with
  | none => rfl
  | some found =>
    simp only [finds_const_iff, Option.pure_def, Option.some.injEq]
    exact eq_comm

/-- The nodes of the declared interfaces of an erasure, read in a node. -/
def interfaceNodes (r : Registry) (n : Node) (e : Erasure) : List Node :=
  (r.genericInterfaces e).map (within (some n))

/-- The node of the declared superclass of an erasure, read in a node. -/
def superNode? (r : Registry) (n : Node) (e : Erasure) : Option Node :=
  (r.genericSuperclass e).map (within (some n))

theorem finds_interfaces_iff {n : Node} {e : Erasure} (he : ResolvesTo r n (some e))
    (ns : List Node) :
    Finds (fun limit => interfaces r limit n) ns ↔ ns = interfaceNodes r n e := by
  constructor
  · rintro ⟨limit, h⟩
    rcases Option.bind_eq_some_iff.mp h with ⟨found, hfound, h⟩
    obtain rfl := he.eq_of_some (resolve_steady r n) hfound
    exact (Option.some.inj h).symm
  · rintro rfl
    rcases he with ⟨limit, h⟩
    exact ⟨limit, by simp [interfaces, h, interfaceNodes]⟩

theorem finds_superType_iff {n : Node} {e : Erasure} (he : ResolvesTo r n (some e))
    (s : Option Node) :
    Finds (fun limit => superType r limit n) s ↔ s = superNode? r n e := by
  constructor
  · rintro ⟨limit, h⟩
    rcases Option.bind_eq_some_iff.mp h with ⟨found, hfound, h⟩
    obtain rfl := he.eq_of_some (resolve_steady r n) hfound
    exact (Option.some.inj h).symm
  · rintro rfl
    rcases he with ⟨limit, h⟩
    exact ⟨limit, by simp [superType, h, superNode?]⟩

theorem viewIs_some_iff (n : Node) (target : Erasure) (view : Option Node) :
    ViewIs r (some n) target view ↔
      ∃ e, ResolvesTo r n e ∧
        match e with
        | none => view = some n
        | some e =>
          if e = target then view = some n
          else ∃ first, FirstViewIs r (interfaceNodes r n e) target first ∧
            match first with
            | some found => view = some found
            | none => ViewIs r (superNode? r n e) target view := by
  have hstop : Finds (fun _ => some (some n)) view ↔ view = some n := by
    simp only [finds_const_iff, Option.some.injEq]
    exact eq_comm
  have hclimb : ∀ first : Option Node, Steady fun limit =>
      (match first with
        | some found => pure (some found)
        | none => do asErasure r limit (← superType r limit n) target : Walk (Option Node)) := by
    intro first
    cases first with
    | some found => exact .const _
    | none => exact (superType_steady r n).bind fun s => asErasure_steady r s target
  have hviews : ∀ ns : List Node, Steady fun limit =>
      (do
        match ← firstView r limit ns target with
        | some found => pure (some found)
        | none => asErasure r limit (← superType r limit n) target : Walk (Option Node)) :=
    fun ns => (firstView_steady r ns target).bind hclimb
  have hrest : ∀ e : Option Erasure, Steady fun limit =>
      (match e with
        | none => some (some n)
        | some e =>
          if e = target then some (some n)
          else do
            match ← firstView r limit (← interfaces r limit n) target with
            | some found => pure (some found)
            | none => asErasure r limit (← superType r limit n) target : Walk (Option Node)) := by
    intro e
    cases e with
    | none => exact .const _
    | some e =>
      by_cases h : e = target
      · simp only [h, if_true]
        exact .const _
      · simp only [h, if_false]
        exact (interfaces_steady r n).bind hviews
  rw [ViewIs, finds_succ_iff rfl]
  simp only [asErasure]
  refine (finds_bind_iff (resolve_steady r n) hrest).trans ?_
  refine exists_congr fun e => and_congr_right fun he => ?_
  cases e with
  | none => exact hstop
  | some e =>
    by_cases h : e = target
    · simp only [h, if_true]
      exact hstop
    · simp only [h, if_false]
      refine (finds_bind_iff (interfaces_steady r n) hviews).trans ?_
      simp only [finds_interfaces_iff he, exists_eq_left]
      refine (finds_bind_iff (firstView_steady r _ target) hclimb).trans ?_
      refine exists_congr fun first => and_congr_right fun _ => ?_
      cases first with
      | some found =>
        simp only [finds_const_iff, Option.pure_def, Option.some.injEq]
        exact eq_comm
      | none =>
        refine (finds_bind_iff (superType_steady r n) fun s => asErasure_steady r s target).trans ?_
        simp only [finds_superType_iff he, exists_eq_left]
        rfl

end Node

end TypeConversion
