import TypeConversion.Proofs.Node.Termination

/-!
# Nodes without type variables

A node is free of type variables if none is written in it or in its contexts.  What such a node
binds a variable to is a smaller node of this kind, and so is what it consists of as an array.  Its
type arguments are smaller as well, except those of a class without arguments, which are the type
parameters of the class, read in the node.

A type parameter that is read in a node *unwinds*, step by step, to what it stands for there, or to
nothing.  All walks over nodes find the same where it has come to.

**Results**

* `small_of_variableIs`, `small_of_componentIs`, `argument_cases`: where walks from a node without
  variables lead;
* `Unwinds.found_iff`: walks by single steps go on where a node unwinds to;
* `ComesBelow.small_of_componentIs`, `ComesBelow.small_of_variableIs`: so they lead to smaller nodes
  again.
-/

namespace TypeConversion

namespace TypeExpr

mutual

/-- The type variables that are written in a type expression. -/
def typeVars : TypeExpr → List TypeVarId
  | plain _ => []
  | parameterized _ args owner => typeVarsAll args ++ typeVarsOption owner
  | genericArray component => typeVars component
  | wildcard upper lower => typeVarsAll upper ++ typeVarsAll lower
  | typeVar v => [v]

/-- The type variables that are written in the type expressions of a list. -/
def typeVarsAll : List TypeExpr → List TypeVarId
  | [] => []
  | t :: rest => typeVars t ++ typeVarsAll rest

/-- The type variables that are written in an optional type expression. -/
def typeVarsOption : Option TypeExpr → List TypeVarId
  | none => []
  | some t => typeVars t

end

theorem typeVars_eq_nil_of_mem {t : TypeExpr} {ts : List TypeExpr} (h : typeVarsAll ts = [])
    (ht : t ∈ ts) : t.typeVars = [] := by
  induction ts with
  | nil => simp at ht
  | cons head rest ih =>
    rw [typeVarsAll, List.append_eq_nil_iff] at h
    rcases List.mem_cons.mp ht with rfl | ht
    · exact h.1
    · exact ih h.2 ht

end TypeExpr

namespace Node

open Walk Registry

mutual

/-- The type variables that are written in a node or in its contexts. -/
def typeVars : Node → List TypeVarId
  | written e none => e.typeVars
  | written e (some c) => e.typeVars ++ typeVars c
  | arrayOf n => typeVars n
  | applied _ _ given => typeVarsGiven given

/-- The type variables that are written in given nodes. -/
def typeVarsGiven : List (Option Node) → List TypeVarId
  | [] => []
  | none :: rest => typeVarsGiven rest
  | some n :: rest => typeVars n ++ typeVarsGiven rest

end

mutual

/-- The size of all type expressions that a node is made of. -/
def size : Node → Nat
  | written e none => e.weight
  | written e (some c) => e.weight + size c
  | arrayOf n => size n + 1
  | applied _ _ given => sizeGiven given + 1

/-- The size of given nodes. -/
def sizeGiven : List (Option Node) → Nat
  | [] => 0
  | none :: rest => sizeGiven rest
  | some n :: rest => size n + sizeGiven rest

end

theorem typeVars_written_iff (e : TypeExpr) (c : Option Node) :
    (written e c).typeVars = [] ↔ e.typeVars = [] ∧ ∀ m ∈ c, m.typeVars = [] := by
  cases c <;> simp [typeVars]

theorem size_written (e : TypeExpr) (c : Option Node) :
    (written e c).size = e.weight + c.elim 0 size := by
  cases c <;> simp [size]

/-- A node without type variables that is less than a size. -/
structure Small (k : Nat) (n : Node) : Prop where
  typeVars : n.typeVars = []
  size : n.size < k

theorem Small.mono {k k' : Nat} {n : Node} (h : n.Small k) (hle : k ≤ k') : n.Small k' :=
  ⟨h.typeVars, h.size.trans_le hle⟩

/-- A smaller type expression without variables in the same context. -/
theorem small_written {e t : TypeExpr} {c : Option Node} (h : (written e c).typeVars = [])
    (ht : t.typeVars = []) (hlt : t.weight < e.weight) :
    (written t c).Small (written e c).size := by
  refine ⟨(typeVars_written_iff ..).mpr ⟨ht, ((typeVars_written_iff ..).mp h).2⟩, ?_⟩
  rw [size_written, size_written]
  omega

/-- The context of a node is smaller. -/
theorem small_context {e : TypeExpr} {m : Node} (h : (written e (some m)).typeVars = []) :
    m.Small (written e (some m)).size := by
  refine ⟨((typeVars_written_iff ..).mp h).2 m rfl, ?_⟩
  have := e.weight_pos
  rw [size]
  omega

theorem small_of_mem_given {n : Node} {given : List (Option Node)} (h : typeVarsGiven given = [])
    (hn : some n ∈ given) : n.Small (sizeGiven given + 1) := by
  induction given with
  | nil => simp at hn
  | cons head rest ih =>
    cases head with
    | none => exact ih h (by simpa using hn)
    | some m =>
      rw [typeVarsGiven, List.append_eq_nil_iff] at h
      rw [sizeGiven]
      rcases List.mem_cons.mp hn with hn | hn
      · obtain rfl := Option.some.inj hn
        exact ⟨h.1, by omega⟩
      · exact (ih h.2 hn).mono (by omega)

variable {r : Registry}

/-- What stands for a wildcard without variables is smaller. -/
theorem small_of_wildcardBound? {upper lower : List TypeExpr} {c : Option Node} {b : TypeExpr}
    (h : (written (.wildcard upper lower) c).typeVars = [])
    (hb : r.wildcardBound? upper lower = some b) :
    (written b c).Small (written (.wildcard upper lower) c).size := by
  have hvariables := ((typeVars_written_iff ..).mp h).1
  rw [TypeExpr.typeVars, List.append_eq_nil_iff] at hvariables
  refine small_written h ?_ ((Unfolds.wildcard hb).weight_lt.resolve_right (by simp))
  rcases wildcardBound?_mem hb with hmem | hmem
  · exact TypeExpr.typeVars_eq_nil_of_mem hvariables.1 hmem
  · exact TypeExpr.typeVars_eq_nil_of_mem hvariables.2 hmem

/-- The type arguments that are written in a class are smaller. -/
theorem small_of_mem_args {raw : ClassId} {args : List TypeExpr} {owner : Option TypeExpr}
    {c : Option Node} (h : (written (.parameterized raw args owner) c).typeVars = [])
    {t : TypeExpr} (ht : t ∈ args) :
    (written t c).Small (written (.parameterized raw args owner) c).size := by
  have hvariables := ((typeVars_written_iff ..).mp h).1
  rw [TypeExpr.typeVars, List.append_eq_nil_iff] at hvariables
  refine small_written h (TypeExpr.typeVars_eq_nil_of_mem hvariables.1 ht) ?_
  have := TypeExpr.weight_le_weightAll ht
  rw [TypeExpr.weight]
  omega

/-! ## Where walks lead -/

/-- What a node without variables binds a variable to is a smaller one. -/
theorem small_of_variableIs {n b : Node} (hn : n.typeVars = []) {v : TypeVarId}
    (h : VariableIs r (some n) v (some b)) : b.Small n.size := by
  induction hk : n.size using Nat.strong_induction_on generalizing n b with
  | _ k ih =>
  subst hk
  have hsmaller : ∀ m b, m.Small n.size → VariableIs r (some m) v (some b) → b.Small n.size :=
    fun m b hm h => (ih m.size hm.size hm.typeVars h rfl).mono hm.size.le
  cases n with
  | arrayOf n => simp [variableIs_arrayOf_iff] at h
  | applied raw params given =>
    rw [size]
    exact small_of_mem_given hn (mem_given_of_variableIs h)
  | written e c =>
    have hcontext : ∀ {b}, VariableIs r c v (some b) → b.Small (written e c).size := by
      intro b h
      cases c with
      | none => simp [variableIs_none_iff] at h
      | some m => exact hsmaller m b (small_context hn) h
    have horElse : ∀ {first b}, (∀ f, first = some f → f.Small (written e c).size) →
        OrElse (r := r) c v first (some b) → b.Small (written e c).size := by
      intro first b hfirst h
      cases first with
      | some found =>
        obtain rfl := Option.some.inj h
        exact hfirst b rfl
      | none => exact hcontext h
    cases e with
    | plain e => exact hcontext ((variableIs_plain_iff ..).mp h)
    | genericArray t => exact hcontext ((variableIs_genericArray_iff ..).mp h)
    | typeVar w => simp [typeVars_written_iff, TypeExpr.typeVars] at hn
    | parameterized raw args owner =>
      have h := (variableIs_parameterized_iff ..).mp h
      cases hi : (r.typeParameters raw).idxOf? v with
      | some i =>
        rw [hi] at h
        obtain ⟨t, ht, rfl⟩ := Option.map_eq_some_iff.mp h.symm
        exact small_of_mem_args hn (List.mem_of_getElem? ht)
      | none =>
        rw [hi] at h
        obtain ⟨first, hfirst, h⟩ := h
        refine horElse (fun f hf => ?_) h
        cases owner with
        | none => simp [hf, variableIs_none_iff] at hfirst
        | some o =>
          have hvariables := ((typeVars_written_iff ..).mp hn).1
          rw [TypeExpr.typeVars, List.append_eq_nil_iff] at hvariables
          have howner : (written o c).Small (written (.parameterized raw args (some o)) c).size :=
            small_written hn hvariables.2
              ((Unfolds.owner (r := r) raw args o).weight_lt.resolve_right (by simp))
          exact hsmaller _ f howner (hf ▸ hfirst)
    | wildcard upper lower =>
      obtain ⟨first, hfirst, h⟩ := (variableIs_wildcard_iff ..).mp h
      refine horElse (fun f hf => ?_) h
      cases hb : r.wildcardBound? upper lower with
      | none => simp [hf, hb, variableIs_none_iff] at hfirst
      | some b =>
        rw [hf, hb] at hfirst
        exact hsmaller _ f (small_of_wildcardBound? hn hb) hfirst

/-- A class with type arguments is no array. -/
theorem eq_none_of_componentIs {n : Node} {raw : ClassId} {args : List TypeExpr}
    {owner : Option TypeExpr} (he : n.expr = .parameterized raw args owner) {c : Option Node}
    (h : ComponentIs r n c) : c = none := by
  obtain ⟨t, ht, h⟩ := (componentIs_of_step (by rw [he]; rfl) _).mp h
  obtain rfl := (stepsTo_of_parameterized he _).mp ht
  simpa [sibling, TypeExpr.ofClass, componentIs_plain_iff] using h

/-- What an array without variables consists of is smaller. -/
theorem small_of_componentIs {n c : Node} (hn : n.typeVars = [])
    (h : ComponentIs r n (some c)) : c.Small n.size := by
  induction hk : n.size using Nat.strong_induction_on generalizing n with
  | _ k ih =>
  subst hk
  cases n with
  | arrayOf n =>
    obtain rfl : c = n := by simpa using (componentIs_arrayOf_iff ..).mp h
    exact ⟨hn, Nat.lt_succ_self _⟩
  | applied raw params given => simpa using eq_none_of_componentIs (by rw [expr]) h
  | written e context =>
    cases e with
    | plain e =>
      obtain ⟨k, hk, rfl⟩ := Option.map_eq_some_iff.mp ((componentIs_plain_iff ..).mp h).symm
      have hdims := Erasure.toNat_dims_of_component? hk
      refine small_written hn rfl ?_
      rw [TypeExpr.weight, TypeExpr.weight]
      omega
    | genericArray t =>
      obtain rfl : c = written t context := by simpa using (componentIs_genericArray_iff ..).mp h
      have hvariables := ((typeVars_written_iff ..).mp hn).1
      exact small_written hn hvariables
        ((Unfolds.component (r := r) t).weight_lt.resolve_right (by simp))
    | typeVar v => simp [typeVars_written_iff, TypeExpr.typeVars] at hn
    | parameterized raw args owner => simpa using eq_none_of_componentIs (expr_written ..) h
    | wildcard upper lower =>
      obtain ⟨t, ht, h⟩ := (componentIs_of_step (by simp [TypeExpr.isFinal]) _).mp h
      obtain rfl := (stepsTo_of_wildcard (expr_written ..) _).mp ht
      cases hb : r.wildcardBound? upper lower with
      | none => simp [hb] at h
      | some b =>
        have hsmall := small_of_wildcardBound? hn hb
        rw [hb] at h
        exact (ih _ hsmall.size hsmall.typeVars h rfl).mono hsmall.size.le

/-- The type parameters of a class without arguments are read in a node of no more than its size. -/
structure IsParameterIn (r : Registry) (n m : Node) (v : TypeVarId) (owner : Node) : Prop where
  eq : m = written (.typeVar v) (some owner)
  declared : ∃ c, ResolvesTo r n (some (.ofClass c)) ∧ v ∈ r.typeParameters c
  typeVars : owner.typeVars = []
  size : owner.size ≤ n.size

/-- The arguments of a node without variables are smaller, or are parameters of its class. -/
theorem argument_cases {n m : Node} {args : List (Option Node)} (hn : n.typeVars = [])
    (h : GenericsAre r n args) (hm : some m ∈ args) :
    m.Small n.size ∨ ∃ v owner, IsParameterIn r n m v owner := by
  induction hk : n.size using Nat.strong_induction_on generalizing n with
  | _ k ih =>
  subst hk
  cases n with
  | arrayOf n =>
    obtain rfl := (genericsAre_arrayOf_iff ..).mp h
    simp at hm
  | applied raw params given =>
    obtain rfl := (genericsAre_applied_iff ..).mp h
    exact .inl (by simpa [size] using small_of_mem_given hn hm)
  | written e context =>
    cases e with
    | plain e =>
      obtain rfl := (genericsAre_plain_iff ..).mp h
      obtain ⟨v, hv, heq⟩ := List.mem_map.mp hm
      cases hc : e.asClass? with
      | none => simp [hc] at hv
      | some c =>
        obtain rfl := Erasure.eq_ofClass_of_asClass? hc
        exact .inr ⟨v, _, (Option.some.inj heq).symm,
          ⟨c, (resolvesTo_of_plain (expr_written ..) _).mpr rfl, hv⟩, hn, le_rfl⟩
    | parameterized raw ts owner =>
      obtain rfl := (genericsAre_parameterized_iff ..).mp h
      obtain ⟨t, ht, heq⟩ := List.mem_map.mp hm
      obtain rfl := Option.some.inj heq
      exact .inl (small_of_mem_args hn ht)
    | genericArray t =>
      obtain ⟨u, hu, h⟩ := (genericsAre_of_step rfl _).mp h
      obtain rfl := (stepsTo_of_genericArray (expr_written ..) _).mp hu
      obtain rfl : args = [] := h
      simp at hm
    | typeVar v => simp [typeVars_written_iff, TypeExpr.typeVars] at hn
    | wildcard upper lower =>
      obtain ⟨u, hu, h⟩ := (genericsAre_of_step rfl _).mp h
      have hbound := (stepsTo_of_wildcard (expr_written ..) _).mp hu
      cases hb : r.wildcardBound? upper lower with
      | none =>
        rw [hb] at hbound
        obtain rfl := hbound
        obtain rfl : args = [] := h
        simp at hm
      | some b =>
        rw [hb] at hbound
        obtain rfl := hbound
        have hsmall := small_of_wildcardBound? hn hb
        rcases ih _ hsmall.size hsmall.typeVars h rfl with hm | ⟨v, owner, hm⟩
        · exact .inl (hm.mono hsmall.size.le)
        · obtain ⟨c, hc, hv⟩ := hm.declared
          have hresolves := (resolvesTo_of_step (by simp [TypeExpr.isFinal]) _).mpr ⟨_, hu, hc⟩
          exact .inr ⟨v, owner, hm.eq, ⟨c, hresolves, hv⟩, hm.typeVars,
            hm.size.trans hsmall.size.le⟩

/-! ## What variables stand for -/

/-- Single steps lead from a variable to another node, or to nothing; a node may stay as it is. -/
inductive Unwinds (r : Registry) : Node → Option Node → Prop
  | stays (n : Node) : Unwinds r n (some n)
  | stops {v : TypeVarId} {c : Option Node} (h : StepsTo r (written (.typeVar v) c) none) :
      Unwinds r (written (.typeVar v) c) none
  | goesOn {v : TypeVarId} {c : Option Node} {m : Node} {t : Option Node}
      (h : StepsTo r (written (.typeVar v) c) (some m)) (hm : Unwinds r m t) :
      Unwinds r (written (.typeVar v) c) t

/-- A walk that takes the steps of variables finds the same where a node unwinds to. -/
theorem Unwinds.found_iff {α : Type} {found : Node → α → Prop} {default : α}
    (hstep : ∀ v c a, found (written (.typeVar v) c) a ↔
      ∃ t, StepsTo r (written (.typeVar v) c) t ∧
        match t with
        | some t => found t a
        | none => a = default)
    {n : Node} {t : Option Node} (h : Unwinds r n t) (a : α) :
    found n a ↔ t.elim (a = default) fun m => found m a := by
  induction h with
  | stays n => exact Iff.rfl
  | stops h =>
    rw [hstep]
    constructor
    · rintro ⟨t, ht, ha⟩
      obtain rfl := ht.unique h
      exact ha
    · exact fun ha => ⟨none, h, ha⟩
  | goesOn h _ ih =>
    rw [hstep, ← ih]
    constructor
    · rintro ⟨t, ht, ha⟩
      obtain rfl := ht.unique h
      exact ha
    · exact fun ha => ⟨_, h, ha⟩

/-- A node that unwinds to a smaller one without variables, or to nothing. -/
def ComesBelow (r : Registry) (k : Nat) (n : Node) : Prop :=
  ∃ t, Unwinds r n t ∧ ∀ m ∈ t, m.Small k

theorem Small.comesBelow {k : Nat} {n : Node} (h : n.Small k) : ComesBelow r k n :=
  ⟨some n, .stays n, by simpa using h⟩

/-- A variable comes below what its binding comes below, if it has no bound of its own. -/
theorem comesBelow_of_bindings (hb : r.AcyclicBounds) {k : Nat} {v : TypeVarId} {n : Node}
    (hopen : r.declaredBound? v = none)
    (hbound : ∀ b, VariableIs r (some n) v (some b) → ComesBelow r k b) :
    ComesBelow r k (written (.typeVar v) (some n)) := by
  obtain ⟨t, ht, -⟩ := exists_stepsTo hb (written (.typeVar v) (some n))
  obtain ⟨bound, hbinds, heq⟩ := (stepsTo_of_typeVar (expr_written ..) _).mp ht
  obtain rfl : t = bound := by simpa [hopen] using heq
  cases t with
  | none => exact ⟨none, .stops ht, by simp⟩
  | some b =>
    obtain ⟨u, hu, hsmall⟩ := hbound b ((binds_some_iff ..).mp hbinds)
    exact ⟨u, .goesOn ht hu, hsmall⟩

namespace ComesBelow

variable {k : Nat} {n : Node} (hn : ComesBelow r k n)

include hn

theorem small_of_variableIs {v : TypeVarId} {b : Node} (h : VariableIs r (some n) v (some b)) :
    ∃ j < k, b.Small j := by
  obtain ⟨t, ht, hsmall⟩ := hn
  have hstep : ∀ w c a, VariableIs r (some (written (.typeVar w) c)) v a ↔
      ∃ t, StepsTo r (written (.typeVar w) c) t ∧
        match t with
        | some t => VariableIs r (some t) v a
        | none => a = none := by
    intro w c a
    refine (variableIs_typeVar_iff ..).trans (exists_congr fun t => and_congr_right fun _ => ?_)
    cases t with
    | none => exact variableIs_none_iff ..
    | some t => exact Iff.rfl
  have hfound := (@Unwinds.found_iff r _ (fun m => VariableIs r (some m) v) none hstep n t ht
    (some b)).mp h
  cases t with
  | none => simp at hfound
  | some m =>
    have hm := hsmall m rfl
    exact ⟨m.size, hm.size, Node.small_of_variableIs hm.typeVars hfound⟩

theorem small_of_componentIs {c : Node} (h : ComponentIs r n (some c)) : ∃ j < k, c.Small j := by
  obtain ⟨t, ht, hsmall⟩ := hn
  have hfound := (ht.found_iff (fun v c => componentIs_of_step (by simp [TypeExpr.isFinal])) _).mp h
  cases t with
  | none => simp at hfound
  | some m =>
    have hm := hsmall m rfl
    exact ⟨m.size, hm.size, Node.small_of_componentIs hm.typeVars hfound⟩

end ComesBelow

end Node

end TypeConversion
