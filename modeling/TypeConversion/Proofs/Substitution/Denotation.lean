import TypeConversion.Proofs.Substitution.Expr
import TypeConversion.Proofs.Node.Termination
import TypeConversion.Node.Site

/-!
# What nodes denote

A node never substitutes: its variables are looked up in its context, and those of the context in
the context of that one.  A class that is used in its own supertypes puts the same variable in scope
at several depths.  `Denotes` is the invariant that keeps them apart: every node of a chain denotes
the expression in which the variables have been replaced by what the next context denotes.

**Results**

* `Denotes.resolvesTo`: a node resolves to the erasure of what it denotes;
* `Denotes.genericsAre`: its type arguments denote the arguments of what it denotes;
* `Represents.supertype`: its supertypes denote those of what it denotes, with the variables
  replaced.
-/

namespace TypeConversion

namespace Node

open Walk Registry

variable {r : Registry}

/-- A node denotes the expression that is left when all its variables are replaced. -/
inductive Denotes (r : Registry) : Node → TypeExpr → Prop
  | closed {t : TypeExpr} (ht : t.IsClosed) : Denotes r (written t none) t
  | inContext {o : Node} {s t : TypeExpr} (ho : Denotes r o s) (hcontext : o.expr.IsContext r)
      (ht : t.Proper r (o.expr.scope r)) :
      Denotes r (written t (some o)) (t.instantiate (r.bindings s))

/-- The size of all expressions along the contexts of a node. -/
def mass : Node → Nat
  | written e none => e.weight
  | written e (some c) => e.weight + mass c
  | arrayOf _ => 0
  | applied .. => 0

/-- What a context binds a variable of its scope to denotes what the variable is replaced by. -/
theorem Denotes.variableIs {o : Node} {s : TypeExpr} (ho : Denotes r o s)
    (hcontext : o.expr.IsContext r) {v : TypeVarId} (hv : v ∈ o.expr.scope r) :
    ∃ b t, VariableIs r (some o) v (some b) ∧ r.bindings s v = some t ∧ Denotes r b t ∧
      b.mass < o.mass + 1 := by
  have harg : ∀ {args : List TypeExpr} {raw : ClassId},
      args.length = (r.typeParameters raw).length → v ∈ r.typeParameters raw →
      ∃ i a, (r.typeParameters raw).idxOf? v = some i ∧ args[i]? = some a := by
    intro args raw hlength hv
    rcases Option.isSome_iff_exists.mp (List.isSome_idxOf?.mpr hv) with ⟨i, hi⟩
    have hlt : i < (r.typeParameters raw).length := by
      rcases List.idxOf?_eq_some_iff.mp hi with ⟨h, -⟩
      exact h
    exact ⟨i, args[i], hi, List.getElem?_eq_getElem (hlength ▸ hlt)⟩
  cases ho with
  | closed ht =>
    cases s with
    | parameterized raw args owner =>
      rcases harg hcontext hv with ⟨i, a, hi, ha⟩
      have hmem := List.mem_of_getElem? ha
      refine ⟨written a none, a, ?_, by simp [bindings, hi, ha], ?_, ?_⟩
      · rw [variableIs_parameterized_iff]
        simp [hi, ha]
      · exact .closed ((TypeExpr.allClosed_iff _).mp ht.1 a hmem)
      · have := TypeExpr.weight_le_weightAll hmem
        simp only [mass, TypeExpr.weight]
        omega
    | _ => simp [TypeExpr.scope] at hv
  | @inContext o' s' t ho' hcontext' ht =>
    cases t with
    | parameterized raw args owner =>
      rcases harg hcontext hv with ⟨i, a, hi, ha⟩
      have hmem := List.mem_of_getElem? ha
      refine ⟨written a (some o'), a.instantiate (r.bindings s'), ?_, ?_, ?_, ?_⟩
      · rw [variableIs_parameterized_iff]
        simp [hi, ha]
      · simp [TypeExpr.instantiate, bindings, hi, ha]
      · exact .inContext ho' hcontext' ((TypeExpr.allProper_iff ..).mp ht.2.1 a hmem)
      · have := TypeExpr.weight_le_weightAll hmem
        simp only [mass, TypeExpr.weight]
        omega
    | _ => simp [TypeExpr.scope] at hv

/-- What is denoted is closed. -/
theorem Denotes.isClosed {n : Node} {t : TypeExpr} (h : Denotes r n t) : t.IsClosed := by
  induction hm : n.mass using Nat.strong_induction_on generalizing n t with
  | _ m ih =>
  subst hm
  cases h with
  | closed ht => exact ht
  | @inContext o s t ho hcontext ht =>
    refine ht.isClosed_instantiate fun v hv => ?_
    rcases ho.variableIs hcontext hv with ⟨b, u, -, hu, hb, hmass⟩
    refine ⟨u, hu, ih b.mass ?_ hb rfl⟩
    have := t.weight_pos
    simp only [mass]
    omega

/-- A variable of a context denotes what it is replaced by, one step further. -/
theorem Denotes.exists_step {o : Node} {s : TypeExpr} (ho : Denotes r o s)
    (hcontext : o.expr.IsContext r) {v : TypeVarId} (hv : v ∈ o.expr.scope r) :
    ∃ b, StepsTo r (written (.typeVar v) (some o)) (some b) ∧
      Denotes r b ((TypeExpr.typeVar v).instantiate (r.bindings s)) ∧
      b.mass < (written (.typeVar v) (some o)).mass := by
  rcases ho.variableIs hcontext hv with ⟨b, t, hbinds, ht, hb, hmass⟩
  refine ⟨b, ?_, by simpa [TypeExpr.instantiate, ht] using hb, ?_⟩
  · rw [stepsTo_of_typeVar (expr_written ..)]
    exact ⟨some b, (binds_iff ..).mpr hbinds, rfl⟩
  · simp only [mass, TypeExpr.weight]
    omega

/-- A node resolves to the erasure of what it denotes. -/
theorem Denotes.resolvesTo {n : Node} {t : TypeExpr} (h : Denotes r n t) :
    ResolvesTo r n t.erasure? := by
  induction hm : n.mass using Nat.strong_induction_on generalizing n t with
  | _ m ih =>
  subst hm
  have hparameterized : ∀ raw args owner c,
      ResolvesTo r (written (.parameterized raw args owner) c) (some (.ofClass raw)) := by
    intro raw args owner c
    rw [resolvesTo_of_step (by simp [TypeExpr.isFinal])]
    refine ⟨_, (stepsTo_of_parameterized (expr_written ..) _).mpr rfl, ?_⟩
    exact (resolvesTo_of_plain (expr_written ..) _).mpr rfl
  have hgenericArray : ∀ component c e, ResolvesTo r (written component c) e →
      ResolvesTo r (written (.genericArray component) c) (e.bind (·.array?)) := by
    intro component c e he
    rw [resolvesTo_of_genericArray (expr_written ..)]
    exact ⟨_, (componentIs_genericArray_iff ..).mpr rfl, e, he, rfl⟩
  cases h with
  | closed ht =>
    cases t with
    | plain e => exact (resolvesTo_of_plain (expr_written ..) _).mpr rfl
    | parameterized raw args owner => exact hparameterized ..
    | genericArray component =>
      exact hgenericArray component none _
        (ih _ (by simp [mass, TypeExpr.weight]) (.closed ht) rfl)
    | wildcard _ _ | typeVar _ => exact ht.elim
  | @inContext o s t ho hcontext ht =>
    cases t with
    | plain e => exact (resolvesTo_of_plain (expr_written ..) _).mpr rfl
    | parameterized raw args owner => exact hparameterized ..
    | genericArray component =>
      refine hgenericArray component (some o) _ (ih _ ?_ (.inContext ho hcontext ht) rfl)
      simp only [mass, TypeExpr.weight]
      omega
    | wildcard _ _ => exact ht.elim
    | typeVar v =>
      rcases ho.exists_step hcontext ht with ⟨b, hstep, hb, hmass⟩
      rw [resolvesTo_of_step (by simp [TypeExpr.isFinal])]
      exact ⟨some b, hstep, ih b.mass hmass hb rfl⟩

/-- The type arguments of a node denote those of what it denotes. -/
def ArgumentsDenote (r : Registry) (args : List (Option Node)) (t : TypeExpr) : Prop :=
  List.Forall₂ (fun arg u => ∃ a, arg = some a ∧ Denotes r a u) args t.arguments

/-- The arguments of a node denote those of what it denotes, or else are those of a raw class. -/
theorem Denotes.genericsAre {n : Node} {t : TypeExpr} (h : Denotes r n t) :
    ∃ args, GenericsAre r n args ∧ (t.IsRaw r → GenericsAre r (ofExpr t) args) ∧
      (¬t.IsRaw r → ArgumentsDenote r args t) := by
  induction hm : n.mass using Nat.strong_induction_on generalizing n t with
  | _ m ih =>
  subst hm
  have hgenericArray : ∀ component c,
      GenericsAre r (written (.genericArray component) c) [] := by
    intro component c
    rw [genericsAre_of_step (by simp [TypeExpr.isClass])]
    exact ⟨none, (stepsTo_of_genericArray (expr_written ..) _).mpr rfl, rfl⟩
  have hplain : ∀ e : Erasure, (e.isArray = true ∨ r.typeParameters e.element = []) → ∀ c,
      GenericsAre r (written (.plain e) c) [] := by
    intro e he c
    rw [genericsAre_plain_iff]
    rcases he with he | he
    · simp [Erasure.asClass?, he]
    · cases harray : e.isArray <;> simp [Erasure.asClass?, harray, he]
  cases h with
  | closed ht =>
    cases t with
    | plain e =>
      refine ⟨_, (genericsAre_plain_iff ..).mpr rfl,
        fun _ => (genericsAre_plain_iff ..).mpr rfl, ?_⟩
      intro hraw
      have hempty := hplain e (by simpa [TypeExpr.IsRaw, or_iff_not_imp_left] using hraw) none
      rw [← (genericsAre_plain_iff ..).mp hempty]
      exact .nil
    | parameterized raw args owner =>
      refine ⟨_, (genericsAre_parameterized_iff ..).mpr rfl, fun hraw => hraw.elim, fun _ => ?_⟩
      rw [ArgumentsDenote, TypeExpr.arguments, List.forall₂_map_left_iff, List.forall₂_same]
      intro a ha
      exact ⟨_, rfl, .closed ((TypeExpr.allClosed_iff _).mp ht.1 a ha)⟩
    | genericArray component =>
      exact ⟨[], hgenericArray component none, fun hraw => hraw.elim, fun _ => .nil⟩
    | wildcard _ _ | typeVar _ => exact ht.elim
  | @inContext o s t ho hcontext ht =>
    cases t with
    | plain e =>
      refine ⟨[], hplain e ht _, fun hraw => ?_, fun _ => .nil⟩
      rcases ht with ht | ht
      · simp [TypeExpr.instantiate, TypeExpr.IsRaw, ht] at hraw
      · exact absurd ht hraw.2
    | parameterized raw args owner =>
      refine ⟨_, (genericsAre_parameterized_iff ..).mpr rfl, fun hraw => hraw.elim, fun _ => ?_⟩
      rw [ArgumentsDenote, TypeExpr.instantiate, TypeExpr.arguments,
        TypeExpr.instantiateAll_eq_map, List.forall₂_map_left_iff, List.forall₂_map_right_iff,
        List.forall₂_same]
      intro a ha
      exact ⟨_, rfl, .inContext ho hcontext ((TypeExpr.allProper_iff ..).mp ht.2.1 a ha)⟩
    | genericArray component =>
      exact ⟨[], hgenericArray component _, fun hraw => hraw.elim, fun _ => .nil⟩
    | wildcard _ _ => exact ht.elim
    | typeVar v =>
      rcases ho.exists_step hcontext ht with ⟨b, hstep, hb, hmass⟩
      rcases ih b.mass hmass hb rfl with ⟨args, hargs, h⟩
      exact ⟨args, (genericsAre_of_step (by simp [TypeExpr.isClass]) _).mpr ⟨some b, hstep, hargs⟩,
        h⟩

/-! ## Supertypes -/

/-- A context denotes one that gives meaning to the same variables. -/
theorem Denotes.isContext_and_scope {n : Node} {s : TypeExpr} (h : Denotes r n s)
    (hcontext : n.expr.IsContext r) : s.IsContext r ∧ s.scope r = n.expr.scope r := by
  cases h with
  | closed ht =>
    rw [expr_written] at hcontext ⊢
    exact ⟨hcontext, rfl⟩
  | inContext ho hcontext' ht =>
    rw [expr_written] at hcontext ⊢
    exact ⟨hcontext.instantiate _, hcontext.scope_instantiate _⟩

/-- A node that may be a context for others, and the expression that it denotes. -/
structure Represents (r : Registry) (n : Node) (t : TypeExpr) : Prop where
  denotes : Denotes r n t
  isContext : n.expr.IsContext r

/-- What has the erasure of a class gives meaning to the parameters of the class. -/
theorem Represents.scope_eq {n : Node} {s : TypeExpr} (h : Represents r n s) {e : Erasure}
    (he : s.erasure? = some e) : n.expr.scope r = r.parametersOf e := by
  rcases h.denotes.isContext_and_scope h.isContext with ⟨hcontext, hscope⟩
  rw [← hscope, scope_eq_parametersOf hcontext he]

/-- A supertype read in a context represents the supertype with its variables replaced. -/
theorem Represents.supertype (hi : r.AcyclicInheritance) (hp : r.FullyParameterized) {n : Node}
    {s : TypeExpr} (h : Represents r n s) {e : Erasure} (he : s.erasure? = some e) {t : TypeExpr}
    (ht : r.IsSupertype e t) :
    Represents r (within (some n) t) (t.instantiate (r.bindings s)) := by
  have hproper := hp.supertypes e t ht
  refine ⟨.inContext h.denotes h.isContext (h.scope_eq he ▸ hproper), ?_⟩
  rw [within, expr_written]
  exact hproper.isContext (isSupertype_ne_typeVar hi ht)

end Node

end TypeConversion
